import OpenstackBlueprint.Gates.ComponentGraph
import OpenstackBlueprint.Gates.ReadinessDeadlock
import OpenstackBlueprint.Kit.Python

/-!
# `validate-component-dag.py`

The gate on the declared components: every dependency is a component, no
component waits for itself, every kind is the one core-provider serves, and
every component has a chart that renders. What `helm template` answers for a
chart is a parameter.

`visit` is a depth-first search with colours. A grey node is on the current path,
so meeting it again closes a cycle; the path is reported and the search goes on.
-/

namespace OpenstackBlueprint.Gates

open Chart Kit

/-! ## Closure -/

/-- The closure pass: dependencies that are not declared components. -/
def closureProblems (comps : Dict String Component) : List String :=
  (sortedItems comps).flatMap fun e =>
    (e.2.deps.filter fun d => d ∉ comps.keys).map fun d =>
      e.1 ++ ": dep " ++ Json.reprStr d ++ " is not a declared component -- it will never be " ++
        "Ready, so " ++ e.1 ++ " is never emitted and nothing reports it"

/-! ## Acyclicity -/

inductive Colour
  | white
  | grey
  | black
  deriving DecidableEq, Repr

/-- The variables of the search: `state`, and the paths reported as cycles. -/
structure Search where
  state : Dict String Colour
  cycles : List (List String)

/-- `visit(n, stack)`, with a bound on the depth of the recursion. -/
def visitNode (comps : Dict String Component) :
    Nat → String → List String → Search → Option Search
  | 0, _, _, _ => none
  | fuel + 1, n, stack, s =>
    match s.state.get? n with
    -- on the current path: report it and go on
    | some .grey => some { s with cycles := s.cycles ++ [stack ++ [n]] }
    | some .black => some s
    | _ => do
      let deps := (depsOf comps n).filter fun d => d ∈ comps.keys
      let s' ← deps.foldlM (fun s d => visitNode comps fuel d (stack ++ [n]) s)
        { s with state := s.state.set n .grey }
      return { s' with state := s'.state.set n .black }

/-- The visit pass over every name, in order. A path never repeats a grey name,
so its length bounds the recursion. -/
def searchCycles (comps : Dict String Component) : Option (List (List String)) := do
  let start : Search := ⟨Dict.ofList (comps.keys.map fun n => (n, .white)), []⟩
  let s ← (sortAlpha comps.keys).foldlM
    (fun s n => visitNode comps (comps.keys.length + 1) n [] s) start
  return s.cycles

/-- The problem of a reported path. -/
def cycleProblem (path : List String) : String :=
  "cycle: " ++ String.intercalate " -> " path ++ " -- each waits for the next, forever, with no error"

/-! ## Kinds and charts -/

/-- `n.capitalize()`, on ASCII letters. -/
def capitalize (n : String) : String :=
  match n.toList with
  | [] => ""
  | c :: rest => String.ofList (c.toUpper :: rest.map Char.toLower)

/-- The kind pass. -/
def kindProblems (comps : Dict String Component) : List String :=
  ((sortedItems comps).filter fun e => e.2.kind ≠ capitalize e.1).map fun e =>
    e.1 ++ ": kind is " ++ Json.reprStr e.2.kind ++ ", but core-provider serves " ++
      Json.reprStr (capitalize e.1) ++ " -- the gate would match a CRD nobody serves and wait forever"

/-- What `helm template` answers. -/
structure Templated where
  returncode : Int
  stdout : String
  stderr : String

/-- The charts of the repository: which names have one, and what it renders. -/
structure Charts where
  present : String → Bool
  template : String → Templated

/-- `out.stderr.strip().splitlines()[-1][:160] if out.stderr.strip() else 'no stderr'`. -/
def lastError (stderr : String) : String :=
  match (splitLines (strip stderr)).getLast? with
  | none => "no stderr"
  | some line => String.ofList (line.toList.take 160)

/-- The chart pass for one name. The umbrella itself is not rendered. -/
def chartProblem (charts : Charts) (n : String) : Option String :=
  if !charts.present n then some (n ++ ": no chart at blueprints/" ++ n ++ "/chart")
  else if n == "openstack" then none
  else if (charts.template n).returncode ≠ 0 then
    some (n ++ ": helm template failed -- " ++ lastError (charts.template n).stderr)
  else if strip (charts.template n).stdout == "" then some (n ++ ": rendered 0 objects")
  else none

/-- `problems`, in the order of the four passes. -/
def dagProblems (charts : Charts) (components : List Component) : Option (List String) := do
  let comps := compsByName components
  let cycles ← searchCycles comps
  return closureProblems comps ++ cycles.map cycleProblem ++ kindProblems comps ++
    (sortAlpha comps.keys).filterMap (chartProblem charts)

/-- The gate ends with OK: something was declared, and nothing is wrong. -/
def DagAccepts (charts : Charts) (components : List Component) : Prop :=
  components ≠ [] ∧ dagProblems charts components = some []

/-! ## What the closure pass decides -/

/-- With no problem, every dependency of every component is a component. -/
theorem closed_of_dagAccepts {charts : Charts} {components : List Component}
    (hdistinct : (components.map (·.name)).Nodup) (h : DagAccepts charts components)
    {c : Component} (hc : c ∈ components) {d : String} (hd : d ∈ c.deps) :
    ∃ c' ∈ components, c'.name = d := by
  obtain ⟨cycles, _, hproblems⟩ := Option.bind_eq_some_iff.mp h.2
  have hall := Option.some.inj hproblems
  simp only [List.append_eq_nil_iff] at hall
  have hclosed : closureProblems (compsByName components) = [] := hall.1.1.1
  have hget := (get?_compsByName hdistinct).mpr ⟨hc, rfl⟩
  have hkey : d ∈ (compsByName components).keys := by
    by_contra hnot
    have hnone := List.flatMap_eq_nil_iff.mp hclosed (c.name, c) (mem_sortedItems.mpr hget)
    rw [List.map_eq_nil_iff] at hnone
    have hmem : d ∈ c.deps.filter fun d => d ∉ (compsByName components).keys :=
      List.mem_filter.mpr ⟨hd, by simpa using hnot⟩
    rw [hnone] at hmem
    exact absurd hmem List.not_mem_nil
  obtain ⟨c', hc'⟩ := Option.ne_none_iff_exists'.mp
    (mt Dict.get?_eq_none_iff.mp (not_not.mpr hkey))
  exact ⟨c', (get?_compsByName hdistinct).mp hc'⟩

end OpenstackBlueprint.Gates
