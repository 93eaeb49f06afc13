import OpenstackBlueprint.Kit.Dict
import OpenstackBlueprint.Kit.Python
import OpenstackBlueprint.Kit.Text
import OpenstackBlueprint.Kit.Value

/-!
# The same-node gate

`validate-same-node-colocation.py` looks, in every rendered chart, for init
containers that wait for a pod on their own node. A waiter and a target that are
scheduled by different node labels must be declared, with both node selectors, in
`hack/node-colocation.yaml`.

`loads` is `json.loads`, with `none` for a `ValueError`.
-/

namespace OpenstackBlueprint.Gates.SameNode

open Kit

/-! ## The renders -/

/-- A `nodeSelector`, or the labels of a pod. -/
abbrev Labels := Dict String String

/-- An entry of a container's `env`. -/
structure EnvVar where
  name : String
  value : Option String

/-- `WORKLOADS`. -/
inductive WorkloadKind
  | deployment
  | statefulSet
  | daemonSet
  deriving DecidableEq

/-- A rendered workload: the metadata of its pods, their `nodeSelector` and the
`env` of each init container. -/
structure Workload where
  kind : WorkloadKind
  name : String
  podLabels : Option Labels
  nodeSelector : Option Labels
  initContainers : List (List EnvVar)

/-- A rendered object. -/
inductive Doc
  | workload (w : Workload)
  | other (kind : String)

/-- The objects whose kind is in `WORKLOADS`. -/
def workloads (docs : List Doc) : List Workload :=
  docs.filterMap fun
    | .workload w => some w
    | .other _ => none

/-- `tpl.get("metadata", {}).get("labels") or {}`. -/
def Workload.labels (w : Workload) : Labels := w.podLabels.getD .empty

/-- `spec.get("nodeSelector") or {}`. -/
def Workload.selector (w : Workload) : Labels := w.nodeSelector.getD .empty

/-- The values of the `DEPENDENCY_POD_JSON` variables. An empty value is none. -/
def Workload.dependencies (w : Workload) : List String :=
  w.initContainers.flatten.filterMap fun e =>
    if e.name ≠ "DEPENDENCY_POD_JSON" then none else e.value.filter (· ≠ "")

/-! ## pairs_in -/

/-- A waiter and the pod it waits for, each with its node selector. -/
structure Pair where
  waiter : String
  waiterSelector : Labels
  target : String
  targetSelector : Labels

/-- `labels.get(k) == v`. -/
def hasLabel (labels : Labels) (k : String) (v : Value) : Bool :=
  match labels.get? k with
  | some s => v.eqStr s
  | none => v.isNone

/-- `req.get("requireSameNode")`, as a condition. -/
def requiresSameNode (req : List (String × Value)) : Bool :=
  ((req.lookup "requireSameNode").getD .null).truthy

/-- `req.get("labels")`. -/
def requestedLabels (req : List (String × Value)) : Value := (req.lookup "labels").getD .null

/-- One request of a list, or `none` where `want` has no `items`. -/
def requestPairs (index : List Workload) (w : Workload) (req : Value) : Option (List Pair) :=
  match req with
  | .obj fields =>
    if requiresSameNode fields then
      match (requestedLabels fields).orElse (.obj []) with
      | .obj want =>
        some ((index.filter fun t => !want.isEmpty && want.all fun f => hasLabel t.labels f.1 f.2).map
          fun t => ⟨w.name, w.selector, t.name, t.selector⟩)
      | _ => if index.isEmpty then some [] else none
    else some []
  | _ => some []

/-- The target of a pair that stands for a value nobody can read. -/
def unparseable : String := "<unparseable DEPENDENCY_POD_JSON>"

/-- One `DEPENDENCY_POD_JSON` value. -/
def valuePairs (loads : String → Option Value) (index : List Workload) (w : Workload)
    (value : String) : Option (List Pair) :=
  match loads value with
  | none => some [⟨w.name, w.selector, unparseable, .empty⟩]
  | some (.arr reqs) => collect (requestPairs index w) reqs
  | some _ => some []

/-- `pairs_in(docs)`. -/
def pairsIn (loads : String → Option Value) (docs : List Doc) : Option (List Pair) :=
  collect (fun w => collect (valuePairs loads (workloads docs) w) w.dependencies) (workloads docs)

/-! ## The declaration -/

/-- A selector of the declaration: a mapping, or something else with its `repr`. -/
inductive SelectorField
  | mapping (d : Labels)
  | other (repr : String)

/-- An entry of `colocations` as it is read; `text` is how it prints. -/
structure RawEntry where
  component : Option String
  waiter : Option String
  target : Option String
  waiterSelector : Option SelectorField
  targetSelector : Option SelectorField
  requiredRelation : Option String
  why : Option String
  text : String

/-- A declared co-location. -/
structure Entry where
  component : String
  waiter : String
  target : String
  waiterSelector : Labels
  targetSelector : Labels
  requiredRelation : String
  why : String

/-- `if not entry.get(k): sys.exit(..)`, for a text. -/
def needText (entry : RawEntry) (k : String) (v : Option String) : Except String String :=
  match v.filter (· ≠ "") with
  | some s => .ok s
  | none => .error ("FAIL: a colocation entry is missing " ++ Json.reprStr k ++ ": " ++ entry.text)

/-- The same for a selector. What is no mapping passes here and is looked at later. -/
def needSelector (entry : RawEntry) (k : String) (v : Option SelectorField) :
    Except String SelectorField :=
  match v with
  | some (.mapping d) =>
    if d.entries.isEmpty then
      .error ("FAIL: a colocation entry is missing " ++ Json.reprStr k ++ ": " ++ entry.text)
    else .ok (.mapping d)
  | some (.other repr) => .ok (.other repr)
  | none => .error ("FAIL: a colocation entry is missing " ++ Json.reprStr k ++ ": " ++ entry.text)

/-- `if not isinstance(entry[k], dict): sys.exit(..)`. -/
def needMapping (k : String) : SelectorField → Except String Labels
  | .mapping d => .ok d
  | .other repr => .error ("FAIL: " ++ Json.reprStr k ++ " must be the nodeSelector mapping, not " ++
      repr)

/-- The checks on one entry, in order. -/
def checkEntry (entry : RawEntry) : Except String Entry := do
  let component ← needText entry "component" entry.component
  let waiter ← needText entry "waiter" entry.waiter
  let target ← needText entry "target" entry.target
  let waiterField ← needSelector entry "waiterSelector" entry.waiterSelector
  let targetField ← needSelector entry "targetSelector" entry.targetSelector
  let requiredRelation ← needText entry "requiredRelation" entry.requiredRelation
  let why ← needText entry "why" entry.why
  let waiterSelector ← needMapping "waiterSelector" waiterField
  let targetSelector ← needMapping "targetSelector" targetField
  return ⟨component, waiter, target, waiterSelector, targetSelector, requiredRelation, why⟩

/-- The key of a declared pair. -/
structure Key where
  component : String
  waiter : String
  target : String
  waiterSelector : List (String × String)
  targetSelector : List (String × String)
  deriving DecidableEq

/-- `d[:3]`. -/
def Key.names (k : Key) : String × String × String := (k.component, k.waiter, k.target)

def Entry.key (e : Entry) : Key :=
  ⟨e.component, e.waiter, e.target, sortedItems e.waiterSelector, sortedItems e.targetSelector⟩

/-- `declared`: the last entry of each key. -/
def declare (entries : List Entry) : Dict Key Entry :=
  Dict.ofList (entries.map fun e => (e.key, e))

/-! ## main -/

/-- The key a derived pair is looked up under. -/
def Pair.key (c : String) (p : Pair) : Key :=
  ⟨c, p.waiter, p.target, sortedItems p.waiterSelector, sortedItems p.targetSelector⟩

/-- `{wsel}` in an f-string. -/
def Labels.text (d : Labels) : String := Json.pyRepr (.obj (d.entries.map fun e => (e.1, .str e.2)))

/-- A finding of the loop. -/
inductive Problem
  | relabelled (c : String) (p : Pair) (was : Entry)
  | undeclared (c : String) (p : Pair)

def Problem.text : Problem → String
  | relabelled c p was => c ++ ": " ++ p.waiter ++ " -> " ++ p.target ++
      " is declared, but for different node labels. The render now has waiter=" ++
      Labels.text p.waiterSelector ++ " target=" ++ Labels.text p.targetSelector ++
      "; the declaration says waiter=" ++ Labels.text was.waiterSelector ++ " target=" ++
      Labels.text was.targetSelector ++ ". Its requiredRelation names labels that are no longer " ++
      "the ones in play, so rewrite the relation for the labels that now apply."
  | undeclared c p => c ++ ": " ++ p.waiter ++ " (nodeSelector " ++ Labels.text p.waiterSelector ++
      ") requires a co-located " ++ p.target ++ " (nodeSelector " ++ Labels.text p.targetSelector ++
      "), and the two labels differ -- so the requirement is unsatisfiable on any node carrying " ++
      "only one of them. Declare the relation operators must satisfy in hack/node-colocation.yaml."

/-- What the loop makes of one derived pair. -/
def problemOf (declared : Dict Key Entry) (found : String × Pair) : Option Problem :=
  if found.2.waiterSelector.same found.2.targetSelector then none
  else if found.2.key found.1 ∈ declared.keys then none
  else
    match declared.entries.find? fun d => d.1.names = (found.2.key found.1).names with
    | some d => some (.relabelled found.1 found.2 d.2)
    | none => some (.undeclared found.1 found.2)

/-- A chart directory: its name, and what `render` yields of it. -/
abbrev Charts := Dict String (Option (List Doc))

/-- The charts that render, in the order of their names. -/
def renderedCharts (charts : Charts) : List (String × List Doc) :=
  (sortedItems charts).filterMap fun e => e.2.map fun docs => (e.1, docs)

/-- The pairs of all rendered charts, each with its chart. -/
def foundPairs (loads : String → Option Value) (charts : Charts) : Option (List (String × Pair)) :=
  collect (fun e => (pairsIn loads e.2).map fun pairs => pairs.map fun p => (e.1, p))
    (renderedCharts charts)

/-- How `main` ends: with a value, with `sys.exit`, or with an exception. -/
inductive Outcome
  | returned (code : Nat) (problems : List Problem) (lines : List String)
  | exited (message : String)
  | raised

/-- What is printed about the problems. -/
def failLines (problems : List Problem) (found rendered : Nat) : List String :=
  ("FAIL: " ++ toString problems.length ++ " problem(s) with same-node dependencies (" ++
      toString found ++ " found across " ++ toString rendered ++ " charts)") ::
    (sortAlpha (uniq (problems.map Problem.text))).map ("  " ++ ·)

def okLines (found rendered : Nat) : List String :=
  ["OK: " ++ toString found ++ " requireSameNode dependencies across " ++ toString rendered ++
    " charts; every pair scheduled by differing node labels is declared with the relation " ++
    "operators must meet"]

/-- `main` from the checked declaration on. -/
def inspect (loads : String → Option Value) (charts : Charts) (declared : Dict Key Entry) :
    Outcome :=
  match foundPairs loads charts with
  | none => .raised
  | some found =>
    let rendered := (renderedCharts charts).length
    let problems := found.filterMap (problemOf declared)
    if rendered = 0 then
      .exited "FAIL: no chart rendered, so no same-node dependency was inspected"
    -- the report unpacks each key, of five fields, into three names: a ValueError
    else if declared.keys.any fun k => !(found.any fun f => (f.2.key f.1).names == k.names) then
      .raised
    else if problems.isEmpty then .returned 0 [] (okLines found.length rendered)
    else .returned 1 problems (failLines problems found.length rendered)

/-- `main`; `declFile` is the path of the declaration. -/
def main (loads : String → Option Value) (declFile : String) (decl : Option (List RawEntry))
    (charts : Charts) : Outcome :=
  match decl with
  | none => .exited ("FAIL: missing declaration " ++ declFile ++
      " -- this gate refuses to run without it")
  | some raw =>
    match raw.mapM checkEntry with
    | .error message => .exited message
    | .ok entries =>
      if charts.entries.isEmpty then
        .exited "FAIL: no charts under blueprints/ -- nothing was measured"
      else inspect loads charts (declare entries)

/-! ## What is declared -/

/-- A checked entry has two selectors that are not empty. -/
theorem selectors_of_checkEntry {r : RawEntry} {e : Entry} (h : checkEntry r = .ok e) :
    e.waiterSelector.entries ≠ [] ∧ e.targetSelector.entries ≠ [] := by
  have hselector : ∀ {k v field d}, needSelector r k v = .ok field → needMapping k field = .ok d →
      d.entries ≠ [] := by
    intro k v field d hneed hmap
    unfold needSelector at hneed
    split at hneed
    · split at hneed
      · cases hneed
      · rename_i hne
        obtain rfl := Except.ok.inj hneed
        obtain rfl := Except.ok.inj hmap
        simpa using hne
    · obtain rfl := Except.ok.inj hneed
      cases hmap
    · cases hneed
  unfold checkEntry at h
  obtain ⟨component, -, h⟩ := except_bind_ok.mp h
  obtain ⟨waiter, -, h⟩ := except_bind_ok.mp h
  obtain ⟨target, -, h⟩ := except_bind_ok.mp h
  obtain ⟨waiterField, hwaiter, h⟩ := except_bind_ok.mp h
  obtain ⟨targetField, htarget, h⟩ := except_bind_ok.mp h
  obtain ⟨requiredRelation, -, h⟩ := except_bind_ok.mp h
  obtain ⟨why, -, h⟩ := except_bind_ok.mp h
  obtain ⟨waiterSelector, hwaiterMap, h⟩ := except_bind_ok.mp h
  obtain ⟨targetSelector, htargetMap, h⟩ := except_bind_ok.mp h
  obtain rfl := Except.ok.inj h
  exact ⟨hselector hwaiter hwaiterMap, hselector htarget htargetMap⟩

theorem mem_keys_declare {entries : List Entry} {k : Key} :
    k ∈ (declare entries).keys ↔ ∃ e ∈ entries, e.key = k := by
  unfold declare
  rw [Dict.mem_keys_ofList, List.map_map, List.mem_map]
  rfl

/-- The entry names a pair of a chart, with both its node selectors. -/
structure Entry.Matches (e : Entry) (c : String) (p : Pair) : Prop where
  component : e.component = c
  waiter : e.waiter = p.waiter
  target : e.target = p.target
  waiterSelector : e.waiterSelector.same p.waiterSelector = true
  targetSelector : e.targetSelector.same p.targetSelector = true

theorem key_eq_iff {e : Entry} {c : String} {p : Pair} : e.key = p.key c ↔ e.Matches c p := by
  unfold Entry.key Pair.key
  rw [Key.mk.injEq, sortedItems_eq_iff, sortedItems_eq_iff, ← Dict.same_iff, ← Dict.same_iff]
  constructor
  · rintro ⟨hc, hw, ht, hws, hts⟩
    exact ⟨hc, hw, ht, hws, hts⟩
  · rintro ⟨hc, hw, ht, hws, hts⟩
    exact ⟨hc, hw, ht, hws, hts⟩

/-! ## What is found -/

section Found

variable {loads : String → Option Value} {docs : List Doc} {charts : Charts}

theorem mem_renderedCharts {c : String} :
    (c, docs) ∈ renderedCharts charts ↔ charts.get? c = some (some docs) := by
  unfold renderedCharts
  rw [List.mem_filterMap]
  constructor
  · rintro ⟨⟨c', rendered⟩, he, heq⟩
    obtain ⟨docs', rfl, hpair⟩ := Option.map_eq_some_iff.mp heq
    obtain ⟨rfl, rfl⟩ := Prod.mk.inj hpair
    exact mem_sortedItems.mp he
  · intro h
    exact ⟨(c, some docs), mem_sortedItems.mpr h, rfl⟩

theorem mem_pairsIn {pairs : List Pair} (h : pairsIn loads docs = some pairs) {p : Pair} :
    p ∈ pairs ↔ ∃ w ∈ workloads docs, ∃ value ∈ w.dependencies, ∃ ps,
      valuePairs loads (workloads docs) w value = some ps ∧ p ∈ ps := by
  have hsome := collect_isSome.mp (Option.isSome_of_eq_some h)
  rw [mem_collect h]
  refine exists_congr fun w => and_congr_right fun hw => ?_
  obtain ⟨first, hfirst⟩ := Option.isSome_iff_exists.mp (hsome w hw)
  rw [← mem_collect hfirst]
  constructor
  · rintro ⟨first', hfirst', hp⟩
    rw [hfirst] at hfirst'
    exact Option.some.inj hfirst' ▸ hp
  · intro hp
    exact ⟨first, hfirst, hp⟩

/-- The pair is derived from the render of the chart. -/
def Derived (loads : String → Option Value) (charts : Charts) (c : String) (p : Pair) : Prop :=
  ∃ docs pairs, charts.get? c = some (some docs) ∧ pairsIn loads docs = some pairs ∧ p ∈ pairs

theorem mem_foundPairs {found : List (String × Pair)} (h : foundPairs loads charts = some found)
    {c : String} {p : Pair} : (c, p) ∈ found ↔ Derived loads charts c p := by
  rw [mem_collect h]
  constructor
  · rintro ⟨⟨c', docs⟩, hchart, first, hfirst, hmem⟩
    obtain ⟨pairs, hpairs, rfl⟩ := Option.map_eq_some_iff.mp hfirst
    obtain ⟨p', hp', heq⟩ := List.mem_map.mp hmem
    obtain ⟨rfl, rfl⟩ := Prod.mk.inj heq
    exact ⟨docs, pairs, mem_renderedCharts.mp hchart, hpairs, hp'⟩
  · rintro ⟨docs, pairs, hchart, hpairs, hp⟩
    refine ⟨(c, docs), mem_renderedCharts.mpr hchart, _, ?_, List.mem_map_of_mem hp⟩
    rw [hpairs]
    rfl

/-- The labels that the request asks for, when it asks for any, are a mapping. -/
def LabelsMapped (req : List (String × Value)) : Prop :=
  requiresSameNode req = true → (requestedLabels req).truthy = true →
    (requestedLabels req).isDict = true

theorem requestPairs_isSome {index : List Workload} (hindex : index ≠ []) {w : Workload}
    {req : Value} :
    (requestPairs index w req).isSome ↔ ∀ fields, req = .obj fields → LabelsMapped fields := by
  cases req with
  | obj fields =>
    simp only [Value.obj.injEq, forall_eq']
    unfold requestPairs LabelsMapped Value.orElse
    dsimp only
    split
    · rename_i hrequires
      simp only [hrequires, forall_const]
      by_cases htruthy : (requestedLabels fields).truthy = true
      · simp only [htruthy, if_true, forall_const]
        cases requestedLabels fields with
        | obj want => simp [Value.isDict]
        | _ => simp [Value.isDict, hindex]
      · simp [htruthy]
    · rename_i hrequires
      simp [hrequires]
  | _ => simp [requestPairs]

/-- The requests of a workload's dependencies. -/
def Requests (loads : String → Option Value) (w : Workload) (req : List (String × Value)) : Prop :=
  ∃ value ∈ w.dependencies, ∃ reqs, loads value = some (.arr reqs) ∧ .obj req ∈ reqs

theorem pairsIn_isSome : (pairsIn loads docs).isSome ↔
    ∀ w ∈ workloads docs, ∀ req, Requests loads w req → LabelsMapped req := by
  unfold pairsIn
  rw [collect_isSome]
  refine forall₂_congr fun w hw => ?_
  have hindex : workloads docs ≠ [] := List.ne_nil_of_mem hw
  rw [collect_isSome]
  constructor
  · rintro h req ⟨value, hvalue, reqs, hloads, hreq⟩
    have hsome := h value hvalue
    unfold valuePairs at hsome
    rw [hloads] at hsome
    exact (requestPairs_isSome hindex).mp (collect_isSome.mp hsome _ hreq) req rfl
  · intro h value hvalue
    unfold valuePairs
    split
    · rfl
    · rename_i reqs hloads
      rw [collect_isSome]
      intro req hreq
      rw [requestPairs_isSome hindex]
      rintro fields rfl
      exact h fields ⟨value, hvalue, reqs, hloads, hreq⟩
    · rfl

theorem foundPairs_isSome : (foundPairs loads charts).isSome ↔
    ∀ c docs, charts.get? c = some (some docs) →
      ∀ w ∈ workloads docs, ∀ req, Requests loads w req → LabelsMapped req := by
  unfold foundPairs
  rw [collect_isSome]
  constructor
  · intro h c docs hchart
    have hsome := h (c, docs) (mem_renderedCharts.mpr hchart)
    rw [Option.isSome_map] at hsome
    exact pairsIn_isSome.mp hsome
  · rintro h ⟨c, docs⟩ hchart
    rw [Option.isSome_map, pairsIn_isSome]
    exact h c docs (mem_renderedCharts.mp hchart)

end Found

/-! ## How main ends -/

section Ends

variable {loads : String → Option Value} {charts : Charts} {declared : Dict Key Entry}

/-- A pair with differing selectors that is not declared is a problem. -/
theorem problemOf_isSome {c : String} {p : Pair} :
    (problemOf declared (c, p)).isSome ↔
      p.waiterSelector.same p.targetSelector = false ∧ p.key c ∉ declared.keys := by
  unfold problemOf
  dsimp only
  split
  · simp_all
  · split
    · simp_all
    · split <;> simp_all

theorem mem_failLines {problems : List Problem} {found rendered : Nat} {q : Problem}
    (h : q ∈ problems) : "  " ++ q.text ∈ failLines problems found rendered := by
  refine List.mem_cons_of_mem _ (List.mem_map_of_mem ?_)
  rw [mem_sortAlpha, mem_uniq]
  exact List.mem_map_of_mem h

/-- The renders let `main` come to its end. -/
structure Inspectable (loads : String → Option Value) (charts : Charts)
    (declared : Dict Key Entry) : Prop where
  rendered : ∃ c docs, charts.get? c = some (some docs)
  mapped : ∀ c docs, charts.get? c = some (some docs) →
    ∀ w ∈ workloads docs, ∀ req, Requests loads w req → LabelsMapped req
  names : ∀ k ∈ declared.keys, ∃ c p, Derived loads charts c p ∧ (p.key c).names = k.names

/-- The problems are those of the derived pairs, each on a line of its own, and the
code says whether there are any. -/
structure Reported (loads : String → Option Value) (charts : Charts) (declared : Dict Key Entry)
    (code : Nat) (problems : List Problem) (lines : List String) : Prop where
  problem : ∀ q, q ∈ problems ↔ ∃ c p, Derived loads charts c p ∧ problemOf declared (c, p) = some q
  code : code = if problems = [] then 0 else 1
  printed : ∀ q ∈ problems, "  " ++ q.text ∈ lines

theorem rendered_iff :
    (renderedCharts charts).length ≠ 0 ↔ ∃ c docs, charts.get? c = some (some docs) := by
  rw [ne_eq, List.length_eq_zero_iff, List.eq_nil_iff_forall_not_mem]
  simp only [Prod.forall, mem_renderedCharts, not_forall, not_not]

/-- No declared name is missing among the pairs exactly when each is derived. -/
theorem names_found_iff {found : List (String × Pair)}
    (hfound : foundPairs loads charts = some found) :
    (declared.keys.any fun k => !(found.any fun f => (f.2.key f.1).names == k.names)) = false ↔
      ∀ k ∈ declared.keys, ∃ c p, Derived loads charts c p ∧ (p.key c).names = k.names := by
  simp only [List.any_eq_false, Bool.not_eq_true, Bool.not_eq_false', List.any_eq_true,
    beq_iff_eq, Prod.exists, mem_foundPairs hfound]

theorem mem_problems_iff {found : List (String × Pair)}
    (hfound : foundPairs loads charts = some found) (q : Problem) :
    q ∈ found.filterMap (problemOf declared) ↔
      ∃ c p, Derived loads charts c p ∧ problemOf declared (c, p) = some q := by
  simp only [List.mem_filterMap, Prod.exists, mem_foundPairs hfound]

/-- `main` returns on such renders, with their problems, and on no others. -/
theorem inspect_spec :
    (Inspectable loads charts declared → ∃ code problems lines,
      inspect loads charts declared = .returned code problems lines) ∧
    ∀ code problems lines, inspect loads charts declared = .returned code problems lines →
      Inspectable loads charts declared ∧ Reported loads charts declared code problems lines := by
  unfold inspect
  cases hfound : foundPairs loads charts with
  | none =>
    refine ⟨?_, fun code problems lines h => by cases h⟩
    intro h
    have hsome := foundPairs_isSome.mpr h.mapped
    rw [hfound] at hsome
    cases hsome
  | some found =>
    have hmapped := foundPairs_isSome.mp (Option.isSome_of_eq_some hfound)
    have hproblem : ∀ q, q ∈ found.filterMap (problemOf declared) ↔
        ∃ c p, Derived loads charts c p ∧ problemOf declared (c, p) = some q :=
      mem_problems_iff hfound
    dsimp only
    split
    · rename_i hzero
      refine ⟨fun h => absurd hzero (rendered_iff.mpr h.rendered), fun code problems lines h => ?_⟩
      cases h
    · rename_i hnonzero
      split
      · rename_i hstale
        refine ⟨?_, fun code problems lines h => by cases h⟩
        intro h
        rw [(names_found_iff hfound).mpr h.names] at hstale
        cases hstale
      · rename_i hstale
        have hinspectable : Inspectable loads charts declared :=
          ⟨rendered_iff.mp hnonzero, hmapped,
            (names_found_iff hfound).mp (Bool.eq_false_of_not_eq_true hstale)⟩
        split
        · rename_i hempty
          rw [List.isEmpty_iff] at hempty
          refine ⟨fun _ => ⟨_, _, _, rfl⟩, fun code problems lines h => ⟨hinspectable, ?_⟩⟩
          obtain ⟨rfl, rfl, -⟩ := Outcome.returned.inj h
          exact ⟨hempty ▸ hproblem, rfl, fun q hq => absurd hq List.not_mem_nil⟩
        · rename_i hempty
          rw [List.isEmpty_iff] at hempty
          refine ⟨fun _ => ⟨_, _, _, rfl⟩, fun code problems lines h => ⟨hinspectable, ?_⟩⟩
          obtain ⟨rfl, rfl, rfl⟩ := Outcome.returned.inj h
          exact ⟨hproblem, (if_neg hempty).symm, fun q hq => mem_failLines hq⟩

/-- `main` returns after the checks of the declaration only. -/
theorem main_eq_returned {declFile : String} {decl : Option (List RawEntry)} {code : Nat}
    {problems : List Problem} {lines : List String}
    (h : main loads declFile decl charts = .returned code problems lines) :
    ∃ raw entries, decl = some raw ∧ raw.mapM checkEntry = .ok entries ∧
      inspect loads charts (declare entries) = .returned code problems lines := by
  unfold main at h
  split at h
  · cases h
  · rename_i raw
    split at h
    · cases h
    · rename_i entries hentries
      split at h
      · cases h
      · exact ⟨raw, entries, rfl, hentries, h⟩

end Ends

end OpenstackBlueprint.Gates.SameNode
