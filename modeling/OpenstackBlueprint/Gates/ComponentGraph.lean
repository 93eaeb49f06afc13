import OpenstackBlueprint.Chart.Data
import OpenstackBlueprint.Kit.Dict
import OpenstackBlueprint.Kit.Reach

/-!
# The declared component graph, as the gates read it

`validate-component-config-closure.py` reads the umbrella's components into a
dict by name and asks for the transitive closure of a component's declared
dependencies with a stack and a set of seen names.
-/

namespace OpenstackBlueprint.Gates

open Chart Kit

/-- `comps = {c["name"]: c for c in components}`. -/
def compsByName (components : List Component) : Dict String Component :=
  Dict.ofList (components.map fun c => (c.name, c))

/-- `comps.get(n, {}).get("deps") or []`. -/
def depsOf (comps : Dict String Component) (n : String) : List String :=
  ((comps.get? n).map (·.deps)).getD []

/-- `closure(name)`, with a bound on the iterations of its loop. -/
def closure (comps : Dict String Component) (fuel : Nat) (name : String) : Option (List String) :=
  visit (depsOf comps) fuel [] [name]

theorem mem_keys_of_depsOf_ne_nil {comps : Dict String Component} {n : String}
    (h : depsOf comps n ≠ []) : n ∈ comps.keys := by
  by_contra hn
  refine h ?_
  unfold depsOf
  rw [Dict.get?_eq_none_iff.mpr hn]
  rfl

/-- With distinct names the dict finds the components. -/
theorem get?_compsByName {components : List Component}
    (hdistinct : (components.map (·.name)).Nodup) {a : String} {c : Component} :
    (compsByName components).get? a = some c ↔ c ∈ components ∧ c.name = a := by
  unfold compsByName
  rw [Dict.get?_ofList (by rw [List.map_map]; exact hdistinct), List.mem_map]
  constructor
  · rintro ⟨c', hc', heq⟩
    obtain ⟨hname, rfl⟩ := Prod.mk.inj heq
    exact ⟨hc', hname⟩
  · rintro ⟨hc, rfl⟩
    exact ⟨c, hc, rfl⟩

/-- With distinct names the dict's edges are the declared ones. -/
theorem mem_depsOf {components : List Component}
    (hdistinct : (components.map (·.name)).Nodup) {a b : String} :
    b ∈ depsOf (compsByName components) a ↔ DependsOn components a b := by
  unfold depsOf Chart.DependsOn
  constructor
  · intro hb
    cases hc : (compsByName components).get? a with
    | none =>
      rw [hc] at hb
      exact absurd hb List.not_mem_nil
    | some c =>
      rw [hc] at hb
      obtain ⟨hmem, hname⟩ := (get?_compsByName hdistinct).mp hc
      exact ⟨c, hmem, hname, hb⟩
  · rintro ⟨c, hc, hname, hb⟩
    rw [(get?_compsByName hdistinct).mpr ⟨hc, hname⟩]
    exact hb

/-- `closure` returns, and from some number of iterations on the answer no
longer depends on the bound. -/
theorem closure_terminates (comps : Dict String Component) (name : String) :
    ∃ seen bound, ∀ fuel ≥ bound, closure comps fuel name = some seen := by
  obtain ⟨seen, hseen⟩ : ∃ seen, visit (depsOf comps)
      (pending (depsOf comps) comps.keys [] [name]) [] [name] = some seen :=
    exists_visit (fun _ => mem_keys_of_depsOf_ne_nil) le_rfl
  exact ⟨seen, _, fun fuel hfuel => visit_mono hseen hfuel⟩

/-- What it answers are the names reachable along declared dependencies. -/
theorem mem_closure_iff {components : List Component}
    (hdistinct : (components.map (·.name)).Nodup) {fuel : Nat} {a b : String}
    {seen : List String} (h : closure (compsByName components) fuel a = some seen) :
    b ∈ seen ↔ Relation.ReflTransGen (DependsOn components) a b := by
  have hedges : (fun a b => b ∈ depsOf (compsByName components) a) = DependsOn components := by
    funext a b
    exact propext (mem_depsOf hdistinct)
  rw [mem_visit_iff h, hedges]

end OpenstackBlueprint.Gates
