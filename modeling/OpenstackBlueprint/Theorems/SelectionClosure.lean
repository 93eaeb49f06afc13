import OpenstackBlueprint.Chart.Compositions
import OpenstackBlueprint.Gates.ComponentGraph

/-!
# The explicit selection and the closure of the gates

`osh.selected` expands `enabled` with eight in-place sweeps; the gates walk the
same graph with a worklist. One sweep reaches at least one edge further than
the sweep before it, whatever the listing order, and never leaves what the
worklist reaches. So the two agree as soon as eight edges reach everything.
-/

namespace OpenstackBlueprint.Theorems.SelectionClosure

open Chart Gates Kit

/-! ## One sweep -/

/-- A property of names that every declared edge keeps is kept by a sweep. -/
theorem sweep_induction {comps : List Component} {P : String → Prop}
    (hedge : ∀ a b, DependsOn comps a b → P a → P b) {sel : List String}
    (hsel : ∀ n ∈ sel, P n) : ∀ n ∈ sweep comps sel, P n := by
  have hfold : ∀ (l : List Component) (sel : List String), (∀ c ∈ l, c ∈ comps) →
      (∀ n ∈ sel, P n) →
      ∀ n ∈ l.foldl (fun sel c => if c.name ∈ sel then c.deps.foldl setKey sel else sel) sel,
        P n := by
    intro l
    induction l with
    | nil => exact fun sel _ hsel => hsel
    | cons c l ih =>
      intro sel hl hsel
      rw [List.foldl_cons]
      refine ih _ (fun c' hc' => hl c' (List.mem_cons_of_mem _ hc')) ?_
      split
      · rename_i hc
        intro n hn
        rcases mem_foldl_setKey.mp hn with hn | hn
        · exact hsel n hn
        · exact hedge c.name n ⟨c, hl c List.mem_cons_self, rfl, hn⟩ (hsel c.name hc)
      · exact hsel
  exact hfold comps sel (fun _ hc => hc) hsel

/-- The body of a sweep only adds names. -/
theorem subset_foldl_sweep (l : List Component) (sel : List String) :
    ∀ n ∈ sel,
      n ∈ l.foldl (fun sel c => if c.name ∈ sel then c.deps.foldl setKey sel else sel) sel := by
  induction l generalizing sel with
  | nil => exact fun _ hn => hn
  | cons c l ih =>
    intro n hn
    rw [List.foldl_cons]
    refine ih _ n ?_
    split
    · exact mem_foldl_setKey.mpr (.inl hn)
    · exact hn

/-- A sweep takes one more edge from everything that was selected before it. -/
theorem mem_sweep_of_edge {comps : List Component} {sel : List String} {a b : String}
    (ha : a ∈ sel) (hedge : DependsOn comps a b) : b ∈ sweep comps sel := by
  obtain ⟨c, hc, rfl, hb⟩ := hedge
  unfold sweep
  obtain ⟨before, after, rfl⟩ := List.append_of_mem hc
  rw [List.foldl_append, List.foldl_cons, if_pos (subset_foldl_sweep before sel c.name ha)]
  exact subset_foldl_sweep after _ b (mem_foldl_setKey.mpr (.inr hb))

/-! ## All sweeps -/

/-- `k` sweeps over the explicit names. -/
def sweeps (comps : List Component) (enabled : List String) (k : Nat) : List String :=
  (List.range k).foldl (fun sel _ => sweep comps sel) (enabled.foldl setKey [])

theorem sweeps_succ (comps : List Component) (enabled : List String) (k : Nat) :
    sweeps comps enabled (k + 1) = sweep comps (sweeps comps enabled k) := by
  unfold sweeps
  rw [List.range_succ, List.foldl_append]
  rfl

/-- After `k` sweeps every name within `k` edges is selected. -/
theorem mem_sweeps_of_chain {comps : List Component} {enabled : List String} {j k : Nat}
    (hjk : j ≤ k) {e n : String} (he : e ∈ enabled) (hchain : Chain (DependsOn comps) j e n) :
    n ∈ sweeps comps enabled k := by
  induction k generalizing j n with
  | zero =>
    obtain rfl : j = 0 := by omega
    cases hchain
    exact mem_foldl_setKey.mpr (.inr he)
  | succ k ih =>
    rw [sweeps_succ]
    by_cases hj : j ≤ k
    · exact subset_foldl_sweep _ _ n (ih hj hchain)
    · obtain rfl : j = k + 1 := by omega
      obtain ⟨m, hm, hmn⟩ := hchain.unsnoc
      exact mem_sweep_of_edge (ih le_rfl hm) hmn

/-- Whatever is selected is reachable from an explicit name. -/
theorem reachable_of_mem_sweeps {comps : List Component} {enabled : List String} {k : Nat}
    {n : String} (h : n ∈ sweeps comps enabled k) :
    ∃ e ∈ enabled, Relation.ReflTransGen (DependsOn comps) e n := by
  induction k generalizing n with
  | zero =>
    have hn : n ∈ enabled := by simpa [sweeps] using h
    exact ⟨n, hn, .refl⟩
  | succ k ih =>
    rw [sweeps_succ] at h
    refine sweep_induction (P := fun n => ∃ e ∈ enabled, Relation.ReflTransGen (DependsOn comps) e n)
      ?_ (fun n hn => ih hn) n h
    rintro a b hab ⟨e, he, hreach⟩
    exact ⟨e, he, hreach.tail hab⟩

theorem selectedKeys_eq_sweeps {top : Top} (hne : top.values.enabled ≠ []) :
    selectedKeys top = sweeps top.values.components top.values.enabled 8 := by
  unfold selectedKeys
  rw [if_pos (List.length_pos_of_ne_nil hne)]
  rfl

/-- Names without spaces survive the way through the printed string. -/
theorem mem_selection_iff {top : Top} (hspaces : ∀ n ∈ selectedKeys top, ' ' ∉ n.toList)
    (hkeys : selectedKeys top ≠ []) {n : String} :
    n ∈ selection top ↔ n ∈ selectedKeys top := by
  unfold selection oshSelected
  rw [splitList_join, mem_sortAlpha]
  · intro h
    obtain ⟨m, hm⟩ := List.exists_mem_of_ne_nil _ hkeys
    have := mem_sortAlpha.mpr hm
    rw [h] at this
    exact absurd this List.not_mem_nil
  · intro s hs
    exact hspaces s (mem_sortAlpha.mp hs)

/-! ## Agreement -/

/-- Every reachable name is within eight edges of an explicit one. -/
def WithinEight (top : Top) : Prop :=
  ∀ e ∈ top.values.enabled, ∀ n, Relation.ReflTransGen (DependsOn top.values.components) e n →
    ∃ e' ∈ top.values.enabled, ∃ k ≤ 8, Chain (DependsOn top.values.components) k e' n

/-- The explicit selection lies between what eight edges reach and the union of
the gates' closures, which are the reachable names; where eight edges reach
everything it is that union and is closed under dependencies. The last part is
about the printed string: names without spaces are read back from it as they
went in. -/
theorem selection_agrees_with_closure (top : Top)
    (hdistinct : (top.values.components.map (·.name)).Nodup)
    (hne : top.values.enabled ≠ []) (hspaces : ∀ e ∈ top.values.enabled, ' ' ∉ e.toList) :
    ∃ seen : String → List String,
      (∀ e, ∃ bound, ∀ fuel ≥ bound,
        closure (compsByName top.values.components) fuel e = some (seen e)) ∧
      (∀ e n, n ∈ seen e ↔ Relation.ReflTransGen (DependsOn top.values.components) e n) ∧
      (∀ e ∈ top.values.enabled, ∀ k ≤ 8, ∀ n,
        Chain (DependsOn top.values.components) k e n → n ∈ selectedKeys top) ∧
      (∀ n ∈ selectedKeys top, ∃ e ∈ top.values.enabled, n ∈ seen e) ∧
      (WithinEight top →
        (∀ n, n ∈ selectedKeys top ↔ ∃ e ∈ top.values.enabled, n ∈ seen e) ∧
        ∀ a b, a ∈ selectedKeys top → DependsOn top.values.components a b →
          b ∈ selectedKeys top) ∧
      ((∀ c ∈ top.values.components, ∀ d ∈ c.deps, ' ' ∉ d.toList) →
        ∀ n, n ∈ selection top ↔ n ∈ selectedKeys top) := by
  choose seen hseen using closure_terminates (compsByName top.values.components)
  have hreach : ∀ e n, n ∈ seen e ↔
      Relation.ReflTransGen (DependsOn top.values.components) e n := by
    intro e n
    obtain ⟨bound, hbound⟩ := hseen e
    exact mem_closure_iff hdistinct (hbound bound le_rfl)
  have hwithin : ∀ e ∈ top.values.enabled, ∀ k ≤ 8, ∀ n,
      Chain (DependsOn top.values.components) k e n → n ∈ selectedKeys top := by
    intro e he k hk n hchain
    rw [selectedKeys_eq_sweeps hne]
    exact mem_sweeps_of_chain hk he hchain
  have honly : ∀ n ∈ selectedKeys top, ∃ e ∈ top.values.enabled, n ∈ seen e := by
    intro n hn
    rw [selectedKeys_eq_sweeps hne] at hn
    obtain ⟨e, he, h⟩ := reachable_of_mem_sweeps hn
    exact ⟨e, he, (hreach e n).mpr h⟩
  refine ⟨seen, hseen, hreach, hwithin, honly, fun height => ?_, fun hdeps => ?_⟩
  · have hiff : ∀ n, n ∈ selectedKeys top ↔ ∃ e ∈ top.values.enabled, n ∈ seen e := by
      refine fun n => ⟨honly n, ?_⟩
      rintro ⟨e, he, hn⟩
      obtain ⟨e', he', k, hk, hchain⟩ := height e he n ((hreach e n).mp hn)
      exact hwithin e' he' k hk n hchain
    refine ⟨hiff, fun a b ha hab => ?_⟩
    obtain ⟨e, he, hea⟩ := (hiff a).mp ha
    exact (hiff b).mpr ⟨e, he, (hreach e b).mpr (((hreach e a).mp hea).tail hab)⟩
  · intro n
    refine mem_selection_iff (fun m hm => ?_) ?_
    · obtain ⟨e, he, hem⟩ := honly m hm
      rcases Relation.ReflTransGen.cases_tail ((hreach e m).mp hem) with rfl | ⟨m', _, c, hc, _, hd⟩
      · exact hspaces m he
      · exact hdeps c hc m hd
    · obtain ⟨e, he⟩ := List.exists_mem_of_ne_nil _ hne
      exact List.ne_nil_of_mem (hwithin e he 0 (by omega) e (.nil e))

/-- `enabled: [heat]` of the helper's own comment, listed against the
dependency order. -/
def heatTop : Top where
  values :=
    { chartVersion := "0.3.36", profile := .identity, enabled := ["heat"]
      components :=
        [⟨"mariadb", "Mariadb", [], .identity, false⟩,
         ⟨"keystone", "Keystone", ["mariadb"], .identity, false⟩,
         ⟨"heat", "Heat", ["keystone"], .compute, false⟩,
         ⟨"nova", "Nova", ["keystone"], .compute, false⟩]
      dependencyRelaxations := [], nodeLabelPreconditions := [], componentValues := [] }
  releaseNamespace := "openstack"
  serviceAccount := "openstacks-v0-3-36"

theorem heat_brings_mariadb :
    (heatTop.values.components.map (·.name)).Nodup ∧ heatTop.values.enabled ≠ [] ∧
      (∀ e ∈ heatTop.values.enabled, ' ' ∉ e.toList) ∧ "mariadb" ∈ selectedKeys heatTop ∧
      ∃ fuel seen, closure (compsByName heatTop.values.components) fuel "heat" = some seen ∧
        ∀ n ∈ selectedKeys heatTop, n ∈ seen := by
  obtain ⟨seen, hclosure, _, hwithin, honly, _⟩ :=
    selection_agrees_with_closure heatTop (by decide) (by decide) (by decide)
  obtain ⟨bound, hbound⟩ := hclosure "heat"
  refine ⟨by decide, by decide, by decide, ?_, bound, seen "heat", hbound bound le_rfl, ?_⟩
  · refine hwithin "heat" (by decide) 2 (by decide) "mariadb" (.cons (b := "keystone") ?_ ?_)
    · exact ⟨⟨"heat", "Heat", ["keystone"], .compute, false⟩, by decide, rfl, by decide⟩
    · exact .cons ⟨⟨"keystone", "Keystone", ["mariadb"], .identity, false⟩, by decide, rfl,
        by decide⟩ (.nil "mariadb")
  · intro n hn
    obtain ⟨e, he, hmem⟩ := honly n hn
    rwa [List.mem_singleton.mp he] at hmem

end OpenstackBlueprint.Theorems.SelectionClosure
