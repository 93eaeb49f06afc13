import OpenstackBlueprint.Gates.ComponentDag

/-!
# The component DAG gate decides closure and acyclicity

The invariant of the coloured search (`Visiting`): the grey names are those of
the current path, and as long as nothing has been reported, a black name depends
on black names only and lies on no cycle. A name turns black when its
dependencies are, so a cycle through it would have met a grey name before.

The recursion ends because a path never repeats a name; the interpreter's own
recursion limit is not modelled.
-/

namespace OpenstackBlueprint.Theorems.DagGate

open Chart Kit Gates

variable {comps : Dict String Component}

/-- A dependency on a declared component. -/
def Edge (comps : Dict String Component) (a b : String) : Prop :=
  b ∈ depsOf comps a ∧ b ∈ comps.keys

/-- The last name of the path occurs earlier in it, and the part from there on
follows dependencies. -/
def Cyclic (comps : Dict String Component) (path : List String) : Prop :=
  ∃ before n segment, path = before ++ n :: segment ++ [n] ∧
    (n :: segment ++ [n]).IsChain (Edge comps)

/-- The search inside the calls for the names on the path. -/
structure Visiting (comps : Dict String Component) (stack : List String) (s : Search) : Prop where
  grey : ∀ x, s.state.get? x = some .grey ↔ x ∈ stack
  nodup : stack.Nodup
  declared : ∀ x ∈ stack, x ∈ comps.keys
  path : stack.IsChain (Edge comps)
  reports : ∀ path ∈ s.cycles, Cyclic comps path
  closed : s.cycles = [] → ∀ b d, s.state.get? b = some .black → Edge comps b d →
    s.state.get? d = some .black
  acyclic : s.cycles = [] → ∀ b, s.state.get? b = some .black →
    ¬ Relation.TransGen (Edge comps) b b

/-- What later states keep. -/
structure Later (s s' : Search) : Prop where
  black : ∀ x, s.state.get? x = some .black → s'.state.get? x = some .black
  cycles : s'.cycles = [] → s.cycles = []

theorem Later.trans {s s' s'' : Search} (h : Later s s') (h' : Later s' s'') : Later s s'' :=
  ⟨fun x hx => h'.black x (h.black x hx), fun hc => h.cycles (h'.cycles hc)⟩

section Steps

variable {stack : List String} {s : Search} {n : String}

/-- A path that meets one of its own names has a cycle. -/
theorem cyclic_of_mem (hpath : (stack ++ [n]).IsChain (Edge comps)) (hn : n ∈ stack) :
    Cyclic comps (stack ++ [n]) := by
  obtain ⟨before, segment, rfl⟩ := List.append_of_mem hn
  refine ⟨before, n, segment, by simp, hpath.suffix ⟨before, by simp⟩⟩

/-- Meeting a grey name: the path is reported. -/
theorem visiting_report (h : Visiting comps stack s) (hgrey : s.state.get? n = some .grey)
    (hpath : (stack ++ [n]).IsChain (Edge comps)) :
    Visiting comps stack { s with cycles := s.cycles ++ [stack ++ [n]] } := by
  refine { h with reports := ?_, closed := ?_, acyclic := ?_ }
  · intro path hmem
    rcases List.mem_append.mp hmem with hmem | hmem
    · exact h.reports path hmem
    · rw [List.mem_singleton.mp hmem]
      exact cyclic_of_mem hpath ((h.grey n).mp hgrey)
  · intro hnil
    exact absurd hnil (by simp)
  · intro hnil
    exact absurd hnil (by simp)

/-- Entering a name that is neither grey nor black. -/
theorem visiting_enter (h : Visiting comps stack s) (hn : n ∈ comps.keys)
    (hgrey : s.state.get? n ≠ some .grey) (hblack : s.state.get? n ≠ some .black)
    (hpath : (stack ++ [n]).IsChain (Edge comps)) :
    Visiting comps (stack ++ [n]) { s with state := s.state.set n .grey } ∧
      Later s { s with state := s.state.set n .grey } := by
  have hstack : n ∉ stack := fun hmem => hgrey ((h.grey n).mpr hmem)
  -- the black names are the same as before
  have hsame : ∀ x, (s.state.set n .grey).get? x = some .black ↔ s.state.get? x = some .black := by
    intro x
    rw [Dict.get?_set]
    split
    · rename_i hx
      subst hx
      simp [hblack]
    · rfl
  refine ⟨⟨?_, ?_, ?_, hpath, h.reports, ?_, ?_⟩, ⟨fun x => (hsame x).mpr, id⟩⟩
  · intro x
    rw [Dict.get?_set, List.mem_append, List.mem_singleton]
    split
    · rename_i hx
      simp [hx]
    · rename_i hx
      simp [hx, h.grey x]
  · refine List.Nodup.append h.nodup (List.nodup_singleton n) ?_
    intro x hx hxn
    exact hstack (List.mem_singleton.mp hxn ▸ hx)
  · intro x hx
    rcases List.mem_append.mp hx with hx | hx
    · exact h.declared x hx
    · rw [List.mem_singleton.mp hx]
      exact hn
  · intro hnil b d hb hedge
    exact (hsame d).mpr (h.closed hnil b d ((hsame b).mp hb) hedge)
  · intro hnil b hb
    exact h.acyclic hnil b ((hsame b).mp hb)

/-- What a closed set of names reaches stays in it. -/
theorem reach_of_closed {P : String → Prop} (hclosed : ∀ b d, P b → Edge comps b d → P d)
    {a b : String} (ha : P a) (h : Relation.ReflTransGen (Edge comps) a b) : P b := by
  induction h with
  | refl => exact ha
  | tail _ hedge ih => exact hclosed _ _ ih hedge

/-- Leaving a name whose dependencies have been visited. -/
theorem visiting_leave (h : Visiting comps (stack ++ [n]) s)
    (hdeps : s.cycles = [] → ∀ d, Edge comps n d → s.state.get? d = some .black) :
    Visiting comps stack { s with state := s.state.set n .black } ∧
      Later s { s with state := s.state.set n .black } := by
  have hgrey : s.state.get? n = some .grey :=
    (h.grey n).mpr (List.mem_append_right _ (List.mem_singleton_self n))
  have hstack : n ∉ stack := by
    intro hmem
    exact (List.nodup_append.mp h.nodup).2.2 n hmem n (List.mem_singleton_self n) rfl
  have hblack : ∀ x, (s.state.set n .black).get? x = some .black ↔
      x = n ∨ s.state.get? x = some .black := by
    intro x
    rw [Dict.get?_set]
    split
    · rename_i hx
      simp [hx]
    · rename_i hx
      simp [hx]
  refine ⟨⟨?_, ?_, ?_, ?_, h.reports, ?_, ?_⟩, ⟨fun x hx => (hblack x).mpr (.inr hx), id⟩⟩
  · intro x
    rw [Dict.get?_set]
    split
    · rename_i hx
      subst hx
      simp [hstack]
    · rename_i hx
      rw [h.grey x, List.mem_append, List.mem_singleton]
      simp [hx]
  · exact (List.nodup_append.mp h.nodup).1
  · exact fun x hx => h.declared x (List.mem_append_left _ hx)
  · exact (List.isChain_append.mp h.path).1
  · intro hnil b d hb hedge
    rw [hblack] at hb ⊢
    rcases hb with rfl | hb
    · exact .inr (hdeps hnil d hedge)
    · exact .inr (h.closed hnil b d hb hedge)
  · intro hnil b hb hcycle
    rcases (hblack b).mp hb with rfl | hb
    · -- from its dependencies only names that were black can be reached
      obtain ⟨d, hedge, hreach⟩ := Relation.TransGen.head'_iff.mp hcycle
      have hback := reach_of_closed (h.closed hnil) (hdeps hnil d hedge) hreach
      rw [hgrey] at hback
      cases hback
    · exact h.acyclic hnil b hb hcycle

end Steps

/-! ## The search -/

/-- What a call of `visit` for a name on a path does. -/
def Visits (comps : Dict String Component) (visit : String → Search → Option Search)
    (stack : List String) (n : String) : Prop :=
  ∀ s, Visiting comps stack s → ∃ s', visit n s = some s' ∧ Visiting comps stack s' ∧
    Later s s' ∧ (s'.cycles = [] → s'.state.get? n = some .black)

/-- Calls for several names one after the other. -/
theorem foldlM_visits {visit : String → Search → Option Search} {stack : List String}
    {l : List String} (hvisit : ∀ n ∈ l, Visits comps visit stack n) (s : Search)
    (h : Visiting comps stack s) :
    ∃ s', l.foldlM (fun s n => visit n s) s = some s' ∧ Visiting comps stack s' ∧ Later s s' ∧
      (s'.cycles = [] → ∀ n ∈ l, s'.state.get? n = some .black) := by
  induction l generalizing s with
  | nil => exact ⟨s, rfl, h, ⟨fun _ => id, id⟩, fun _ n hn => absurd hn List.not_mem_nil⟩
  | cons n rest ih =>
    obtain ⟨hn, hrest⟩ := List.forall_mem_cons.mp hvisit
    obtain ⟨s₁, hs₁, h₁, hlater₁, hblack₁⟩ := hn s h
    obtain ⟨s₂, hs₂, h₂, hlater₂, hblack₂⟩ := ih hrest s₁ h₁
    refine ⟨s₂, ?_, h₂, hlater₁.trans hlater₂, ?_⟩
    · rw [List.foldlM_cons, hs₁]
      exact hs₂
    · intro hnil m hm
      rcases List.mem_cons.mp hm with rfl | hm
      · exact hlater₂.black _ (hblack₁ (hlater₂.cycles hnil))
      · exact hblack₂ hnil m hm

/-- A path of different names is no longer than the list of names. -/
theorem length_le_of_visiting {stack : List String} {s : Search} (h : Visiting comps stack s) :
    stack.length ≤ comps.keys.length :=
  (List.subperm_of_subset h.nodup h.declared).length_le

/-- `visit` returns when the fuel and the path together are longer than the list
of names. -/
theorem visitNode_visits (fuel : Nat) : ∀ (n : String) (stack : List String),
    comps.keys.length < fuel + stack.length → n ∈ comps.keys →
    (stack ++ [n]).IsChain (Edge comps) →
    Visits comps (fun n s => visitNode comps fuel n stack s) stack n := by
  induction fuel with
  | zero =>
    intro n stack hlen _ _ s h
    have := length_le_of_visiting h
    omega
  | succ fuel ih =>
    intro n stack hlen hn hpath s h
    dsimp only
    unfold visitNode
    split
    · -- grey: a cycle is reported
      rename_i hgrey
      refine ⟨_, rfl, visiting_report h hgrey hpath, ⟨fun _ => id, ?_⟩, ?_⟩
      · intro hnil
        exact absurd hnil (by simp)
      · intro hnil
        exact absurd hnil (by simp)
    · -- black: nothing is left to do
      rename_i hblack
      exact ⟨s, rfl, h, ⟨fun _ => id, id⟩, fun _ => hblack⟩
    · -- white: its dependencies, one level deeper
      rename_i hgrey hblack
      obtain ⟨henter, hlater⟩ := visiting_enter h hn hgrey hblack hpath
      have hdeps : ∀ d ∈ (depsOf comps n).filter fun d => d ∈ comps.keys,
          Visits comps (fun d s => visitNode comps fuel d (stack ++ [n]) s) (stack ++ [n]) d := by
        intro d hd
        obtain ⟨hdep, hkey⟩ := List.mem_filter.mp hd
        have hkey : d ∈ comps.keys := by simpa using hkey
        refine ih d (stack ++ [n]) ?_ hkey ?_
        · rw [List.length_append, List.length_singleton]
          omega
        · rw [List.append_assoc]
          exact List.isChain_append_cons_cons.mpr ⟨hpath, ⟨hdep, hkey⟩, List.isChain_singleton d⟩
      obtain ⟨s₁, hs₁, h₁, hlater₁, hblack₁⟩ := foldlM_visits hdeps _ henter
      obtain ⟨hleave, hlater₂⟩ := visiting_leave h₁ fun hnil d hedge =>
        hblack₁ hnil d (List.mem_filter.mpr ⟨hedge.1, by simpa using hedge.2⟩)
      refine ⟨_, ?_, hleave, (hlater.trans hlater₁).trans hlater₂, fun _ => ?_⟩
      · dsimp only
        rw [hs₁]
        rfl
      · rw [Dict.get?_set, if_pos rfl]

/-- The search returns; it reports cycles only, and some if there is one. -/
theorem searchCycles_spec (comps : Dict String Component) :
    ∃ cycles, searchCycles comps = some cycles ∧ (∀ path ∈ cycles, Cyclic comps path) ∧
      (cycles = [] → ∀ n, ¬ Relation.TransGen (Edge comps) n n) := by
  have hwhite : ∀ x c, (Dict.ofList (comps.keys.map fun n => (n, Colour.white))).get? x = some c →
      c = .white := by
    intro x c hget
    rw [Dict.get?_ofList_eq_last] at hget
    obtain ⟨e, he, rfl⟩ := Option.map_eq_some_iff.mp hget
    obtain ⟨m, -, rfl⟩ := List.mem_map.mp (List.mem_reverse.mp (List.mem_of_find?_eq_some he))
    rfl
  have hstart : Visiting comps [] ⟨Dict.ofList (comps.keys.map fun n => (n, .white)), []⟩ := by
    refine ⟨?_, List.nodup_nil, fun x hx => absurd hx List.not_mem_nil, List.isChain_nil,
      fun path hp => absurd hp List.not_mem_nil, ?_, ?_⟩
    · intro x
      refine ⟨fun hx => ?_, fun hx => absurd hx List.not_mem_nil⟩
      cases hwhite x _ hx
    · intro _ b d hb
      cases hwhite b _ hb
    · intro _ b hb
      cases hwhite b _ hb
  have hvisits : ∀ n ∈ sortAlpha comps.keys,
      Visits comps (fun n s => visitNode comps (comps.keys.length + 1) n [] s) [] n := by
    intro n hn
    exact visitNode_visits _ n [] (by simp) (mem_sortAlpha.mp hn) (List.isChain_singleton n)
  obtain ⟨s, hs, h, -, hblack⟩ := foldlM_visits hvisits _ hstart
  refine ⟨s.cycles, ?_, h.reports, ?_⟩
  · unfold searchCycles
    dsimp only
    rw [hs]
    rfl
  · intro hnil n hcycle
    -- a name on a cycle is declared, and every declared name is black
    obtain ⟨m, -, hedge⟩ := Relation.TransGen.tail'_iff.mp hcycle
    exact h.acyclic hnil n (hblack hnil n (mem_sortAlpha.mpr hedge.2)) hcycle

/-! ## The gate -/

/-- The closure pass reports the dependencies that are not keys. -/
theorem closureProblems_eq_nil_iff (comps : Dict String Component) :
    closureProblems comps = [] ↔
      ∀ n c, comps.get? n = some c → ∀ d ∈ c.deps, d ∈ comps.keys := by
  unfold closureProblems
  rw [List.flatMap_eq_nil_iff]
  constructor
  · intro h n c hget d hd
    have hnone := h (n, c) (mem_sortedItems.mpr hget)
    rw [List.map_eq_nil_iff, List.filter_eq_nil_iff] at hnone
    simpa using hnone d hd
  · rintro h ⟨n, c⟩ hmem
    rw [List.map_eq_nil_iff, List.filter_eq_nil_iff]
    intro d hd
    simpa using h n c (mem_sortedItems.mp hmem) d hd

section Distinct

variable {components : List Component} (hdistinct : (components.map (·.name)).Nodup)

include hdistinct

theorem mem_keys_compsByName {d : String} :
    d ∈ (compsByName components).keys ↔ ∃ c ∈ components, c.name = d := by
  rw [← not_iff_not, ← Dict.get?_eq_none_iff, Option.eq_none_iff_forall_not_mem]
  simp only [Option.mem_def, get?_compsByName hdistinct, not_exists]

/-- An edge of the search is a declared dependency on a declared component. -/
theorem edge_iff {a b : String} :
    Edge (compsByName components) a b ↔
      DependsOn components a b ∧ ∃ c ∈ components, c.name = b := by
  unfold Edge
  rw [mem_depsOf hdistinct, mem_keys_compsByName hdistinct]

end Distinct

/-- A dependency of a declared component on a declared component. -/
def DeclaredEdge (components : List Component) (a b : String) : Prop :=
  DependsOn components a b ∧ ∃ c ∈ components, c.name = b

/-- A path of at least one edge. -/
theorem transGen_of_isChain {a b : String} {l : List String}
    (h : (a :: l ++ [b]).IsChain (Edge comps)) : Relation.TransGen (Edge comps) a b := by
  induction l generalizing a with
  | nil => exact .single (List.isChain_pair.mp h)
  | cons c l ih =>
    obtain ⟨hedge, hrest⟩ := List.isChain_cons_cons.mp h
    exact .head hedge (ih hrest)

/-- A reported path shows a cycle. -/
theorem transGen_of_cyclic {path : List String} (h : Cyclic comps path) :
    ∃ n, Relation.TransGen (Edge comps) n n := by
  obtain ⟨-, n, segment, -, hchain⟩ := h
  exact ⟨n, transGen_of_isChain hchain⟩

/-- The closure pass reports a problem exactly when a dependency names no
component. The visit pass ends, reports a cycle exactly when the declared
dependencies have one, and every path it reports ends in one. -/
theorem dag_gate_decides (components : List Component)
    (hdistinct : (components.map (·.name)).Nodup) :
    (closureProblems (compsByName components) ≠ [] ↔
      ∃ c ∈ components, ∃ d ∈ c.deps, ∀ c' ∈ components, c'.name ≠ d) ∧
    ∃ cycles, searchCycles (compsByName components) = some cycles ∧
      (cycles ≠ [] ↔ ∃ n, Relation.TransGen (DeclaredEdge components) n n) ∧
      ∀ path ∈ cycles, ∃ before n segment, path = before ++ n :: segment ++ [n] ∧
        (n :: segment ++ [n]).IsChain (DeclaredEdge components) := by
  have hedges : Edge (compsByName components) = DeclaredEdge components := by
    funext a b
    exact propext (edge_iff hdistinct)
  refine ⟨?_, ?_⟩
  · rw [ne_eq, closureProblems_eq_nil_iff]
    constructor
    · intro h
      simp only [not_forall] at h
      obtain ⟨n, c, hget, d, hd, hkey⟩ := h
      obtain ⟨hc, -⟩ := (get?_compsByName hdistinct).mp hget
      refine ⟨c, hc, d, hd, ?_⟩
      intro c' hc' hname
      exact hkey ((mem_keys_compsByName hdistinct).mpr ⟨c', hc', hname⟩)
    · rintro ⟨c, hc, d, hd, hnone⟩ hall
      obtain ⟨c', hc', hname⟩ := (mem_keys_compsByName hdistinct).mp
        (hall c.name c ((get?_compsByName hdistinct).mpr ⟨hc, rfl⟩) d hd)
      exact hnone c' hc' hname
  · obtain ⟨cycles, hsearch, hreports, hcomplete⟩ := searchCycles_spec (compsByName components)
    rw [← hedges]
    refine ⟨cycles, hsearch, ⟨?_, ?_⟩, hreports⟩
    · intro hne
      obtain ⟨path, hpath⟩ := List.exists_mem_of_ne_nil _ hne
      exact transGen_of_cyclic (hreports path hpath)
    · rintro ⟨n, hcycle⟩ hnil
      exact hcomplete hnil n hcycle

/-- Two components that wait for each other. -/
def waitingPair : List Component :=
  [⟨"heat", "Heat", ["nova"], .compute, false⟩, ⟨"nova", "Nova", ["heat"], .compute, false⟩]

/-- The pair is closed, and the search reports it. -/
theorem waitingPair_reported :
    closureProblems (compsByName waitingPair) = [] ∧
      ∃ cycles, searchCycles (compsByName waitingPair) = some cycles ∧ cycles ≠ [] := by
  obtain ⟨hclosed, cycles, hsearch, hcycles, -⟩ := dag_gate_decides waitingPair (by decide)
  refine ⟨?_, cycles, hsearch, hcycles.mpr ⟨"heat", ?_⟩⟩
  · by_contra hne
    exact absurd (hclosed.mp hne) (by decide)
  · have hheat : DeclaredEdge waitingPair "heat" "nova" :=
      ⟨⟨_, List.mem_cons_self, rfl, by decide⟩, _, List.mem_cons_of_mem _ List.mem_cons_self, rfl⟩
    have hnova : DeclaredEdge waitingPair "nova" "heat" :=
      ⟨⟨_, List.mem_cons_of_mem _ List.mem_cons_self, rfl, by decide⟩, _, List.mem_cons_self, rfl⟩
    exact .head hheat (.single hnova)

end OpenstackBlueprint.Theorems.DagGate
