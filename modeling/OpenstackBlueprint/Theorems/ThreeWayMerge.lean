import OpenstackBlueprint.Revendor.Merge

/-!
# What a merge without conflicts returns

At every leaf path of the three files the merge answers as its rule says: THEIRS
where OURS was still BASE, OURS otherwise. The argument is that no path is taken
below a leaf path the loop left alone (`not_taken_below`): had it been left
because OURS and THEIRS agree there, or because THEIRS and BASE do, they would
agree below it too.

With nothing overridden the merge does not always return THEIRS. A mapping
without leaves has no leaf path, so the loop never comes to it: a key that only
one of the two files has, with an empty mapping somewhere in its value, is not
added and not removed.
-/

namespace OpenstackBlueprint.Theorems.ThreeWayMerge

open Kit Revendor

variable {L : Type} [DecidableEq L]

section Law

variable {base ours theirs : Doc L}

/-- No path is taken below a path the loop came to and left alone. -/
theorem not_taken_below (hnone : (merge base.tree ours.tree theirs.tree).conflicts = [])
    {p : List String} (hp : p ∈ mergePaths base.tree ours.tree theirs.tree)
    (hleft : ¬ ∃ q ∈ (merge base.tree ours.tree theirs.tree).taken, q <+: p)
    {q : List String} (hq : q ∈ (merge base.tree ours.tree theirs.tree).taken) : ¬ p <+: q := by
  have h := merge_progress base ours theirs
  intro hpq
  rcases h.decided hnone p hp with hbelow | hsame | hsame
  · exact hleft hbelow
  · exact h.taken_moved q hq (Nested.view_below hsame hpq)
  · have hbase := Nested.view_below hsame hpq
    exact h.taken_moved q hq ((h.taken_base q hq).trans hbase.symm)

/-- A leaf path that was left alone reads as in OURS. -/
theorem get_of_left (hnone : (merge base.tree ours.tree theirs.tree).conflicts = [])
    {p : List String} (hp : p ∈ mergePaths base.tree ours.tree theirs.tree)
    (hleft : ¬ ∃ q ∈ (merge base.tree ours.tree theirs.tree).taken, q <+: p) :
    (merge base.tree ours.tree theirs.tree).ours.get p = ours.tree.get p :=
  (merge_progress base ours theirs).apart p fun q hq =>
    ⟨not_taken_below hnone hp hleft hq, fun hpre => hleft ⟨q, hq, hpre⟩⟩

/-- A leaf path at or below a taken one reads as in THEIRS, and OURS was BASE
there. -/
theorem get_of_taken {p q : List String}
    (hq : q ∈ (merge base.tree ours.tree theirs.tree).taken) (hpre : q <+: p) :
    (merge base.tree ours.tree theirs.tree).ours.get p = theirs.tree.get p ∧
      Nested.view (ours.tree.get p) = Nested.view (base.tree.get p) := by
  have h := merge_progress base ours theirs
  refine ⟨?_, Nested.view_below (h.taken_base q hq) hpre⟩
  obtain ⟨r, rfl⟩ := hpre
  exact h.below q hq r

end Law

/-- A merge without conflicts answers THEIRS at every leaf path where OURS was
BASE, and OURS at every other one; and it has no leaf path that neither had. -/
theorem merge_is_three_way (base ours theirs : Doc L)
    (hnone : (merge base.tree ours.tree theirs.tree).conflicts = []) :
    (∀ p, base.tree.LeafPath p ∨ ours.tree.LeafPath p ∨ theirs.tree.LeafPath p →
      Nested.beqOpt ((merge base.tree ours.tree theirs.tree).ours.get p)
        (if Nested.beqOpt (ours.tree.get p) (base.tree.get p) then theirs.tree.get p
          else ours.tree.get p) = true) ∧
    ∀ p, (merge base.tree ours.tree theirs.tree).ours.LeafPath p →
      ours.tree.LeafPath p ∨ theirs.tree.LeafPath p := by
  have h := merge_progress base ours theirs
  refine ⟨fun p hp => ?_, fun p hp => ?_⟩
  · by_cases htaken : ∃ q ∈ (merge base.tree ours.tree theirs.tree).taken, q <+: p
    · -- at or below a taken path OURS was BASE, and the answer is THEIRS
      obtain ⟨q, hq, hpre⟩ := htaken
      obtain ⟨hget, hbase⟩ := get_of_taken hq hpre
      rw [if_pos ((Nested.beqOpt_iff ours.wf base.wf).mpr hbase), hget,
        Nested.beqOpt_iff theirs.wf theirs.wf]
    · -- elsewhere OURS stays, and without a conflict that is one of the two
      have hpath := mem_mergePaths.mpr hp
      rw [get_of_left hnone hpath htaken]
      split
      · rename_i hbase
        rw [Nested.beqOpt_iff ours.wf theirs.wf]
        rcases h.decided hnone p hpath with hbelow | hsame | hsame
        · exact absurd hbelow htaken
        · exact hsame
        · exact ((Nested.beqOpt_iff ours.wf base.wf).mp hbase).trans hsame.symm
      · rw [Nested.beqOpt_iff ours.wf ours.wf]
  · obtain ⟨v, hv⟩ := hp
    by_cases htaken : ∃ q ∈ (merge base.tree ours.tree theirs.tree).taken, q <+: p
    · obtain ⟨q, hq, hpre⟩ := htaken
      exact .inr ⟨v, (get_of_taken hq hpre).1.symm.trans hv⟩
    · refine .inl ⟨v, ?_⟩
      rw [← hv]
      refine (h.apart p fun q hq => ⟨fun hpq => ?_, fun hpre => htaken ⟨q, hq, hpre⟩⟩).symm
      -- above a taken path stands a mapping, not a leaf
      have hne : p ≠ q := fun heq => htaken ⟨q, hq, heq ▸ List.prefix_rfl⟩
      obtain ⟨s, hs, hmap⟩ := h.above q hq p hpq hne
      rw [hv] at hs
      cases hs
      exact hmap

/-- A chart's values: a secret under `conf` and an image tag. -/
def horizonDoc (secret tag : String) : Doc String where
  tree := .map [("conf", .map [("horizon_secret_key", .leaf secret)]), ("tag", .leaf tag)]
  wf := by
    refine .map (by simp) ?_
    simp only [List.forall_mem_cons]
    refine ⟨.map (by simp) ?_, .leaf tag, List.forall_mem_nil _⟩
    exact List.forall_mem_cons.mpr ⟨.leaf secret, List.forall_mem_nil _⟩
  isMap := trivial

/-- Upstream moves the tag and not the secret, which was overridden. -/
theorem horizon_keeps_secret :
    (merge (horizonDoc "uuid" "old").tree (horizonDoc "changeme" "old").tree
        (horizonDoc "uuid" "new").tree).conflicts = [] ∧
      Nested.beqOpt ((merge (horizonDoc "uuid" "old").tree (horizonDoc "changeme" "old").tree
          (horizonDoc "uuid" "new").tree).ours.get ["conf", "horizon_secret_key"])
        (some (.leaf "changeme")) = true := by
  refine ⟨rfl, ?_⟩
  exact (merge_is_three_way (horizonDoc "uuid" "old") (horizonDoc "changeme" "old")
    (horizonDoc "uuid" "new") rfl).1 ["conf", "horizon_secret_key"] (.inl ⟨"uuid", rfl⟩)

/-! ## Nothing overridden -/

/-- A key that the first file has and the second has not, at a path where both
have a mapping. -/
structure LoneKey (a b : Nested L) (p : List String) (k : String) (t : Nested L) : Prop where
  here : ∃ s, a.get p = some s ∧ s.IsMap
  there : ∃ s, b.get p = some s ∧ s.IsMap
  value : a.get (p ++ [k]) = some t
  missing : b.get (p ++ [k]) = none

/-- No key that only one of the two files has holds an empty mapping, at any
depth. -/
def NoLoneEmpty (base theirs : Nested L) : Prop :=
  ∀ p k t, LoneKey base theirs p k t ∨ LoneKey theirs base p k t → ∀ r, t.get r ≠ some (.map [])

/-- The merge of an unchanged file returns the upstream one. -/
def YieldsUpstream (base theirs : Nested L) : Prop :=
  (merge base base theirs).conflicts = [] ∧
    Nested.beq (merge base base theirs).ours theirs = true

section Upstream

variable {base theirs : Doc L}

/-- With every leaf path of BASE still in THEIRS there is nothing to conflict. -/
theorem conflicts_nil (hpresent : ∀ p, base.tree.LeafPath p → theirs.tree.get p ≠ none) :
    (merge base.tree base.tree theirs.tree).conflicts = [] := by
  by_contra hsome
  obtain ⟨p, hp, hconf⟩ := (merge_progress base base theirs).conflict hsome
  have hnone := hconf.removed rfl
  rcases mem_mergePaths.mp hp with h | h | ⟨v, hv⟩
  · exact hpresent p h hnone
  · exact hpresent p h hnone
  · rw [hnone] at hv
    cases hv

/-- At a leaf path apart from what was taken the two files agree. -/
theorem same_of_apart (hnone : (merge base.tree base.tree theirs.tree).conflicts = [])
    {p : List String} (hp : base.tree.LeafPath p ∨ theirs.tree.LeafPath p)
    (hapart : ¬ ∃ q ∈ (merge base.tree base.tree theirs.tree).taken, q <+: p) :
    Nested.view (base.tree.get p) = Nested.view (theirs.tree.get p) := by
  have hpath : p ∈ mergePaths base.tree base.tree theirs.tree :=
    mem_mergePaths.mpr (hp.elim .inl fun h => .inr (.inr h))
  rcases (merge_progress base base theirs).decided hnone p hpath with hbelow | hsame | hsame
  · exact absurd hbelow hapart
  · exact hsame
  · exact hsame.symm

omit [DecidableEq L] in
/-- Where a path ends in one file and goes on in the other, it ends at a key the
first has not, below a mapping or below a leaf. -/
theorem exists_last {a : Doc L} {p : List String} (hp : a.tree.get p = none) :
    ∃ p₁ k, p₁ ++ [k] <+: p ∧ (∃ s, a.tree.get p₁ = some s) ∧ a.tree.get (p₁ ++ [k]) = none := by
  induction p using List.reverseRecOn with
  | nil =>
    rw [Nested.get_nil] at hp
    cases hp
  | append_singleton p k ih =>
    cases hget : a.tree.get p with
    | none =>
      obtain ⟨p₁, k₁, hpre, hsome, hmissing⟩ := ih hget
      exact ⟨p₁, k₁, hpre.trans (List.prefix_append p [k]), hsome, hmissing⟩
    | some s => exact ⟨p, k, List.prefix_rfl, ⟨s, hget⟩, hp⟩

omit [DecidableEq L] in
/-- A mapping in one file and nothing in the other, apart from what was taken,
is at or below a lone key. -/
theorem exists_loneKey {a b : Doc L} {p : List String} {s : Nested L}
    (hleaf : ∀ q, b.tree.LeafPath q → q <+: p →
      Nested.view (a.tree.get q) = Nested.view (b.tree.get q))
    (ha : a.tree.get p = some s) (hb : b.tree.get p = none) :
    ∃ p₁ k t, p₁ ++ [k] <+: p ∧ LoneKey a.tree b.tree p₁ k t := by
  obtain ⟨p₁, k, hpre, ⟨u, hu⟩, hmissing⟩ := exists_last hb
  have hup : p₁ <+: p := (List.prefix_append p₁ [k]).trans hpre
  have hne : p₁ ≠ p := by
    rintro rfl
    rw [hb] at hu
    cases hu
  obtain ⟨u', hu', hmap'⟩ := Nested.isMap_above ha hup hne
  have hvalue : ∃ t, a.tree.get (p₁ ++ [k]) = some t := by
    obtain ⟨r, rfl⟩ := hpre
    rw [Nested.get_append] at ha
    obtain ⟨t, ht, _⟩ := Option.bind_eq_some_iff.mp ha
    exact ⟨t, ht⟩
  obtain ⟨t, ht⟩ := hvalue
  refine ⟨p₁, k, t, hpre, ⟨u', hu', hmap'⟩, ⟨u, hu, ?_⟩, ht, hmissing⟩
  cases u with
  | map _ => trivial
  | leaf v =>
    -- a leaf there would have been taken over together with what is below it
    have hsame := Nested.shape_of_view (hleaf p₁ ⟨v, hu⟩ hup)
    rw [hu, hu'] at hsame
    cases u' with
    | map _ => cases hsame
    | leaf _ => exact hmap'.elim

omit [DecidableEq L] in
/-- At and above a mapping there is no leaf. -/
theorem not_leafPath_above {a s : Nested L} {p q : List String} (hs : a.get p = some s)
    (hmap : s.IsMap) (hpre : q <+: p) : ¬ a.LeafPath q := by
  intro hleaf
  by_cases hne : q = p
  · subst hne
    obtain ⟨v, hv⟩ := hleaf
    rw [hs] at hv
    cases hv
    exact hmap
  · rw [hleaf.get_below hpre hne] at hs
    cases hs

/-- A taken path is a leaf path of one of the two files. -/
theorem leafPath_of_taken {q : List String}
    (hq : q ∈ (merge base.tree base.tree theirs.tree).taken) :
    base.tree.LeafPath q ∨ theirs.tree.LeafPath q := by
  rcases mem_mergePaths.mp ((merge_progress base base theirs).taken_done q hq) with h | h | h
  · exact .inl h
  · exact .inl h
  · exact .inr h

/-- A key only BASE has stays. -/
theorem base_key_stays {p : List String} {k : String} {t : Nested L}
    (h : LoneKey base.tree theirs.tree p k t) :
    (merge base.tree base.tree theirs.tree).ours.get (p ++ [k]) = some t := by
  have hprog := merge_progress base base theirs
  obtain ⟨s, hs, hmap⟩ := h.here
  obtain ⟨s', hs', hmap'⟩ := h.there
  rw [← h.value]
  refine hprog.apart _ fun q hq => ⟨fun hpre => ?_, fun hpre => ?_⟩
  · obtain ⟨v, hv⟩ := hprog.taken_some q hq
    obtain ⟨r, rfl⟩ := hpre
    rw [Nested.get_append, h.missing] at hv
    cases hv
  · rcases List.prefix_concat_iff.mp hpre with rfl | hpre
    · obtain ⟨v, hv⟩ := hprog.taken_some _ hq
      rw [h.missing] at hv
      cases hv
    · rcases leafPath_of_taken hq with hleaf | hleaf
      · exact not_leafPath_above hs hmap hpre hleaf
      · exact not_leafPath_above hs' hmap' hpre hleaf

/-- An empty mapping below a key only THEIRS has is not taken. -/
theorem their_empty_missing {p r : List String} {k : String} {t : Nested L}
    (h : LoneKey theirs.tree base.tree p k t) (hr : t.get r = some (.map [])) :
    (merge base.tree base.tree theirs.tree).ours.get (p ++ [k] ++ r) = none := by
  have hprog := merge_progress base base theirs
  obtain ⟨s, hs, hmap⟩ := h.there
  have htheirs : theirs.tree.get (p ++ [k] ++ r) = some (.map []) := by
    rw [Nested.get_append, h.value]
    exact hr
  have hmissing : base.tree.get (p ++ [k] ++ r) = none := by
    rw [Nested.get_append, h.missing]
    rfl
  have habove : ∀ q ∈ (merge base.tree base.tree theirs.tree).taken, ¬ q <+: p ++ [k] ++ r := by
    intro q hq hpre
    rcases leafPath_of_taken hq with hleaf | hleaf
    · rcases List.prefix_or_prefix_of_prefix hpre (List.prefix_append (p ++ [k]) r) with hq' | hq'
      · rcases List.prefix_concat_iff.mp hq' with rfl | hq'
        · obtain ⟨v, hv⟩ := hleaf
          rw [h.missing] at hv
          cases hv
        · exact not_leafPath_above hs hmap hq' hleaf
      · obtain ⟨v, hv⟩ := hleaf
        obtain ⟨r', rfl⟩ := hq'
        rw [Nested.get_append, h.missing] at hv
        cases hv
    · exact not_leafPath_above htheirs trivial hpre hleaf
  rw [← hmissing]
  refine hprog.apart _ fun q hq => ⟨fun hpre => ?_, habove q hq⟩
  obtain ⟨v, hv⟩ := hprog.taken_some q hq
  obtain ⟨r', rfl⟩ := hpre
  rw [Nested.get_append, htheirs] at hv
  cases r' with
  | nil => exact habove _ hq (by rw [List.append_nil])
  | cons k' r' => cases hv

/-- At the leaf paths above a path apart from what was taken the two files agree. -/
theorem same_above_apart (hnone : (merge base.tree base.tree theirs.tree).conflicts = [])
    {p : List String}
    (hapart : ∀ q ∈ (merge base.tree base.tree theirs.tree).taken, ¬ p <+: q ∧ ¬ q <+: p)
    {q : List String} (hq : base.tree.LeafPath q ∨ theirs.tree.LeafPath q) (hpre : q <+: p) :
    Nested.view (base.tree.get q) = Nested.view (theirs.tree.get q) := by
  refine same_of_apart hnone hq ?_
  rintro ⟨q', hq', hpre'⟩
  exact (hapart q' hq').2 (hpre'.trans hpre)

/-- What BASE has apart from what was taken, THEIRS has too: a key only BASE has
holds no leaf, so it would hold an empty mapping. -/
theorem theirs_of_apart (hpresent : ∀ p, base.tree.LeafPath p → theirs.tree.get p ≠ none)
    (hcond : NoLoneEmpty base.tree theirs.tree) {p : List String}
    (hapart : ∀ q ∈ (merge base.tree base.tree theirs.tree).taken, ¬ p <+: q ∧ ¬ q <+: p)
    {s : Nested L} (hs : base.tree.get p = some s) : theirs.tree.get p ≠ none := by
  intro ht
  obtain ⟨p₁, k, u, _, hlone⟩ := exists_loneKey (fun q hq hpre =>
    same_above_apart (conflicts_nil hpresent) hapart (.inr hq) hpre) hs ht
  rcases Nested.exists_leaf_or_empty (base.wf.get hlone.value) with ⟨r, v, hv⟩ | ⟨r, hr⟩
  · have hget : base.tree.get (p₁ ++ [k] ++ r) = some (.leaf v) := by
      rw [Nested.get_append, hlone.value]
      exact hv
    refine hpresent _ ⟨v, hget⟩ ?_
    rw [Nested.get_append, hlone.missing]
    rfl
  · exact hcond p₁ k u (.inl hlone) r hr

/-- What THEIRS has apart from what was taken, BASE has too: a leaf of THEIRS below
the path would have been taken, at a path above or below it. -/
theorem base_of_apart (hpresent : ∀ p, base.tree.LeafPath p → theirs.tree.get p ≠ none)
    (hcond : NoLoneEmpty base.tree theirs.tree) {p : List String}
    (hapart : ∀ q ∈ (merge base.tree base.tree theirs.tree).taken, ¬ p <+: q ∧ ¬ q <+: p)
    {t : Nested L} (ht : theirs.tree.get p = some t) : base.tree.get p ≠ none := by
  intro hb
  have hnone := conflicts_nil hpresent
  obtain ⟨p₁, k, u, hpre, hlone⟩ := exists_loneKey (fun q hq hpre =>
    (same_above_apart hnone hapart (.inl hq) hpre).symm) ht hb
  rcases Nested.exists_leaf_or_empty (theirs.wf.get ht) with ⟨r, v, hv⟩ | ⟨r, hr⟩
  · have hget : theirs.tree.get (p ++ r) = some (.leaf v) := by
      rw [Nested.get_append, ht]
      exact hv
    have hsame : Nested.view (base.tree.get (p ++ r)) = Nested.view (theirs.tree.get (p ++ r)) := by
      refine same_of_apart hnone (.inr ⟨v, hget⟩) ?_
      rintro ⟨q, hq, hqr⟩
      rcases List.prefix_or_prefix_of_prefix hqr (List.prefix_append p r) with hqp | hpq
      · exact (hapart q hq).2 hqp
      · exact (hapart q hq).1 hpq
    have hshape := Nested.shape_of_view hsame
    rw [Nested.get_append, hb, hget] at hshape
    cases hshape
  · obtain ⟨r₁, rfl⟩ := hpre
    rw [Nested.get_append, hlone.value] at ht
    refine hcond p₁ k u (.inr hlone) (r₁ ++ r) ?_
    rw [Nested.get_append, show u.get r₁ = some t from ht]
    exact hr

/-- Apart from what was taken the two files have the same shape, when no lone
key holds an empty mapping. -/
theorem shape_of_apart (hpresent : ∀ p, base.tree.LeafPath p → theirs.tree.get p ≠ none)
    (hcond : NoLoneEmpty base.tree theirs.tree) {p : List String}
    (hapart : ∀ q ∈ (merge base.tree base.tree theirs.tree).taken, ¬ p <+: q ∧ ¬ q <+: p) :
    Nested.shape (base.tree.get p) = Nested.shape (theirs.tree.get p) := by
  have hleaf : base.tree.LeafPath p ∨ theirs.tree.LeafPath p →
      Nested.shape (base.tree.get p) = Nested.shape (theirs.tree.get p) := fun hp =>
    Nested.shape_of_view (same_above_apart (conflicts_nil hpresent) hapart hp List.prefix_rfl)
  cases hb : base.tree.get p with
  | none =>
    cases ht : theirs.tree.get p with
    | none => rfl
    | some t => exact absurd hb (base_of_apart hpresent hcond hapart ht)
  | some s =>
    cases ht : theirs.tree.get p with
    | none => exact absurd ht (theirs_of_apart hpresent hcond hapart hb)
    | some t =>
      cases s with
      | leaf v =>
        rw [← hb, ← ht]
        exact hleaf (.inl ⟨v, hb⟩)
      | map entries =>
        cases t with
        | map _ => rfl
        | leaf v =>
          rw [← hb, ← ht]
          exact hleaf (.inr ⟨v, ht⟩)

end Upstream

/-- With every leaf path of BASE still in THEIRS, the merge of an unchanged file
is THEIRS exactly when no key that only one of the two has holds an empty
mapping. -/
theorem yields_upstream_iff (base theirs : Doc L)
    (hpresent : ∀ p, base.tree.LeafPath p → theirs.tree.get p ≠ none) :
    YieldsUpstream base.tree theirs.tree ↔ NoLoneEmpty base.tree theirs.tree := by
  have h := merge_progress base base theirs
  unfold YieldsUpstream
  rw [Nested.beq_iff_shape h.wf theirs.wf]
  constructor
  · rintro ⟨_, hshape⟩ p k t (hlone | hlone) r hr
    · -- a key only BASE has stays, and THEIRS does not have it
      have := hshape (p ++ [k])
      rw [base_key_stays hlone, hlone.missing] at this
      cases t <;> cases this
    · -- an empty mapping only THEIRS has is not written
      have := hshape (p ++ [k] ++ r)
      rw [their_empty_missing hlone hr, Nested.get_append, hlone.value] at this
      rw [show (some t).bind (fun s => s.get r) = some (.map []) from hr] at this
      cases this
  · refine fun hcond => ⟨conflicts_nil hpresent, fun p => ?_⟩
    by_cases hbelow : ∃ q ∈ (merge base.tree base.tree theirs.tree).taken, q <+: p
    · obtain ⟨q, hq, hpre⟩ := hbelow
      rw [(get_of_taken hq hpre).1]
    · by_cases habove : ∃ q ∈ (merge base.tree base.tree theirs.tree).taken, p <+: q
      · -- above a taken path both sides have a mapping
        obtain ⟨q, hq, hpre⟩ := habove
        have hne : p ≠ q := fun heq => hbelow ⟨q, hq, heq ▸ List.prefix_rfl⟩
        obtain ⟨s, hs, hmap⟩ := h.above q hq p hpre hne
        obtain ⟨v, hv⟩ := h.taken_some q hq
        obtain ⟨u, hu, humap⟩ := Nested.isMap_above hv hpre hne
        rw [hs, hu]
        cases s with
        | leaf _ => exact hmap.elim
        | map _ =>
          cases u with
          | leaf _ => exact humap.elim
          | map _ => rfl
      · have hapart : ∀ q ∈ (merge base.tree base.tree theirs.tree).taken,
            ¬ p <+: q ∧ ¬ q <+: p := fun q hq =>
          ⟨fun hpre => habove ⟨q, hq, hpre⟩, fun hpre => hbelow ⟨q, hq, hpre⟩⟩
        rw [h.apart p hapart]
        exact shape_of_apart hpresent hcond hapart

/-- A tag alone, and with a further key. -/
def tagDoc (tag : String) : Doc String where
  tree := .map [("tag", .leaf tag)]
  wf := .map (by simp) (List.forall_mem_cons.mpr ⟨.leaf tag, List.forall_mem_nil _⟩)
  isMap := trivial

def tagDocWith (tag : String) (extra : Nested String) (h : extra.WF) : Doc String where
  tree := .map [("tag", .leaf tag), ("annotations", extra)]
  wf := .map (by simp) (List.forall_mem_cons.mpr
    ⟨.leaf tag, List.forall_mem_cons.mpr ⟨h, List.forall_mem_nil _⟩⟩)
  isMap := trivial

/-- The one leaf path of the tag alone is in every file with a tag. -/
theorem tagDoc_present (tag tag' : String) (extra : Nested String) (h : extra.WF) :
    ∀ p, (tagDoc tag).tree.LeafPath p → (tagDocWith tag' extra h).tree.get p ≠ none := by
  intro p hp
  have hmem := (Nested.mem_leafPaths (tagDoc tag).wf).mpr hp
  rw [List.mem_singleton.mp hmem]
  exact Option.some_ne_none _

/-- A key with a leaf in it is taken over. -/
theorem annotation_taken :
    NoLoneEmpty (tagDoc "old").tree (tagDocWith "new" (.leaf "yes") (.leaf "yes")).tree :=
  (yields_upstream_iff (tagDoc "old") (tagDocWith "new" (.leaf "yes") (.leaf "yes"))
    (tagDoc_present _ _ _ _)).mp ⟨rfl, rfl⟩

/-- `annotations: {}` is new upstream, and the merge leaves it out. -/
theorem empty_annotations_dropped :
    (∀ p, (tagDoc "old").tree.LeafPath p →
      (tagDocWith "old" (.map []) (.map List.nodup_nil (by simp))).tree.get p ≠ none) ∧
    ¬ YieldsUpstream (tagDoc "old").tree
      (tagDocWith "old" (.map []) (.map List.nodup_nil (by simp))).tree := by
  refine ⟨tagDoc_present _ _ _ _, fun h => ?_⟩
  exact absurd h.2 (by decide)

end OpenstackBlueprint.Theorems.ThreeWayMerge
