import OpenstackBlueprint.Theorems.ThreeWayMerge

/-!
# Revendoring again and again

A chart is revendored many times: report-only runs, runs that are refused because
of a conflict, and runs that write the file the next one starts from. The files are
read as trees: no mapping is shared between two places by a YAML alias, except
inside a list, which is a leaf.

* an override survives every sequence of runs, refused ones included, as long as
  no file given as `--base` has the same value (`overrides_survive_runs`);
* a leaf that was never overridden follows upstream through any number of
  versions (`untouched_leaves_follow_upstream`), as long as each of them has a leaf
  or nothing at its path; so does an override once upstream has adopted it.
-/

namespace OpenstackBlueprint.Theorems.RevendorRuns

open Kit Revendor ThreeWayMerge

variable {L : Type} [DecidableEq L]

/-! ## Runs -/

/-- The arguments of one run. -/
structure Args (L : Type) where
  base : Doc L
  theirs : Doc L
  apply : Bool

/-- The vendored file after a sequence of runs. -/
def runAll (runs : List (Args L)) (ours : Doc L) : Doc L :=
  runs.foldl (fun ours args => (revendorMain args.apply args.base args.theirs ours).1) ours

/-- Moving the chart from `base` through the versions that follow it, one after the other;
`none` when a run is refused. -/
def update (ours : Doc L) : Doc L → List (Doc L) → Option (Doc L)
  | _, [] => some ours
  | base, theirs :: rest =>
    match revendorMain true base theirs ours with
    | (ours, 0) => update ours theirs rest
    | _ => none

/-! ## One run -/

section Step

variable {base ours theirs : Doc L} {p : List String}

omit [DecidableEq L] in
/-- Leaves and missing keys are told apart by their shape. -/
theorem get_eq_of_shape {a b : Nested L} (ha : a.get p = none ∨ a.LeafPath p)
    (hb : b.get p = none ∨ b.LeafPath p) (h : Nested.shape (a.get p) = Nested.shape (b.get p)) :
    a.get p = b.get p := by
  rcases ha with ha | ⟨v, ha⟩ <;> rcases hb with hb | ⟨w, hb⟩
  · rw [ha, hb]
  · simp [ha, hb, Nested.shape] at h
  · simp [ha, hb, Nested.shape] at h
  · simp only [ha, hb, Nested.shape, Option.some.injEq] at h
    rw [ha, hb, h]

/-- An override stays where the base has another value. -/
theorem get_merged_override {v : L}
    (hnone : (merge base.tree ours.tree theirs.tree).conflicts = [])
    (hours : ours.tree.get p = some (.leaf v)) (hbase : base.tree.get p ≠ some (.leaf v)) :
    (mergedDoc base ours theirs).tree.get p = some (.leaf v) := by
  have hpath : p ∈ mergePaths base.tree ours.tree theirs.tree :=
    mem_mergePaths.mpr (.inr (.inl ⟨v, hours⟩))
  have hleft : ¬ ∃ q ∈ (merge base.tree ours.tree theirs.tree).taken, q <+: p := by
    rintro ⟨q, hq, hpre⟩
    have hshape := Nested.shape_of_view (get_of_taken hq hpre).2
    rw [hours] at hshape
    cases hget : base.tree.get p with
    | none => simp [hget, Nested.shape] at hshape
    | some t =>
      cases t with
      | leaf w =>
        simp only [hget, Nested.shape, Option.some.injEq] at hshape
        exact hbase (by rw [hget, hshape])
      | map entries => simp [hget, Nested.shape] at hshape
  exact (get_of_left hnone hpath hleft).trans hours

/-- A leaf that is the base's, or missing with it, becomes upstream's. -/
theorem get_merged_untouched
    (hnone : (merge base.tree ours.tree theirs.tree).conflicts = [])
    (hbase : base.tree.get p = none ∨ base.tree.LeafPath p)
    (htheirs : theirs.tree.get p = none ∨ theirs.tree.LeafPath p)
    (hours : ours.tree.get p = base.tree.get p) :
    (mergedDoc base ours theirs).tree.get p = theirs.tree.get p := by
  have h := merge_progress base ours theirs
  by_cases htaken : ∃ q ∈ (merge base.tree ours.tree theirs.tree).taken, q <+: p
  · obtain ⟨q, hq, hpre⟩ := htaken
    exact (get_of_taken hq hpre).1
  by_cases hpath : p ∈ mergePaths base.tree ours.tree theirs.tree
  · have hview : Nested.view (ours.tree.get p) = Nested.view (theirs.tree.get p) := by
      rcases h.decided hnone p hpath with hbelow | hsame | hsame
      · exact absurd hbelow htaken
      · exact hsame
      · rw [hours, hsame]
    rw [show (mergedDoc base ours theirs).tree.get p = ours.tree.get p from
      get_of_left hnone hpath htaken]
    have hplain : ours.tree.get p = none ∨ ours.tree.LeafPath p := by
      unfold Nested.LeafPath
      rw [hours]
      exact hbase
    exact get_eq_of_shape hplain htheirs (Nested.shape_of_view hview)
  · -- no file has a leaf there: the key is missing from all, and stays missing
    have hmissing : base.tree.get p = none ∧ theirs.tree.get p = none := by
      refine ⟨hbase.resolve_right fun hl => hpath ?_, htheirs.resolve_right fun hl => hpath ?_⟩
      · exact mem_mergePaths.mpr (.inl hl)
      · exact mem_mergePaths.mpr (.inr (.inr hl))
    have hapart : (mergedDoc base ours theirs).tree.get p = ours.tree.get p := by
      refine h.apart p fun q hq => ⟨?_, fun hpre => htaken ⟨q, hq, hpre⟩⟩
      rintro ⟨r, rfl⟩
      obtain ⟨v, hv⟩ := h.taken_some _ hq
      simp [Nested.get_append, hmissing.2] at hv
    rw [hapart, hours, hmissing.1, hmissing.2]

end Step

/-- A run either leaves the file alone, or merges without conflicts. -/
theorem revendorMain_cases (apply : Bool) (base theirs ours : Doc L) :
    (revendorMain apply base theirs ours).1 = ours ∨
      (merge base.tree ours.tree theirs.tree).conflicts = [] ∧
        (revendorMain apply base theirs ours).1 = mergedDoc base ours theirs := by
  unfold revendorMain
  split
  · rename_i hempty
    cases apply with
    | false => exact .inl rfl
    | true => exact .inr ⟨List.isEmpty_iff.mp hempty, rfl⟩
  · exact .inl rfl

/-! ## What sequences of runs keep -/

/-- An override is in the file after every sequence of runs, when no `--base` has its value. -/
theorem overrides_survive_runs (runs : List (Args L)) (ours : Doc L) {p : List String} {v : L}
    (hours : ours.tree.get p = some (.leaf v))
    (hbase : ∀ args ∈ runs, args.base.tree.get p ≠ some (.leaf v)) :
    (runAll runs ours).tree.get p = some (.leaf v) := by
  induction runs generalizing ours with
  | nil => exact hours
  | cons args runs ih =>
    refine ih _ ?_ fun args hargs => hbase args (List.mem_cons_of_mem _ hargs)
    change (revendorMain args.apply args.base args.theirs ours).1.tree.get p = some (.leaf v)
    rcases revendorMain_cases args.apply args.base args.theirs ours with hsame | ⟨hnone, hmerged⟩
    · rw [hsame]
      exact hours
    · rw [hmerged]
      exact get_merged_override hnone hours (hbase args List.mem_cons_self)

/-- The secret that replaced upstream's is in the file after a report, a refused run and two
runs that write. -/
theorem horizon_secret_survives_runs :
    (runAll [⟨horizonDoc "uuid" "1", horizonDoc "uuid" "2", false⟩,
        ⟨horizonDoc "uuid" "1", horizonDoc "other" "2", true⟩,
        ⟨horizonDoc "uuid" "1", horizonDoc "uuid" "2", true⟩,
        ⟨horizonDoc "uuid" "2", horizonDoc "uuid" "3", true⟩]
      (horizonDoc "changeme" "1")).tree.get ["conf", "horizon_secret_key"] =
      some (.leaf "changeme") := by
  refine overrides_survive_runs _ _ rfl ?_
  intro args hargs
  simp only [List.mem_cons, List.not_mem_nil, or_false] at hargs
  have hbase : ∀ tag, (horizonDoc "uuid" tag).tree.get ["conf", "horizon_secret_key"] ≠
      some (.leaf "changeme") := by
    intro tag h
    have huuid : (horizonDoc "uuid" tag).tree.get ["conf", "horizon_secret_key"] =
        some (.leaf "uuid") := rfl
    rw [huuid] at h
    simp at h
  rcases hargs with rfl | rfl | rfl | rfl
  · exact hbase "1"
  · exact hbase "1"
  · exact hbase "1"
  · exact hbase "2"

/-- Where the file agrees with the version it was vendored from, and every version has a leaf
or nothing, it agrees with the last version after any number of updates. -/
theorem untouched_leaves_follow_upstream (base : Doc L) (versions : List (Doc L))
    (ours final : Doc L) (hupdate : update ours base versions = some final) (p : List String)
    (hplain : ∀ u ∈ base :: versions, u.tree.get p = none ∨ u.tree.LeafPath p)
    (hours : ours.tree.get p = base.tree.get p) :
    final.tree.get p = (versions.getLastD base).tree.get p := by
  induction versions generalizing base ours with
  | nil =>
    cases hupdate
    exact hours
  | cons theirs rest ih =>
    have hrest : (theirs :: rest).getLastD base = rest.getLastD theirs := by
      cases rest <;> rfl
    rw [hrest]
    unfold update at hupdate
    split at hupdate
    · rename_i ours' hmain
      refine ih theirs ours' hupdate (fun u hu => hplain u (List.mem_cons_of_mem _ hu)) ?_
      unfold revendorMain at hmain
      split at hmain
      · rename_i hempty
        cases hmain
        exact get_merged_untouched (List.isEmpty_iff.mp hempty) (hplain base List.mem_cons_self)
          (hplain theirs (by simp)) hours
      · cases hmain
    · cases hupdate

/-- Two updates carry the tag to the last version, and leave the secret. -/
theorem horizon_tag_follows_upstream :
    ∃ final, update (horizonDoc "changeme" "1") (horizonDoc "uuid" "1")
        [horizonDoc "uuid" "2", horizonDoc "uuid" "3"] = some final ∧
      final.tree.get ["tag"] = some (.leaf "3") := by
  refine ⟨_, rfl, ?_⟩
  have h := untouched_leaves_follow_upstream (horizonDoc "uuid" "1")
    [horizonDoc "uuid" "2", horizonDoc "uuid" "3"] (horizonDoc "changeme" "1") _ rfl ["tag"]
    (by
      intro u hu
      simp only [List.mem_cons, List.not_mem_nil, or_false] at hu
      rcases hu with rfl | rfl | rfl
      · exact .inr ⟨"1", rfl⟩
      · exact .inr ⟨"2", rfl⟩
      · exact .inr ⟨"3", rfl⟩) rfl
  exact h

end OpenstackBlueprint.Theorems.RevendorRuns
