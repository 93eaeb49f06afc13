import OpenstackBlueprint.Kit.Nested

/-!
# revendor's three-way merge

`revendor.py` merges a vendored values.yaml onto a newer upstream one, leaf path
by leaf path. `merge` goes through the leaf paths of the three files in sorted
order, reads all three at the path and writes into OURS as it goes, so that what
it reads of OURS is what it has made of it.

`Progress` is what holds after some of the paths: below a taken path OURS is
THEIRS, above one it is a mapping, and apart from all of them it is what it was.
A path is taken when no shorter one decided about it, so no taken path is above
another. Writing therefore never goes below a subtree that was taken from
THEIRS, and it makes no difference that the script does not copy it.
-/

namespace OpenstackBlueprint.Revendor

open Kit

variable {L : Type}

/-- A parsed values.yaml: a mapping at the top, and no mapping holds a key
twice. Lists and scalars are leaves. -/
structure Doc (L : Type) where
  tree : Nested L
  wf : tree.WF
  isMap : tree.IsMap

/-- What `merge` returns. -/
structure Merged (L : Type) where
  ours : Nested L
  taken : List (List String)
  kept : List (List String)
  conflicts : List (List String × Option (Nested L) × Option (Nested L) × Option (Nested L))

/-- The body of the loop at one path. -/
def mergeStep [DecidableEq L] (base theirs : Nested L) (m : Merged L) (path : List String) : Merged L :=
  let b := base.get path
  let o := m.ours.get path
  let t := theirs.get path
  if Nested.beqOpt o t then m
  else
    match t, Nested.beqOpt o b with
    -- ours == base and theirs is present: take THEIRS, which is not copied
    | some v, true => { m with ours := m.ours.put path v, taken := m.taken ++ [path] }
    | _, _ =>
      if Nested.beqOpt t b then { m with kept := m.kept ++ [path] }
      else { m with conflicts := m.conflicts ++ [(path, b, o, t)] }

/-- `sorted(paths)`: the leaf paths of the three files. -/
def mergePaths (base ours theirs : Nested L) : List (List String) :=
  (base.leafPaths ++ ours.leafPaths ++ theirs.leafPaths).dedup.insertionSort (· ≤ ·)

/-- `merge(base, ours, theirs)`. -/
def merge [DecidableEq L] (base ours theirs : Nested L) : Merged L :=
  (mergePaths base ours theirs).foldl (mergeStep base theirs) ⟨ours, [], [], []⟩

/-! ## The order of the paths -/

/-- A path comes before what is below it. -/
theorem lt_of_isPrefix_ne {p q : List String} (h : p <+: q) (hne : p ≠ q) : p < q := by
  obtain ⟨r, rfl⟩ := h
  induction p with
  | nil =>
    cases r with
    | nil => exact absurd rfl hne
    | cons k r => exact List.Lex.nil
  | cons k p ih => exact List.Lex.cons (ih fun h => hne (by rw [List.cons_append, ← h]))

theorem mem_mergePaths {base ours theirs : Doc L} {p : List String} :
    p ∈ mergePaths base.tree ours.tree theirs.tree ↔
      base.tree.LeafPath p ∨ ours.tree.LeafPath p ∨ theirs.tree.LeafPath p := by
  unfold mergePaths
  rw [List.mem_insertionSort, List.mem_dedup, List.mem_append, List.mem_append,
    Nested.mem_leafPaths base.wf, Nested.mem_leafPaths ours.wf, Nested.mem_leafPaths theirs.wf, or_assoc]

/-- Later paths are greater. -/
theorem mergePaths_sorted (base ours theirs : Nested L) :
    (mergePaths base ours theirs).Pairwise (· < ·) := by
  have hsorted : (mergePaths base ours theirs).Pairwise (· ≤ ·) := List.pairwise_insertionSort _ _
  have hnodup : (mergePaths base ours theirs).Nodup :=
    (List.perm_insertionSort _ _).nodup_iff.mpr (List.nodup_dedup _)
  exact hsorted.imp₂ (fun _ _ hle hne => lt_of_le_of_ne hle hne) hnodup

theorem Doc.not_leafPath_nil (d : Doc L) : ¬ d.tree.LeafPath [] := by
  rintro ⟨v, hv⟩
  rw [Nested.get_nil] at hv
  have hmap := d.isMap
  rw [Option.some.inj hv] at hmap
  exact hmap

/-! ## Progress -/

/-- Both sides moved, to different values, or only THEIRS did and it has no
value. -/
structure Conflicting (base ours theirs : Nested L) (p : List String) : Prop where
  differ : Nested.view (ours.get p) ≠ Nested.view (theirs.get p)
  moved : Nested.view (theirs.get p) ≠ Nested.view (base.get p)
  removed : Nested.view (ours.get p) = Nested.view (base.get p) → theirs.get p = none

/-- What the merge has done after the paths in `done`. -/
structure Progress (base ours theirs : Nested L) (done : List (List String)) (m : Merged L) :
    Prop where
  isMap : m.ours.IsMap
  wf : m.ours.WF
  below : ∀ q ∈ m.taken, ∀ r, m.ours.get (q ++ r) = theirs.get (q ++ r)
  above : ∀ q ∈ m.taken, ∀ p, p <+: q → p ≠ q → ∃ s, m.ours.get p = some s ∧ s.IsMap
  apart : ∀ p, (∀ q ∈ m.taken, ¬ p <+: q ∧ ¬ q <+: p) → m.ours.get p = ours.get p
  taken_done : ∀ q ∈ m.taken, q ∈ done
  taken_some : ∀ q ∈ m.taken, ∃ v, theirs.get q = some v
  taken_base : ∀ q ∈ m.taken, Nested.view (ours.get q) = Nested.view (base.get q)
  taken_moved : ∀ q ∈ m.taken, Nested.view (ours.get q) ≠ Nested.view (theirs.get q)
  antichain : ∀ q ∈ m.taken, ∀ q' ∈ m.taken, q <+: q' → q = q'
  decided : m.conflicts = [] → ∀ p ∈ done, (∃ q ∈ m.taken, q <+: p) ∨
    Nested.view (ours.get p) = Nested.view (theirs.get p) ∨
    Nested.view (theirs.get p) = Nested.view (base.get p)
  conflict : m.conflicts ≠ [] → ∃ p ∈ done, Conflicting base ours theirs p

section Progress

variable {base ours theirs : Doc L} {done : List (List String)} {m : Merged L} {path : List String}

theorem Progress.init (base ours theirs : Doc L) :
    Progress base.tree ours.tree theirs.tree [] ⟨ours.tree, [], [], []⟩ where
  isMap := ours.isMap
  wf := ours.wf
  below := by simp
  above := by simp
  apart := fun _ _ => rfl
  taken_done := by simp
  taken_some := by simp
  taken_base := by simp
  taken_moved := by simp
  antichain := by simp
  decided := by simp
  conflict := by simp

/-- A path the loop comes to is not above a taken one. -/
theorem Progress.not_above (h : Progress base.tree ours.tree theirs.tree done m)
    (hlater : ∀ q ∈ done, q < path) {q : List String} (hq : q ∈ m.taken) : ¬ path <+: q := by
  intro hpre
  have hlt := hlater q (h.taken_done q hq)
  have hne : path ≠ q := fun heq => absurd hlt (by rw [heq]; exact lt_irrefl _)
  exact absurd (hlt.trans (lt_of_isPrefix_ne hpre hne)) (lt_irrefl _)

/-- Below a taken path there is nothing to do. -/
theorem Progress.step_below [DecidableEq L] (h : Progress base.tree ours.tree theirs.tree done m)
    (hbelow : ∃ q ∈ m.taken, q <+: path) :
    mergeStep base.tree theirs.tree m path = m := by
  obtain ⟨q, hq, r, rfl⟩ := hbelow
  have heq : Nested.beqOpt (m.ours.get (q ++ r)) (theirs.tree.get (q ++ r)) = true := by
    rw [Nested.beqOpt_iff h.wf theirs.wf, h.below q hq r]
  unfold mergeStep
  dsimp only
  rw [if_pos heq]

/-- Elsewhere the loop reads OURS as it was. -/
theorem Progress.read_apart (h : Progress base.tree ours.tree theirs.tree done m)
    (hlater : ∀ q ∈ done, q < path) (hbelow : ¬ ∃ q ∈ m.taken, q <+: path) :
    m.ours.get path = ours.tree.get path :=
  h.apart path fun _ hq => ⟨h.not_above hlater hq, fun hpre => hbelow ⟨_, hq, hpre⟩⟩

/-- One more path without a write. -/
theorem Progress.skip (h : Progress base.tree ours.tree theirs.tree done m) {m' : Merged L}
    (hours : m'.ours = m.ours) (htaken : m'.taken = m.taken)
    (hconflicts : m'.conflicts = [] → m.conflicts = [] ∧ ((∃ q ∈ m.taken, q <+: path) ∨
      Nested.view (ours.tree.get path) = Nested.view (theirs.tree.get path) ∨
      Nested.view (theirs.tree.get path) = Nested.view (base.tree.get path)))
    (hconflict : m'.conflicts ≠ [] →
      m.conflicts ≠ [] ∨ Conflicting base.tree ours.tree theirs.tree path) :
    Progress base.tree ours.tree theirs.tree (done ++ [path]) m' where
  isMap := hours ▸ h.isMap
  wf := hours ▸ h.wf
  below := by
    rw [hours, htaken]
    exact h.below
  above := by
    rw [hours, htaken]
    exact h.above
  apart := by
    rw [hours, htaken]
    exact h.apart
  taken_done := by
    rw [htaken]
    exact fun q hq => List.mem_append_left _ (h.taken_done q hq)
  taken_some := htaken ▸ h.taken_some
  taken_base := htaken ▸ h.taken_base
  taken_moved := htaken ▸ h.taken_moved
  antichain := htaken ▸ h.antichain
  decided := by
    intro hnone p hp
    rw [htaken]
    obtain ⟨hbefore, hpath⟩ := hconflicts hnone
    rcases List.mem_append.mp hp with hp | hp
    · exact h.decided hbefore p hp
    · rw [List.mem_singleton.mp hp]
      exact hpath
  conflict := by
    intro hsome
    rcases hconflict hsome with hbefore | hpath
    · obtain ⟨p, hp, hconf⟩ := h.conflict hbefore
      exact ⟨p, List.mem_append_left _ hp, hconf⟩
    · exact ⟨path, List.mem_append_right _ (List.mem_singleton_self _), hpath⟩

/-- A write at a new path leaves what was taken before alone. -/
theorem Progress.get_put_taken (h : Progress base.tree ours.tree theirs.tree done m)
    (hlater : ∀ q ∈ done, q < path) (hbelow : ¬ ∃ q ∈ m.taken, q <+: path) (v : Nested L)
    {q : List String} (hq : q ∈ m.taken) (r : List String) :
    (m.ours.put path v).get (q ++ r) = m.ours.get (q ++ r) := by
  refine Nested.get_put_apart _ _ ?_ ?_
  · exact fun hpre => hbelow ⟨q, hq, (List.prefix_append q r).trans hpre⟩
  · intro hpre
    rcases List.prefix_or_prefix_of_prefix hpre (List.prefix_append q r) with hpq | hqp
    · exact h.not_above hlater hq hpq
    · exact hbelow ⟨q, hq, hqp⟩

/-- After the write, mappings still stand above what was taken before. -/
theorem Progress.put_above_taken (h : Progress base.tree ours.tree theirs.tree done m)
    (hlater : ∀ q ∈ done, q < path) (v : Nested L) {p q : List String} (hq : q ∈ m.taken)
    (hpq : p <+: q) (hne : p ≠ q) :
    ∃ s, (m.ours.put path v).get p = some s ∧ s.IsMap := by
  by_cases hpath : p <+: path
  · refine Nested.get_put_above h.isMap v hpath fun heq => ?_
    exact h.not_above hlater hq (heq ▸ hpq)
  · rw [Nested.get_put_apart _ _ hpath]
    · exact h.above q hq p hpq hne
    · exact fun hpre => h.not_above hlater hq (hpre.trans hpq)

/-- The new path is neither above nor below what was taken before. -/
theorem Progress.antichain_take (h : Progress base.tree ours.tree theirs.tree done m)
    (hlater : ∀ q ∈ done, q < path) (hbelow : ¬ ∃ q ∈ m.taken, q <+: path) :
    ∀ q ∈ m.taken ++ [path], ∀ q' ∈ m.taken ++ [path], q <+: q' → q = q' := by
  intro q hq q' hq' hpre
  rcases List.mem_append.mp hq with hq | hq
  · rcases List.mem_append.mp hq' with hq' | hq'
    · exact h.antichain q hq q' hq' hpre
    · rw [List.mem_singleton.mp hq'] at hpre
      exact absurd ⟨q, hq, hpre⟩ hbelow
  · rw [List.mem_singleton.mp hq] at hpre ⊢
    rcases List.mem_append.mp hq' with hq' | hq'
    · exact absurd hpre (h.not_above hlater hq')
    · exact (List.mem_singleton.mp hq').symm

/-- What holds of the taken paths and of the new one holds of all. -/
theorem forall_mem_taken {P : List String → Prop} {taken : List (List String)}
    (h : ∀ q ∈ taken, P q) (hpath : P path) : ∀ q ∈ taken ++ [path], P q := by
  intro q hq
  rcases List.mem_append.mp hq with hq | hq
  · exact h q hq
  · exact List.mem_singleton.mp hq ▸ hpath

/-- One more path, taken. -/
theorem Progress.take (h : Progress base.tree ours.tree theirs.tree done m)
    (hlater : ∀ q ∈ done, q < path) (hne : path ≠ []) (hbelow : ¬ ∃ q ∈ m.taken, q <+: path)
    {v : Nested L} (hv : theirs.tree.get path = some v)
    (hbase : Nested.view (ours.tree.get path) = Nested.view (base.tree.get path))
    (hmoved : Nested.view (ours.tree.get path) ≠ Nested.view (theirs.tree.get path)) :
    Progress base.tree ours.tree theirs.tree (done ++ [path])
      { m with ours := m.ours.put path v, taken := m.taken ++ [path] } where
  isMap := Nested.put_isMap h.isMap _ _
  wf := h.wf.put (theirs.wf.get hv) _
  below := by
    refine forall_mem_taken (fun q hq r => ?_) fun r => ?_
    · exact (h.get_put_taken hlater hbelow v hq r).trans (h.below q hq r)
    · show (m.ours.put path v).get (path ++ r) = theirs.tree.get (path ++ r)
      rw [Nested.get_put_below h.isMap hne, Nested.get_append, hv]
      rfl
  above := by
    refine forall_mem_taken (fun q hq p => ?_) fun p => ?_
    · exact h.put_above_taken hlater v hq
    · exact Nested.get_put_above h.isMap v
  apart := by
    intro p hp
    have hnew := hp path (List.mem_append_right _ (List.mem_singleton_self _))
    show (m.ours.put path v).get p = ours.tree.get p
    rw [Nested.get_put_apart _ _ hnew.1 hnew.2]
    exact h.apart p fun q hq => hp q (List.mem_append_left _ hq)
  taken_done := forall_mem_taken (fun q hq => List.mem_append_left _ (h.taken_done q hq))
    (List.mem_append_right _ (List.mem_singleton_self _))
  taken_some := forall_mem_taken h.taken_some ⟨v, hv⟩
  taken_base := forall_mem_taken h.taken_base hbase
  taken_moved := forall_mem_taken h.taken_moved hmoved
  antichain := h.antichain_take hlater hbelow
  decided := by
    intro hnone p hp
    rcases List.mem_append.mp hp with hp | hp
    · refine (h.decided hnone p hp).imp_left ?_
      rintro ⟨q, hq, hpre⟩
      exact ⟨q, List.mem_append_left _ hq, hpre⟩
    · refine .inl ⟨path, List.mem_append_right _ (List.mem_singleton_self _), ?_⟩
      rw [List.mem_singleton.mp hp]
  conflict := by
    intro hsome
    obtain ⟨p, hp, hconf⟩ := h.conflict hsome
    exact ⟨p, List.mem_append_left _ hp, hconf⟩

/-- What one path does, and what is known when it reports no conflict. -/
theorem Progress.step [DecidableEq L] (h : Progress base.tree ours.tree theirs.tree done m)
    (hlater : ∀ q ∈ done, q < path) (hne : path ≠ []) :
    Progress base.tree ours.tree theirs.tree (done ++ [path])
      (mergeStep base.tree theirs.tree m path) := by
  by_cases hbelow : ∃ q ∈ m.taken, q <+: path
  · -- the subtree was taken over with a shorter path
    rw [h.step_below hbelow]
    exact h.skip rfl rfl (fun hnone => ⟨hnone, .inl hbelow⟩) .inl
  have hread := h.read_apart hlater hbelow
  have hot : Nested.beqOpt (m.ours.get path) (theirs.tree.get path) = true ↔
      Nested.view (ours.tree.get path) = Nested.view (theirs.tree.get path) := by
    rw [hread, Nested.beqOpt_iff ours.wf theirs.wf]
  have hob : Nested.beqOpt (m.ours.get path) (base.tree.get path) = true ↔
      Nested.view (ours.tree.get path) = Nested.view (base.tree.get path) := by
    rw [hread, Nested.beqOpt_iff ours.wf base.wf]
  unfold mergeStep
  dsimp only
  split
  · rename_i heq
    exact h.skip rfl rfl (fun hnone => ⟨hnone, .inr (.inl (hot.mp heq))⟩) .inl
  · rename_i hneq
    split
    · -- only THEIRS moved
      rename_i v hv heq
      exact h.take hlater hne hbelow hv (hob.mp heq) fun hsame => hneq (hot.mpr hsame)
    · rename_i hnotTaken
      split
      · -- only OURS moved
        rename_i heq
        have htb := (Nested.beqOpt_iff theirs.wf base.wf).mp heq
        exact h.skip rfl rfl (fun hnone => ⟨hnone, .inr (.inr htb)⟩) .inl
      · -- both moved, or THEIRS dropped the path
        rename_i htb
        refine h.skip rfl rfl (fun hnone => absurd hnone (by simp)) fun _ => .inr ?_
        refine ⟨fun hsame => hneq (hot.mpr hsame), ?_, fun hsame => ?_⟩
        · exact fun hsame => htb ((Nested.beqOpt_iff theirs.wf base.wf).mpr hsame)
        · cases hv : theirs.tree.get path with
          | none => rfl
          | some v => exact absurd (hob.mpr hsame) (hnotTaken v hv)

/-- The loop over a sorted list of paths. -/
theorem Progress.run [DecidableEq L] {paths : List (List String)}
    (h : Progress base.tree ours.tree theirs.tree done m) (hsorted : paths.Pairwise (· < ·))
    (hlater : ∀ q ∈ done, ∀ p ∈ paths, q < p) (hne : ∀ p ∈ paths, p ≠ []) :
    Progress base.tree ours.tree theirs.tree (done ++ paths)
      (paths.foldl (mergeStep base.tree theirs.tree) m) := by
  induction paths generalizing done m with
  | nil => simpa using h
  | cons p rest ih =>
    rw [List.pairwise_cons] at hsorted
    have hstep := h.step (fun q hq => hlater q hq p List.mem_cons_self) (hne p List.mem_cons_self)
    have hrest : ∀ q ∈ done ++ [p], ∀ p' ∈ rest, q < p' := by
      intro q hq p' hp'
      rcases List.mem_append.mp hq with hq | hq
      · exact hlater q hq p' (List.mem_cons_of_mem _ hp')
      · exact List.mem_singleton.mp hq ▸ hsorted.1 p' hp'
    have := ih hstep hsorted.2 hrest fun p' hp' => hne p' (List.mem_cons_of_mem _ hp')
    rwa [List.append_assoc] at this

end Progress

/-- The whole merge. -/
theorem merge_progress [DecidableEq L] (base ours theirs : Doc L) :
    Progress base.tree ours.tree theirs.tree (mergePaths base.tree ours.tree theirs.tree)
      (merge base.tree ours.tree theirs.tree) := by
  have hne : ∀ p ∈ mergePaths base.tree ours.tree theirs.tree, p ≠ [] := by
    rintro p hp rfl
    rcases mem_mergePaths.mp hp with h | h | h
    · exact base.not_leafPath_nil h
    · exact ours.not_leafPath_nil h
    · exact theirs.not_leafPath_nil h
  have := (Progress.init base ours theirs).run (mergePaths_sorted _ _ _) (by simp) hne
  rwa [List.nil_append] at this

/-! ## The command -/

/-- What `merge` leaves of OURS, a mapping again. -/
def mergedDoc [DecidableEq L] (base ours theirs : Doc L) : Doc L where
  tree := (merge base.tree ours.tree theirs.tree).ours
  wf := (merge_progress base ours theirs).wf
  isMap := (merge_progress base ours theirs).isMap

/-- `main`: the vendored file afterwards, and the exit code. With conflicts it writes nothing,
whether or not it was asked to. -/
def revendorMain [DecidableEq L] (apply : Bool) (base theirs ours : Doc L) : Doc L × Nat :=
  if (merge base.tree ours.tree theirs.tree).conflicts.isEmpty then
    (if apply then mergedDoc base ours theirs else ours, 0)
  else (ours, 1)

end OpenstackBlueprint.Revendor
