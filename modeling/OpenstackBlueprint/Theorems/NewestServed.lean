import OpenstackBlueprint.Chart.Versions

/-!
# The newest served version

`osh.servedVersion` keeps the current version and the newest other version seen
so far in two variables. The scan's invariant (`NewestScan`) bounds the second
one by every release scanned, and what bounds them all and is one of them is
their greatest. Nothing in that depends on the order of the lists, so the answer
does not either.

A release is given by its three numbers. Its name is printed without leading
zeros, which makes the name determine the numbers.
-/

namespace OpenstackBlueprint.Theorems.NewestServed

open Kit Chart

/-! ## Release names -/

/-- The numbers of a release, ordered lexicographically. -/
abbrev Release := ℕ ×ₗ ℕ ×ₗ ℕ

/-- The release `vX-Y-Z`. -/
def release (x y z : Nat) : Release := toLex (x, toLex (y, z))

/-- `vX-Y-Z`, without leading zeros. -/
def Release.name (r : Release) : String :=
  "v" ++ join '-' [toString (ofLex r).1, toString (ofLex (ofLex r).2).1,
    toString (ofLex (ofLex r).2).2]

section Names

variable {r r' : Release}

theorem Release.exists_eq (r : Release) : ∃ x y z, r = release x y z :=
  ⟨_, _, _, rfl⟩

/-- The digits of a number are digits. -/
theorem isDigits_toDigits (n : Nat) : isDigits (Nat.toDigits 10 n) = true := by
  unfold isDigits
  rw [Bool.and_eq_true, List.all_eq_true]
  refine ⟨by simp [Nat.toDigits_ne_nil], fun c hc => ?_⟩
  exact Nat.isDigit_of_mem_toDigits (by omega) (by omega) hc

theorem digitsValue_toDigits (n : Nat) : digitsValue (Nat.toDigits 10 n) = n :=
  Nat.ofDigitChars_ten_toDigits

theorem not_mem_toDigits {c : Char} (hc : c.isDigit = false) (n : Nat) :
    c ∉ Nat.toDigits 10 n := by
  intro hmem
  rw [Nat.isDigit_of_mem_toDigits (by omega) (by omega) hmem] at hc
  cases hc

/-- Splitting the joined digits gives them back. -/
theorem splitOn_joined {sep : Char} (hsep : sep.isDigit = false) (x y z : Nat) :
    ([sep].intercalate [Nat.toDigits 10 x, Nat.toDigits 10 y, Nat.toDigits 10 z]).splitOn sep =
      [Nat.toDigits 10 x, Nat.toDigits 10 y, Nat.toDigits 10 z] := by
  refine List.splitOn_intercalate _ ?_ (List.cons_ne_nil _ _)
  simp only [List.forall_mem_cons]
  exact ⟨not_mem_toDigits hsep x, not_mem_toDigits hsep y, not_mem_toDigits hsep z,
    List.forall_mem_nil _⟩

theorem toList_name (x y z : Nat) : (release x y z).name.toList =
    'v' :: ['-'].intercalate [Nat.toDigits 10 x, Nat.toDigits 10 y, Nat.toDigits 10 z] := by
  unfold Release.name
  rw [String.toList_append, toList_join]
  simp [release]

theorem isRelease_name (r : Release) : isRelease r.name = true := by
  obtain ⟨x, y, z, rfl⟩ := r.exists_eq
  unfold isRelease
  simp only [toList_name, splitOn_joined (rfl : '-'.isDigit = false), isDigits_toDigits,
    Bool.and_self]

/-- The numbers `semverCompare` reads out of a release name. -/
theorem semverParts_name (x y z : Nat) :
    semverParts (replace '-' '.' (trimPrefix 'v' (release x y z).name)) = [x, y, z] := by
  have htrim : trimPrefix 'v' (release x y z).name =
      String.ofList (['-'].intercalate [Nat.toDigits 10 x, Nat.toDigits 10 y,
        Nat.toDigits 10 z]) := by
    unfold trimPrefix
    rw [toList_name]
    rfl
  have hkeep : ∀ n, (Nat.toDigits 10 n).map (fun c => if c = '-' then '.' else c) =
      Nat.toDigits 10 n := by
    intro n
    refine (List.map_congr_left fun c hc => if_neg ?_).trans (List.map_id' _)
    rintro rfl
    exact not_mem_toDigits rfl n hc
  have hdots : (replace '-' '.' (trimPrefix 'v' (release x y z).name)).toList =
      ['.'].intercalate [Nat.toDigits 10 x, Nat.toDigits 10 y, Nat.toDigits 10 z] := by
    rw [htrim]
    unfold replace
    simp [List.intercalate, hkeep]
  unfold semverParts
  rw [hdots, splitOn_joined rfl]
  simp [digitsValue_toDigits]

theorem name_injective (h : r.name = r'.name) : r = r' := by
  obtain ⟨x, y, z, rfl⟩ := r.exists_eq
  obtain ⟨x', y', z', rfl⟩ := r'.exists_eq
  have hparts := semverParts_name x y z
  rw [h, semverParts_name] at hparts
  cases hparts
  rfl

/-- Between releases, newer is greater. -/
theorem newer_name_iff : oshNewerVersion r.name r'.name ≠ "" ↔ r' < r := by
  obtain ⟨x, y, z, rfl⟩ := r.exists_eq
  obtain ⟨x', y', z', rfl⟩ := r'.exists_eq
  unfold oshNewerVersion semverCompareGt
  rw [if_pos (isRelease_name _), isRelease_name, semverParts_name, semverParts_name]
  have horder : [x', y', z'] < [x, y, z] ↔ release x' y' z' < release x y z := by
    simp [release, List.cons_lt_cons_iff, Prod.Lex.toLex_lt_toLex]
  by_cases hlt : release x' y' z' < release x y z
  · simp [horder.mpr hlt, hlt]
  · simp [mt horder.mp hlt, hlt]

/-- A release is newer than what is no release. -/
theorem newer_of_not_release {n : String} (hn : isRelease n = false) :
    oshNewerVersion r.name n ≠ "" := by
  unfold oshNewerVersion
  rw [if_pos (isRelease_name r), hn]
  simp

/-- What is newer than something is a release. -/
theorem isRelease_of_newer {a b : String} (h : oshNewerVersion a b ≠ "") : isRelease a = true := by
  unfold oshNewerVersion at h
  by_contra hnot
  exact h (if_neg hnot)

end Names

/-! ## The scan -/

/-- Every release in the list is written without leading zeros. -/
def PlainReleases (names : List String) : Prop :=
  ∀ n ∈ names, isRelease n = true → ∃ r : Release, n = r.name

/-- After the current version was seen it is remembered, and `$found` is a
release as new as every other release seen. -/
structure NewestScan (current : String) (scanned : List String) (acc : String × String) :
    Prop where
  preferred : current ∈ scanned → acc.1 = current
  newest : ∀ r : Release, r.name ∈ scanned → r.name ≠ current →
    ∃ r' : Release, acc.2 = r'.name ∧ r ≤ r'

section Scan

variable {current : String} {scanned : List String} {acc : String × String}

theorem NewestScan.step (h : NewestScan current scanned acc)
    (hfound : acc.2 = "" ∨ acc.2 ∈ scanned) {name : String}
    (hplain : PlainReleases (scanned ++ [name])) :
    NewestScan current (scanned ++ [name]) (servedStep current acc name) := by
  unfold servedStep
  by_cases hcur : name = current
  · -- the current version goes to `$preferred`, and `$found` stays
    subst hcur
    rw [if_pos (beq_self_eq_true _)]
    refine ⟨fun _ => rfl, fun r hr hne => ?_⟩
    rcases List.mem_append.mp hr with hr | hr
    · exact h.newest r hr hne
    · exact absurd (List.mem_singleton.mp hr) hne
  · rw [if_neg (by simpa using hcur)]
    have hpref : current ∈ scanned ++ [name] → acc.1 = current := by
      intro hmem
      rcases List.mem_append.mp hmem with hmem | hmem
      · exact h.preferred hmem
      · exact absurd (List.mem_singleton.mp hmem).symm hcur
    split
    · rename_i htake
      rw [Bool.or_eq_true, beq_iff_eq, Bool.not_eq_true', beq_eq_false_iff_ne] at htake
      refine ⟨hpref, fun r hr hne => ?_⟩
      rcases List.mem_append.mp hr with hr | hr
      · -- what was newest before is not empty, so the new name is newer
        obtain ⟨r', hr', hle⟩ := h.newest r hr hne
        have hnewer : oshNewerVersion name r'.name ≠ "" := by
          rw [← hr']
          refine htake.resolve_left fun hempty => ?_
          have hrel := isRelease_name r'
          rw [← hr', hempty] at hrel
          cases hrel
        obtain ⟨r'', rfl⟩ := hplain name (by simp) (isRelease_of_newer hnewer)
        exact ⟨r'', rfl, hle.trans (newer_name_iff.mp hnewer).le⟩
      · exact ⟨r, (List.mem_singleton.mp hr).symm, le_rfl⟩
    · rename_i hkeep
      rw [Bool.or_eq_true, beq_iff_eq, Bool.not_eq_true', beq_eq_false_iff_ne, not_or,
        not_not] at hkeep
      refine ⟨hpref, fun r hr hne => ?_⟩
      rcases List.mem_append.mp hr with hr | hr
      · exact h.newest r hr hne
      · -- a release that was not taken over is not newer than a release
        obtain rfl := List.mem_singleton.mp hr
        have hrel : isRelease acc.2 = true := by
          by_contra hnot
          exact newer_of_not_release (by simpa using hnot) hkeep.2
        obtain ⟨r', hr'⟩ := hplain acc.2
          (List.mem_append_left _ (hfound.resolve_left hkeep.1)) hrel
        refine ⟨r', hr', not_lt.mp fun hlt => newer_name_iff.mpr hlt ?_⟩
        rw [← hr']
        exact hkeep.2

theorem NewestScan.run {names : List String} (h : NewestScan current scanned acc)
    (hscan : ServedScan current scanned acc) (hplain : PlainReleases (scanned ++ names)) :
    NewestScan current (scanned ++ names) (names.foldl (servedStep current) acc) := by
  induction names generalizing scanned acc with
  | nil => simpa using h
  | cons name rest ih =>
    have happend : scanned ++ name :: rest = scanned ++ [name] ++ rest := by simp
    rw [happend] at hplain ⊢
    refine ih (h.step hscan.found fun n hn => hplain n ?_) (hscan.step name) hplain
    exact List.mem_append_left _ hn

end Scan

/-! ## The answer -/

section Answer

variable {kind current : String} {crds : List Crd}

/-- The scan over the whole list. -/
theorem newestScan (hplain : PlainReleases (servedNames crds kind)) :
    NewestScan current (servedNames crds kind)
      ((servedNames crds kind).foldl (servedStep current) ("", "")) := by
  have hstart : NewestScan current [] ("", "") := ⟨by simp, by simp⟩
  have hscan : ServedScan current [] ("", "") := ⟨.inl rfl, .inl rfl, by simp⟩
  simpa using hstart.run hscan (by simpa using hplain)

/-- The current version when it is served. -/
theorem oshServedVersion_current (hplain : PlainReleases (servedNames crds kind))
    (hserves : Serves crds kind current) (hname : current ≠ "") :
    oshServedVersion kind current crds = current := by
  rw [oshServedVersion_eq, (newestScan hplain).preferred (mem_servedNames.mpr hserves)]
  unfold orDefault
  rw [if_neg (by simpa using hname)]

/-- `$preferred` stays empty while the current version is not served. -/
theorem oshServedVersion_found (hnot : ¬ Serves crds kind current) :
    oshServedVersion kind current crds =
      ((servedNames crds kind).foldl (servedStep current) ("", "")).2 := by
  rw [oshServedVersion_eq]
  have hpref := (servedScan kind current crds).preferred.resolve_right fun h =>
    hnot (mem_servedNames.mp h.2)
  unfold orDefault
  rw [hpref]
  rfl

/-- The greatest served release when the current version is not served. -/
theorem oshServedVersion_newest (hplain : PlainReleases (servedNames crds kind))
    (hnot : ¬ Serves crds kind current) {r : Release} (hr : Serves crds kind r.name) :
    ∃ best : Release, oshServedVersion kind current crds = best.name ∧
      Serves crds kind best.name ∧ ∀ r' : Release, Serves crds kind r'.name → r' ≤ best := by
  have hscan : NewestScan current (servedNames crds kind)
      ((servedNames crds kind).foldl (servedStep current) ("", "")) := newestScan hplain
  have hne : ∀ r' : Release, Serves crds kind r'.name → r'.name ≠ current :=
    fun r' hr' heq => hnot (heq ▸ hr')
  obtain ⟨best, hbest, _⟩ := hscan.newest r (mem_servedNames.mpr hr) (hne r hr)
  have hanswer : oshServedVersion kind current crds = best.name :=
    (oshServedVersion_found hnot).trans hbest
  refine ⟨best, hanswer, ?_, fun r' hr' => ?_⟩
  · rw [← hanswer]
    refine serves_oshServedVersion fun hempty => ?_
    have hrel := isRelease_name best
    rw [← hanswer, hempty] at hrel
    cases hrel
  · obtain ⟨best', hbest', hle⟩ := hscan.newest r' (mem_servedNames.mpr hr') (hne r' hr')
    rwa [name_injective (hbest'.symm.trans hbest)] at hle

/-- The same CRDs in another order, each with its versions in another order. -/
def Reordered (crds crds' : List Crd) : Prop :=
  ∃ moved, crds.Perm moved ∧ List.Forall₂
    (fun a b : Crd => a.group = b.group ∧ a.kind = b.kind ∧ a.versions.Perm b.versions) moved crds'

theorem serves_iff_of_reordered {crds' : List Crd} (h : Reordered crds crds') (n : String) :
    Serves crds kind n ↔ Serves crds' kind n := by
  obtain ⟨moved, hperm, hall⟩ := h
  have hmoved : Serves crds kind n ↔ Serves moved kind n := by
    unfold Serves
    simp only [hperm.mem_iff]
  rw [hmoved]
  clear hmoved hperm
  induction hall with
  | nil => rfl
  | @cons a b moved crds' hab _ ih =>
    obtain ⟨hgroup, hkind, hversions⟩ := hab
    unfold Serves at ih ⊢
    simp only [List.exists_mem_cons_iff, ih, hgroup, hkind, hversions.mem_iff]

/-- The answer depends on what is served, not on where it stands. -/
theorem oshServedVersion_congr {crds' : List Crd}
    (hplain : PlainReleases (servedNames crds kind))
    (hname : Serves crds kind current → current ≠ "")
    (hsame : ∀ n, Serves crds kind n ↔ Serves crds' kind n)
    (hsome : Serves crds kind current ∨ ∃ r : Release, Serves crds kind r.name) :
    oshServedVersion kind current crds' = oshServedVersion kind current crds := by
  have hplain' : PlainReleases (servedNames crds' kind) := fun n hn =>
    hplain n (mem_servedNames.mpr ((hsame n).mpr (mem_servedNames.mp hn)))
  by_cases hcur : Serves crds kind current
  · rw [oshServedVersion_current hplain hcur (hname hcur),
      oshServedVersion_current hplain' ((hsame current).mp hcur) (hname hcur)]
  · -- both answers are the greatest of the same releases
    obtain ⟨r, hr⟩ := hsome.resolve_left hcur
    obtain ⟨best, hbest, hserves, hmax⟩ := oshServedVersion_newest hplain hcur hr
    obtain ⟨best', hbest', hserves', hmax'⟩ := oshServedVersion_newest hplain'
      (fun h => hcur ((hsame current).mpr h)) ((hsame _).mp hr)
    have heq : best' = best := le_antisymm (hmax best' ((hsame _).mpr hserves'))
      (hmax' best ((hsame _).mp hserves))
    rw [hbest, hbest', heq]

end Answer

/-- `osh.servedVersion` answers the current version when it is served, else the
greatest served release, else some served name, and nothing when nothing is
served. With the current version or a release served, the order of the lists
does not matter. -/
theorem served_version_newest (kind current : String) (crds : List Crd)
    (hnames : ∀ n, Serves crds kind n → n ≠ "")
    (hzeros : ∀ n, Serves crds kind n → isRelease n = true → ∃ r : Release, n = r.name) :
    (Serves crds kind current → oshServedVersion kind current crds = current) ∧
    (¬ Serves crds kind current → (∃ r : Release, Serves crds kind r.name) →
      ∃ best : Release, oshServedVersion kind current crds = best.name ∧
        Serves crds kind best.name ∧ ∀ r : Release, Serves crds kind r.name → r ≤ best) ∧
    ((∃ n, Serves crds kind n) → Serves crds kind (oshServedVersion kind current crds)) ∧
    (oshServedVersion kind current crds = "" ↔ ∀ n, ¬ Serves crds kind n) ∧
    (Serves crds kind current ∨ (∃ r : Release, Serves crds kind r.name) →
      ∀ crds', Reordered crds crds' →
        oshServedVersion kind current crds' = oshServedVersion kind current crds) := by
  have hplain : PlainReleases (servedNames crds kind) := fun n hn =>
    hzeros n (mem_servedNames.mp hn)
  have hanswers : ∀ n, Serves crds kind n → oshServedVersion kind current crds ≠ "" :=
    fun n hn => oshServedVersion_ne_empty hn (hnames n hn)
  refine ⟨fun hcur => ?_, fun hnot ⟨r, hr⟩ => ?_, fun ⟨n, hn⟩ => ?_, ⟨fun hempty n hn => ?_, ?_⟩,
    fun hsome crds' hreordered => ?_⟩
  · exact oshServedVersion_current hplain hcur (hnames current hcur)
  · exact oshServedVersion_newest hplain hnot hr
  · exact serves_oshServedVersion (hanswers n hn)
  · exact hanswers n hn hempty
  · intro hnone
    by_contra hne
    exact hnone _ (serves_oshServedVersion hne)
  · exact oshServedVersion_congr hplain (hnames current)
      (serves_iff_of_reordered hreordered) hsome

/-- A CRD that serves two releases and a name that is none. -/
def mariadbCrds : List Crd :=
  [⟨compositionGroup, "Mariadb", [⟨"v0-3-9", true⟩, ⟨"vacuum", true⟩, ⟨"v0-3-32", true⟩]⟩]

theorem serves_mariadbCrds {n : String} :
    Serves mariadbCrds "Mariadb" n ↔ n = "v0-3-9" ∨ n = "vacuum" ∨ n = "v0-3-32" := by
  rw [← mem_servedNames]
  simp [servedNames, mariadbCrds]

/-- `v0-3-32` is newer than `v0-3-9`, although it is smaller as a string. -/
theorem mariadb_newest :
    ∃ best : Release, oshServedVersion "Mariadb" "v0-3-33" mariadbCrds = best.name ∧
      release 0 3 9 ≤ best := by
  obtain ⟨_, hnewest, _⟩ := served_version_newest "Mariadb" "v0-3-33" mariadbCrds
    (fun n hn => by
      rcases serves_mariadbCrds.mp hn with rfl | rfl | rfl
      · decide
      · decide
      · decide)
    (fun n hn hrel => by
      rcases serves_mariadbCrds.mp hn with rfl | rfl | rfl
      · exact ⟨release 0 3 9, by rfl⟩
      · exact absurd hrel (by decide)
      · exact ⟨release 0 3 32, by rfl⟩)
  have hnine : Serves mariadbCrds "Mariadb" (release 0 3 9).name :=
    serves_mariadbCrds.mpr (.inl rfl)
  obtain ⟨best, hbest, _, hmax⟩ := hnewest
    (fun h => by simpa using serves_mariadbCrds.mp h) ⟨release 0 3 9, hnine⟩
  exact ⟨best, hbest, hmax _ hnine⟩

end OpenstackBlueprint.Theorems.NewestServed
