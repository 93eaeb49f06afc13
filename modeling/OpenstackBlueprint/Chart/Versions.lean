import OpenstackBlueprint.Chart.Data

/-!
# Version helpers (`_helpers.tpl`)

The helpers that decide which version of a component's CRD the chart talks to,
as pure functions of the CRD list. A template answers a string; `"true"` and
`""` stand for yes and no.

`oshServedVersion` scans every version of every CRD of the kind with two
accumulators. `servedNames` is the flat list it scans, and `oshServedVersion_eq`
reduces the nested `range` to one fold over it; everything else about the
helper is proved on that fold.
-/

namespace OpenstackBlueprint.Chart

open Kit

/-! ## Version names -/

/-- `osh.version`: the version this chart is, `v0-3-28` for `0.3.28`. -/
def oshVersion (top : Top) : String :=
  "v" ++ replace '.' '-' top.values.chartVersion

/-- `osh.apiVersionAt`: the group/version at an explicit version. -/
def oshApiVersionAt (version : String) : String :=
  compositionGroup ++ "/" ++ version

theorem oshVersion_ne_empty (top : Top) : oshVersion top ≠ "" := by
  intro h
  have := congrArg String.toList h
  simp [oshVersion] at this

/-- A non-empty run of decimal digits. -/
def isDigits (cs : List Char) : Bool :=
  !cs.isEmpty && cs.all Char.isDigit

/-- `regexMatch "^v[0-9]+-[0-9]+-[0-9]+$"`. -/
def isRelease (s : String) : Bool :=
  match s.toList with
  | 'v' :: rest =>
    match rest.splitOn '-' with
    | [x, y, z] => isDigits x && isDigits y && isDigits z
    | _ => false
  | _ => false

/-- The value of a run of decimal digits. -/
def digitsValue (cs : List Char) : Nat :=
  cs.foldl (fun n c => 10 * n + (c.toNat - '0'.toNat)) 0

/-- The three numbers of `X.Y.Z`. -/
def semverParts (s : String) : List Nat :=
  (s.toList.splitOn '.').map digitsValue

/-- `semverCompare (printf ">%s" b) a` on three-part numeric versions, which it
orders numerically. -/
def semverCompareGt (b a : String) : Bool :=
  decide (semverParts b < semverParts a)

/-- `osh.newerVersion`: a release is newer than anything that is not one, and
releases are ordered by number. -/
def oshNewerVersion (a b : String) : String :=
  if isRelease a then
    if !isRelease b then "true"
    else if semverCompareGt (replace '-' '.' (trimPrefix 'v' b))
        (replace '-' '.' (trimPrefix 'v' a)) then "true"
    else ""
  else ""

/-! ## Scanning the CRD list -/

/-- The body of the inner `range` of `osh.servedVersion`: what one served
version does to `$preferred` and `$found`. -/
def servedStep (current : String) (acc : String × String) (name : String) : String × String :=
  if name == current then (name, acc.2)
  -- the first name is found even when it is no release
  else if acc.2 == "" || !(oshNewerVersion name acc.2 == "") then (acc.1, name)
  else acc

/-- `osh.servedVersion`: `current` when it is served, otherwise the newest
served version, `""` when the kind has none. -/
def oshServedVersion (kind current : String) (crds : List Crd) : String :=
  let acc := crds.foldl (fun acc crd =>
    if crd.group == compositionGroup && crd.kind == kind then
      crd.versions.foldl (fun acc v => if v.served then servedStep current acc v.name else acc) acc
    else acc) ("", "")
  -- `$preferred | default $found`
  orDefault acc.2 acc.1

/-- `osh.crdExists`: `"true"` when a CRD of the kind serves the version. -/
def oshCrdExists (kind version : String) (crds : List Crd) : String :=
  crds.foldl (fun found crd =>
    if crd.group == compositionGroup && crd.kind == kind then
      crd.versions.foldl (fun found v =>
        if v.name == version && v.served then "true" else found) found
    else found) ""

/-- The version names a kind's CRDs serve, in list order. -/
def servedNames (crds : List Crd) (kind : String) : List String :=
  crds.flatMap fun crd =>
    if crd.group == compositionGroup && crd.kind == kind then
      (crd.versions.filter (·.served)).map (·.name)
    else []

theorem mem_servedNames {crds : List Crd} {kind version : String} :
    version ∈ servedNames crds kind ↔ Serves crds kind version := by
  unfold servedNames Serves
  rw [List.mem_flatMap]
  refine exists_congr fun crd => and_congr_right fun _ => ?_
  by_cases h : crd.group = compositionGroup ∧ crd.kind = kind
  · simp only [h.1, h.2, beq_self_eq_true, Bool.and_self, if_true, List.mem_map,
      List.mem_filter, true_and]
    refine exists_congr fun v => ?_
    rw [and_assoc, and_comm (a := v.served = true)]
  · rw [if_neg (by simpa using h)]
    constructor
    · intro hmem
      simp at hmem
    · rintro ⟨hgroup, hkind, _⟩
      exact absurd ⟨hgroup, hkind⟩ h

/-- A fold that looks at a CRD's versions only when the CRD is the kind's and
at a version only when it is served is a fold over the served names. -/
theorem foldl_servedNames {α : Type*} (f : α → String → α) (crds : List Crd) (kind : String)
    (a : α) :
    crds.foldl (fun acc crd =>
      if crd.group == compositionGroup && crd.kind == kind then
        crd.versions.foldl (fun acc v => if v.served then f acc v.name else acc) acc
      else acc) a = (servedNames crds kind).foldl f a := by
  unfold servedNames
  rw [List.foldl_flatMap]
  congr 1
  funext acc crd
  split
  · rw [List.foldl_map, List.foldl_filter]
  · rfl

theorem oshServedVersion_eq (kind current : String) (crds : List Crd) :
    oshServedVersion kind current crds =
      orDefault ((servedNames crds kind).foldl (servedStep current) ("", "")).2
        ((servedNames crds kind).foldl (servedStep current) ("", "")).1 := by
  unfold oshServedVersion
  rw [foldl_servedNames]

theorem oshCrdExists_eq (kind version : String) (crds : List Crd) :
    oshCrdExists kind version crds =
      (servedNames crds kind).foldl (fun found n => if n == version then "true" else found) "" := by
  unfold oshCrdExists
  rw [← foldl_servedNames]
  congr 1
  funext found crd
  split
  · congr 1
    funext found v
    cases v.served <;> simp
  · rfl

theorem foldl_flag {α : Type*} (p : α → Bool) (l : List α) (init : String)
    (hinit : init = "true" ∨ init = "") :
    (l.foldl (fun found a => if p a then "true" else found) init = "true"
        ↔ init = "true" ∨ ∃ a ∈ l, p a = true) ∧
      (l.foldl (fun found a => if p a then "true" else found) init = "true" ∨
        l.foldl (fun found a => if p a then "true" else found) init = "") := by
  induction l generalizing init with
  | nil => simp [hinit]
  | cons a l ih =>
    rw [List.foldl_cons]
    cases ha : p a with
    | true =>
      obtain ⟨hiff, hval⟩ := ih "true" (.inl rfl)
      refine ⟨?_, hval⟩
      simp only [if_true]
      rw [hiff]
      simp [ha]
    | false =>
      obtain ⟨hiff, hval⟩ := ih init hinit
      refine ⟨?_, hval⟩
      simp only [Bool.false_eq_true, if_false]
      rw [hiff]
      simp [ha]

/-- `osh.crdExists` answers `"true"` exactly when the version is served. -/
@[simp] theorem oshCrdExists_eq_true {kind version : String} {crds : List Crd} :
    oshCrdExists kind version crds = "true" ↔ Serves crds kind version := by
  rw [oshCrdExists_eq,
    (foldl_flag (fun n => n == version) (servedNames crds kind) "" (.inr rfl)).1,
    ← mem_servedNames]
  simp

/-! ## What `osh.servedVersion` answers -/

/-- Invariant of the scan: each accumulator is empty or a name already
scanned, `$preferred` only ever holds `current`, and a name other than the
empty one and `current` leaves `$found` non-empty. -/
structure ServedScan (current : String) (scanned : List String) (acc : String × String) :
    Prop where
  preferred : acc.1 = "" ∨ acc.1 = current ∧ current ∈ scanned
  found : acc.2 = "" ∨ acc.2 ∈ scanned
  complete : ∀ n ∈ scanned, n ≠ "" → (n = current ∧ acc.1 = current) ∨ acc.2 ≠ ""

theorem ServedScan.step {current : String} {scanned : List String} {acc : String × String}
    (h : ServedScan current scanned acc) (name : String) :
    ServedScan current (scanned ++ [name]) (servedStep current acc name) := by
  unfold servedStep
  by_cases hcur : name = current
  · subst hcur
    simp only [beq_self_eq_true, if_true]
    refine ⟨.inr ⟨rfl, by simp⟩, h.found.imp id (by simp; tauto), ?_⟩
    intro n hn hne
    rcases List.mem_append.mp hn with hn | hn
    · rcases h.complete n hn hne with ⟨rfl, _⟩ | hf
      · exact .inl ⟨rfl, rfl⟩
      · exact .inr hf
    · exact .inl ⟨List.mem_singleton.mp hn, rfl⟩
  · have hbeq : (name == current) = false := by simpa using hcur
    rw [hbeq]
    simp only [Bool.false_eq_true, if_false]
    have hpref : acc.1 = "" ∨ acc.1 = current ∧ current ∈ scanned ++ [name] :=
      h.preferred.imp id fun hp => ⟨hp.1, by simp [hp.2]⟩
    split
    · rename_i htake
      refine ⟨hpref, .inr (by simp), ?_⟩
      intro n hn hne
      rcases List.mem_append.mp hn with hn | hn
      · rcases h.complete n hn hne with hc | hf
        · exact .inl hc
        · -- a non-empty `$found` is replaced only by a newer name, which is a release
          refine .inr fun hname => ?_
          have hnew : oshNewerVersion name acc.2 = "" := by
            rw [show name = "" from hname]
            rfl
          simp [hnew, hf] at htake
      · exact .inr (by rw [List.mem_singleton.mp hn] at hne; exact hne)
    · rename_i hkeep
      refine ⟨hpref, h.found.imp id (by simp; tauto), ?_⟩
      intro n hn hne
      rcases List.mem_append.mp hn with hn | hn
      · exact h.complete n hn hne
      · refine .inr fun hempty => hkeep ?_
        simp [hempty]

theorem ServedScan.run {current : String} (l scanned : List String) (acc : String × String)
    (h : ServedScan current scanned acc) :
    ServedScan current (scanned ++ l) (l.foldl (servedStep current) acc) := by
  induction l generalizing scanned acc with
  | nil => simpa using h
  | cons n l ih =>
    have := ih (scanned ++ [n]) (servedStep current acc n) (h.step n)
    simpa using this

theorem servedScan (kind current : String) (crds : List Crd) :
    ServedScan current (servedNames crds kind)
      ((servedNames crds kind).foldl (servedStep current) ("", "")) := by
  have h0 : ServedScan current [] ("", "") := ⟨.inl rfl, .inl rfl, by simp⟩
  simpa using h0.run (servedNames crds kind)

/-- What `osh.servedVersion` answers, when it answers, is served. -/
theorem serves_oshServedVersion {kind current : String} {crds : List Crd}
    (h : oshServedVersion kind current crds ≠ "") :
    Serves crds kind (oshServedVersion kind current crds) := by
  rw [← mem_servedNames]
  rw [oshServedVersion_eq] at h ⊢
  have hs := servedScan kind current crds
  unfold orDefault at h ⊢
  split at h
  · rename_i hp
    rw [if_pos hp]
    exact hs.found.resolve_left h
  · rename_i hp
    rw [if_neg hp]
    rcases hs.preferred with he | ⟨he, hmem⟩
    · exact absurd he h
    · rw [he]
      exact hmem

/-- `osh.servedVersion` answers as soon as the kind serves any version with a
name. -/
theorem oshServedVersion_ne_empty {kind current version : String} {crds : List Crd}
    (hserves : Serves crds kind version) (hname : version ≠ "") :
    oshServedVersion kind current crds ≠ "" := by
  rw [oshServedVersion_eq]
  have hs := servedScan kind current crds
  unfold orDefault
  split
  · rename_i hp
    rw [beq_iff_eq] at hp
    rcases hs.complete version (mem_servedNames.mpr hserves) hname with ⟨rfl, hcur⟩ | hf
    · exact absurd (hcur.symm.trans hp) hname
    · exact hf
  · rename_i hp
    simpa using hp

/-! ## Choosing the version to emit at -/

/-- `osh.pinVersion`: the origin while it is served, otherwise the current
version. -/
def oshPinVersion (current origin kind : String) (crds : List Crd) : String :=
  if !(origin == "") && !(origin == current) && oshCrdExists kind origin crds == "true" then origin
  else current

/-- `osh.resolveVersion`: the pin, except for a live object whose pin is not
served; that one is emitted at a served version. -/
def oshResolveVersion (current origin exist kind : String) (crds : List Crd) : String :=
  let pinned := oshPinVersion current origin kind crds
  let served := oshServedVersion kind current crds
  if exist == "true" && !(served == "") && !(oshCrdExists kind pinned crds == "true") then served
  else pinned

/-- The invariant the emission gate depends on: for an object that exists, the
answer is a version the cluster serves. -/
theorem serves_oshResolveVersion {current origin kind : String} {crds : List Crd}
    (hserved : oshServedVersion kind current crds ≠ "") :
    Serves crds kind (oshResolveVersion current origin "true" kind crds) := by
  unfold oshResolveVersion
  by_cases hpin : oshCrdExists kind (oshPinVersion current origin kind crds) crds = "true"
  · simpa [hpin] using oshCrdExists_eq_true.mp hpin
  · simpa [hpin, hserved] using serves_oshServedVersion hserved

/-- An object without an origin that does not exist keeps the current
version. -/
theorem oshResolveVersion_absent (current kind : String) (crds : List Crd) :
    oshResolveVersion current "" "" kind crds = current := by
  simp [oshResolveVersion, oshPinVersion]

end OpenstackBlueprint.Chart
