import OpenstackBlueprint.Chart.Selection
import OpenstackBlueprint.Kit.Python

/-!
# `validate-provisioning-preconditions.py`

The gate on `requiresProvisioning`: the flagged components and the declared
preconditions agree, `full` selects all flagged components and `full-strict` none
of them. Both selections are rendered: a probe prints `osh.selected` on a line of
its own, and the words of that line are compared.

The words are the selected names as long as these are words themselves. A name
with a line break cuts the line, and one with white space falls apart, so a
flagged name that is found on the line of `full` is one. The two lines differ in it
only because `full-strict` does not select it (`not_mem_strict_of_accepts`).
-/

namespace OpenstackBlueprint.Gates

open Chart Kit

/-! ## The rendered selection -/

/-- The umbrella with a profile set. -/
def withProfile (top : Top) (profile : Profile) : Top :=
  { top with values := { top.values with profile := profile } }

/-- The marker of the probe. -/
def selectedMarker : String := "#SELECTED "

/-- `selection_for_profile(profile)`; `templated` says whether the umbrella
renders at all. -/
def selectionForProfile (templated : Profile → Bool) (top : Top) (profile : Profile) :
    Option (List String) :=
  if templated profile then
    -- the probe is a template of one line
    let stdout := selectedMarker ++ oshSelected (withProfile top profile) ++ "\n"
    ((splitLines stdout).find? (startsWith selectedMarker)).map fun line =>
      (splitWords line).drop 1
  else none

/-! ## The gate -/

/-- An entry of hack/provisioning-preconditions.yaml. -/
structure Precondition where
  component : Option String
  requires : Option String
  symptom : Option String
  check : Option String
  issue : Option Int

/-- The first key of an entry without a value. -/
def Precondition.missing (e : Precondition) : Option String :=
  let absent := fun s : Option String => s.getD "" == ""
  if absent e.component then some "component"
  else if absent e.requires then some "requires"
  else if absent e.symptom then some "symptom"
  else if absent e.check then some "check"
  else if e.issue.getD 0 == 0 then some "issue"
  else none

/-- The exit at the first entry with a missing key. -/
def missingKey (decl : List Precondition) : Option String :=
  decl.findSome? fun e => e.missing.map fun k =>
    "FAIL: a precondition entry is missing " ++ Json.reprStr k ++ ": " ++
      e.component.getD "<unnamed>"

/-- `flagged`. -/
def flaggedNames (components : List Component) : List String :=
  (components.filter (·.requiresProvisioning)).map (·.name)

/-- The problems with what is declared. -/
def declarationProblems (components : List Component) (declared : List String) : List String :=
  let flagged := flaggedNames components
  let known := components.map (·.name)
  ((sortAlpha flagged).filter fun n => n ∉ declared).map (fun n =>
    n ++ " is flagged requiresProvisioning and has no entry in " ++
      "hack/provisioning-preconditions.yaml. It has been removed from every profile " ++
      "without saying what an operator must provide to use it.") ++
  ((sortAlpha declared).filter fun n => n ∉ flagged).map (fun n =>
    n ++ " has a declared provisioning precondition but is NOT flagged " ++
      "requiresProvisioning, so the profiles still install it. The declaration reads as " ++
      "a warning while the component still ships by default.") ++
  ((sortAlpha declared).filter fun n => n ∉ known).map fun n =>
    n ++ " has a precondition but is not a component of this umbrella"

/-- The problems with what the two profiles select. -/
def selectionProblems (flagged : List String) : Option (List String) → Option (List String) →
    List String
  | some full, some strict =>
    let missingFromFull := (sortAlpha flagged).filter fun n => n ∉ full
    let stillInStrict := (sortAlpha flagged).filter fun n => n ∈ strict
    (if full.isEmpty || strict.isEmpty then
      ["a profile selected NOTHING, so this comparison proves nothing"] else []) ++
    (if missingFromFull.isEmpty then [] else
      ["profile=full does NOT select " ++ String.intercalate ", " missingFromFull ++
        ". `full` is unchanged on purpose: anyone who has provisioned what these need must keep " ++
        "getting them, and removing them from `full` is a behaviour change delivered " ++
        "through a patch release."]) ++
    (if stillInStrict.isEmpty then [] else
      ["profile=full-strict still selects " ++ String.intercalate ", " stillInStrict ++
        " despite the requiresProvisioning flag, so the flag is data that nothing reads"]) ++
    -- `strict >= full` on sets
    (if full.all (strict.contains ·) then
      ["full-strict selects " ++ toString strict.dedup.length ++ " and full selects " ++
        toString full.dedup.length ++ ": full-strict is supposed to be the SMALLER set. " ++
        "If they are equal the distinction has collapsed and one of the two profiles is pointless."]
      else [])
  | _, _ =>
    ["could not render the umbrella for both profiles, so neither half of " ++
      "the contract was verified -- a flag nothing reads selects everything"]

/-- `main`: the exit message, or `problems`. -/
def provisioningGate (templated : Profile → Bool) (decl : List Precondition) (top : Top) :
    Except String (List String) :=
  if top.values.components.isEmpty then
    .error "FAIL: the umbrella declares no components -- nothing was measured"
  else if decl.isEmpty then
    .error ("FAIL: no preconditions declared -- either nothing is excluded from the " ++
      "profiles, in which case remove the flag and this gate, or the declaration " ++
      "has been emptied")
  else
    match missingKey decl with
    | some message => .error message
    | none =>
      .ok (declarationProblems top.values.components (decl.filterMap (·.component)).dedup ++
        selectionProblems (flaggedNames top.values.components)
          (selectionForProfile templated top .full) (selectionForProfile templated top .fullStrict))

/-- The gate ends with OK. -/
def ProvisioningAccepts (templated : Profile → Bool) (decl : List Precondition) (top : Top) :
    Prop :=
  provisioningGate templated decl top = .ok []

/-! ## The words of the printed line -/

section Line

/-- The part of a name before its first line break. -/
def firstLine (s : String) : String :=
  String.ofList (s.toList.takeWhile fun c => !isLineBreak c)

/-- The name breaks no line. -/
def NoBreak (s : String) : Prop := ∀ c ∈ s.toList, isLineBreak c = false

theorem firstLine_of_noBreak {s : String} (h : NoBreak s) : firstLine s = s := by
  unfold firstLine
  rw [List.takeWhile_eq_self_iff.mpr fun c hc => by rw [h c hc]; rfl, String.ofList_toList]

theorem toList_join_cons (n n' : String) (rest : List String) :
    (join ' ' (n :: n' :: rest)).toList = n.toList ++ ' ' :: (join ' ' (n' :: rest)).toList := by
  simp [toList_join, List.intercalate]

/-- After a name that breaks no line the line goes on. -/
theorem firstLine_join_noBreak {n : String} (hn : NoBreak n) (n' : String) (rest : List String) :
    firstLine (join ' ' (n :: n' :: rest)) =
      String.ofList (n.toList ++ ' ' :: (firstLine (join ' ' (n' :: rest))).toList) := by
  unfold firstLine
  rw [toList_join_cons, List.takeWhile_append_of_pos fun c hc => by rw [hn c hc]; rfl,
    List.takeWhile_cons_of_pos (by decide), String.toList_ofList]

/-- A name that breaks the line ends it. -/
theorem firstLine_join_break {n : String} (hn : ¬ NoBreak n) (n' : String) (rest : List String) :
    firstLine (join ' ' (n :: n' :: rest)) = firstLine n := by
  unfold NoBreak at hn
  push Not at hn
  obtain ⟨c, hc, hbreak⟩ := hn
  unfold firstLine
  rw [toList_join_cons, List.takeWhile_append, if_neg]
  intro hlen
  have hself := List.takeWhile_eq_self_iff.mp
    ((List.takeWhile_prefix _).eq_of_length hlen) c hc
  exact hbreak (by simpa using hself)

/-- Some name has a property and all names before it have another: the first name
does, or it has the other and some later name does. -/
theorem exists_first_iff {P Q : String → Prop} {n : String} {rest : List String} :
    (∃ before m after, n :: rest = before ++ m :: after ∧ (∀ x ∈ before, P x) ∧ Q m) ↔
      Q n ∨ P n ∧
        ∃ before m after, rest = before ++ m :: after ∧ (∀ x ∈ before, P x) ∧ Q m := by
  constructor
  · rintro ⟨before, m, after, heq, hbefore, hm⟩
    cases before with
    | nil =>
      obtain ⟨hn, _⟩ := List.cons.inj heq
      exact .inl (hn ▸ hm)
    | cons k before =>
      obtain ⟨hk, hrest⟩ := List.cons.inj heq
      obtain ⟨hP, hbefore⟩ := List.forall_mem_cons.mp hbefore
      exact .inr ⟨hk ▸ hP, before, m, after, hrest, hbefore, hm⟩
  · rintro (hn | ⟨hn, before, m, after, rfl, hbefore, hm⟩)
    · exact ⟨[], n, rest, rfl, by simp, hn⟩
    · exact ⟨n :: before, m, after, rfl, List.forall_mem_cons.mpr ⟨hn, hbefore⟩, hm⟩

/-- The words of the line of a list of names: those of each name up to the first
that breaks the line. -/
theorem mem_splitWords_join {names : List String} {w : String} :
    w ∈ splitWords (firstLine (join ' ' names)) ↔
      ∃ before n after, names = before ++ n :: after ∧ (∀ m ∈ before, NoBreak m) ∧
        w ∈ splitWords (firstLine n) := by
  induction names with
  | nil =>
    constructor
    · intro h
      exact absurd h (by simp [firstLine, join, splitWords, List.intercalate])
    · rintro ⟨before, n, after, heq, _⟩
      cases before <;> cases heq
  | cons n rest ih =>
    rw [exists_first_iff, ← ih]
    cases rest with
    | nil =>
      have hjoin : join ' ' [n] = n := String.toList_inj.mp (by simp [toList_join, List.intercalate])
      have hnil : w ∉ splitWords (firstLine (join ' ' [])) := by
        simp [firstLine, join, splitWords, List.intercalate]
      rw [hjoin]
      exact ⟨.inl, fun h => h.resolve_right fun h => hnil h.2⟩
    | cons n' rest =>
      by_cases hn : NoBreak n
      · rw [firstLine_join_noBreak hn, splitWords_append (by decide), List.mem_append,
          String.ofList_toList, String.ofList_toList, firstLine_of_noBreak hn]
        exact or_congr_right ⟨fun h => ⟨hn, h⟩, fun h => h.2⟩
      · rw [firstLine_join_break hn]
        exact ⟨.inl, fun h => h.resolve_right fun h => hn h.1⟩

/-- With the names sorted, the line holds the words of every name with no breaking
name below it. -/
theorem mem_splitWords_sorted {names : List String} {w : String} :
    w ∈ splitWords (firstLine (join ' ' (sortAlpha names))) ↔
      ∃ n ∈ names, (∀ m ∈ names, m < n → NoBreak m) ∧ w ∈ splitWords (firstLine n) := by
  have hsorted : (sortAlpha names).Pairwise (· ≤ ·) := List.pairwise_insertionSort _ _
  rw [mem_splitWords_join]
  constructor
  · rintro ⟨before, n, after, heq, hbefore, hw⟩
    rw [heq, List.pairwise_append, List.pairwise_cons] at hsorted
    have hmem : ∀ m, m ∈ names ↔ m ∈ before ∨ m = n ∨ m ∈ after := fun m => by
      rw [← mem_sortAlpha, heq, List.mem_append, List.mem_cons]
    refine ⟨n, (hmem n).mpr (.inr (.inl rfl)), fun m hm hlt => ?_, hw⟩
    rcases (hmem m).mp hm with hm | rfl | hm
    · exact hbefore m hm
    · exact absurd hlt (lt_irrefl m)
    · exact absurd hlt (hsorted.2.1.1 m hm).not_gt
  · rintro ⟨n, hn, hbelow, hw⟩
    -- the first occurrence: what stands before it is smaller
    obtain ⟨before, after, heq, hfirst⟩ := List.eq_append_cons_of_mem (mem_sortAlpha.mpr hn)
    refine ⟨before, n, after, heq, fun m hm => ?_, hw⟩
    rw [heq, List.pairwise_append] at hsorted
    have hle : m ≤ n := hsorted.2.2 m hm n List.mem_cons_self
    have hmem : m ∈ names := mem_sortAlpha.mp (heq ▸ List.mem_append_left _ hm)
    exact hbelow m hmem (lt_of_le_of_ne hle fun h => hfirst (h ▸ hm))

/-- The marker's word. -/
def markerWord : List Char := ['#', 'S', 'E', 'L', 'E', 'C', 'T', 'E', 'D']

theorem selectedMarker_toList : selectedMarker.toList = markerWord ++ [' '] := by
  unfold selectedMarker markerWord
  simp

theorem isSpace_of_mem_markerWord : ∀ c ∈ markerWord, isSpace c = false := by
  simp [markerWord, isSpace]

theorem noBreak_of_isSpace {l : List Char} (h : ∀ c ∈ l, isSpace c = false) :
    ∀ c ∈ l, isLineBreak c = false := by
  intro c hc
  cases hbreak : isLineBreak c with
  | false => rfl
  | true => exact absurd (isSpace_of_isLineBreak hbreak) (by simp [h c hc])

/-- A line break ends the first line, wherever the text has ended it before. -/
theorem takeWhile_newline (l : List Char) :
    (l ++ ['\n']).takeWhile (fun c => !isLineBreak c) = l.takeWhile fun c => !isLineBreak c := by
  rw [List.takeWhile_append]
  split
  · rename_i hall
    rw [List.takeWhile_cons_of_neg (by decide), List.append_nil,
      (List.takeWhile_prefix _).eq_of_length hall]
  · rfl

/-- The first line of the probe's output. -/
theorem splitLines_probe (printed : String) :
    ∃ rest, splitLines (selectedMarker ++ printed ++ "\n") =
      String.ofList (markerWord ++ ' ' :: (firstLine printed).toList) :: rest := by
  have hstdout : (selectedMarker ++ printed ++ "\n").toList =
      markerWord ++ ' ' :: (printed.toList ++ ['\n']) := by
    rw [String.toList_append, String.toList_append, selectedMarker_toList]
    simp
  obtain ⟨rest, hrest⟩ := splitLinesFrom_head [] (selectedMarker ++ printed ++ "\n").toList
    (by rw [hstdout]; simp)
  refine ⟨rest, hrest.trans ?_⟩
  have hword : ∀ c ∈ markerWord, (!isLineBreak c) = true := fun c hc => by
    rw [noBreak_of_isSpace isSpace_of_mem_markerWord c hc]
    rfl
  rw [hstdout, List.reverse_nil, List.nil_append, List.takeWhile_append_of_pos hword,
    List.takeWhile_cons_of_pos (by decide), takeWhile_newline, firstLine, String.toList_ofList]

/-- What the probe of a profile answers. -/
theorem mem_selectionForProfile {templated : Profile → Bool} {top : Top} {profile : Profile}
    {words : List String} (h : selectionForProfile templated top profile = some words)
    {w : String} :
    w ∈ words ↔ ∃ n ∈ selectedKeys (withProfile top profile),
      (∀ m ∈ selectedKeys (withProfile top profile), m < n → NoBreak m) ∧
        w ∈ splitWords (firstLine n) := by
  rw [← mem_splitWords_sorted]
  obtain ⟨rest, hrest⟩ := splitLines_probe (oshSelected (withProfile top profile))
  have hstarts : startsWith selectedMarker (String.ofList
      (markerWord ++ ' ' :: (firstLine (oshSelected (withProfile top profile))).toList)) = true := by
    unfold startsWith
    rw [String.toList_ofList, List.isPrefixOf_iff_prefix, selectedMarker_toList]
    exact ⟨_, by simp only [List.append_assoc, List.singleton_append]; rfl⟩
  unfold selectionForProfile at h
  split at h
  · simp only [hrest, List.find?_cons, hstarts, Option.map_some, Option.some.injEq] at h
    rw [splitWords_append (by decide), splitWords_word (by decide) isSpace_of_mem_markerWord,
      String.ofList_toList, List.singleton_append, List.drop_succ_cons, List.drop_zero] at h
    rw [← h]
    rfl
  · cases h

end Line

/-! ## What the gate decides -/

theorem mem_selectedKeys_withProfile {top : Top} (hempty : top.values.enabled = [])
    {profile : Profile} {n : String} :
    n ∈ selectedKeys (withProfile top profile) ↔
      ∃ c ∈ top.values.components, profile.selects c = true ∧ c.name = n :=
  @mem_selectedKeys_of_profile (withProfile top profile) hempty n

/-- With no problem, both profiles were rendered, and every flagged name is on the
line of `full` and not on that of `full-strict`. -/
theorem selections_of_accepts {templated : Profile → Bool} {decl : List Precondition} {top : Top}
    (h : ProvisioningAccepts templated decl top) :
    ∃ full strict, selectionForProfile templated top .full = some full ∧
      selectionForProfile templated top .fullStrict = some strict ∧
      ∀ n ∈ flaggedNames top.values.components, n ∈ full ∧ n ∉ strict := by
  unfold ProvisioningAccepts provisioningGate at h
  split at h
  · cases h
  split at h
  · cases h
  split at h
  · cases h
  have hproblems := (List.append_eq_nil_iff.mp (Except.ok.inj h)).2
  cases hfull : selectionForProfile templated top .full with
  | none =>
    rw [hfull] at hproblems
    cases hproblems
  | some full =>
    cases hstrict : selectionForProfile templated top .fullStrict with
    | none =>
      rw [hfull, hstrict] at hproblems
      cases hproblems
    | some strict =>
      refine ⟨full, strict, rfl, rfl, fun n hn => ?_⟩
      rw [hfull, hstrict] at hproblems
      simp only [selectionProblems, List.append_eq_nil_iff, ite_eq_left_iff, List.cons_ne_nil,
        imp_false, not_not, List.isEmpty_iff, List.filter_eq_nil_iff] at hproblems
      obtain ⟨⟨⟨_, hmissing⟩, hstill⟩, _⟩ := hproblems
      -- the missing and the remaining names are filters of the sorted flags
      have hsorted : n ∈ sortAlpha (flaggedNames top.values.components) := mem_sortAlpha.mpr hn
      exact ⟨by simpa using hmissing n hsorted, by simpa using hstill n hsorted⟩

/-- What puts a name on the line of `full` and not on that of `full-strict` is that
`full-strict` does not select it. -/
theorem not_mem_strict_of_accepts {templated : Profile → Bool} {decl : List Precondition}
    {top : Top} (hempty : top.values.enabled = []) (h : ProvisioningAccepts templated decl top)
    {n : String} (hn : n ∈ flaggedNames top.values.components) :
    n ∉ selectedKeys (withProfile top .fullStrict) := by
  intro hstrictKey
  obtain ⟨full, strict, hfull, hstrict, hflagged⟩ := selections_of_accepts h
  obtain ⟨owner, howner, hbelow, hword⟩ := (mem_selectionForProfile hfull).mp (hflagged n hn).1
  by_cases hkept : owner ∈ selectedKeys (withProfile top .fullStrict)
  · -- `full-strict` prints the same name, and fewer names below it
    refine (hflagged n hn).2 ((mem_selectionForProfile hstrict).mpr ⟨owner, hkept, ?_, hword⟩)
    intro m hm
    refine hbelow m ?_
    obtain ⟨c, hc, _, hname⟩ := (mem_selectedKeys_withProfile hempty).mp hm
    exact (mem_selectedKeys_withProfile hempty).mpr ⟨c, hc, rfl, hname⟩
  · -- the name that prints it is flagged as well, so it is a word and prints only itself
    obtain ⟨c, hc, _, rfl⟩ := (mem_selectedKeys_withProfile hempty).mp howner
    have hflag : c.requiresProvisioning = true := by
      by_contra hflag
      refine hkept ((mem_selectedKeys_withProfile hempty).mpr ⟨c, hc, ?_, rfl⟩)
      simp [Profile.selects, Bool.eq_false_of_not_eq_true hflag]
    have hownerFlagged : c.name ∈ flaggedNames top.values.components :=
      List.mem_map.mpr ⟨c, List.mem_filter.mpr ⟨hc, hflag⟩, rfl⟩
    obtain ⟨_, _, _, hownerWord⟩ := (mem_selectionForProfile hfull).mp (hflagged _ hownerFlagged).1
    obtain ⟨hne, hspaces⟩ := word_of_mem_splitWords hownerWord
    have honly : splitWords c.name = [c.name] := by
      have := splitWords_word hne hspaces
      rwa [String.ofList_toList] at this
    rw [firstLine_of_noBreak (noBreak_of_isSpace hspaces), honly, List.mem_singleton] at hword
    exact hkept (hword ▸ hstrictKey)

/-- No flagged component is of the identity tier. -/
theorem tier_ne_identity_of_accepts {templated : Profile → Bool} {decl : List Precondition}
    {top : Top} (hempty : top.values.enabled = []) (h : ProvisioningAccepts templated decl top)
    {c : Component} (hc : c ∈ top.values.components) (hflag : c.requiresProvisioning = true) :
    c.tier ≠ .identity := by
  intro htier
  refine not_mem_strict_of_accepts hempty h
    (List.mem_map.mpr ⟨c, List.mem_filter.mpr ⟨hc, hflag⟩, rfl⟩) ?_
  refine (mem_selectedKeys_withProfile hempty).mpr ⟨c, hc, ?_, rfl⟩
  simp [Profile.selects, htier]

end OpenstackBlueprint.Gates
