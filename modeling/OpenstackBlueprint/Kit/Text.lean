import Mathlib

/-!
# Text and list functions of the template language

The functions a Helm template calls on strings and lists, with the behaviour
the Sprig library documents for them. Strings are split and joined on one
character; `splitList` of the empty string is the list of the empty string,
as `strings.Split` has it.

A list that travels as one string (`join " "` on one side, `splitList " "` on
the other) comes back unchanged exactly when no member holds the separator and
the list is not empty: `splitList_join`. The two membership lemmas below it say
what survives without that assumption.
-/

namespace OpenstackBlueprint.Kit

/-! ## Splitting and joining -/

/-- `splitList sep s`: the pieces of `s` between occurrences of `sep`. -/
def splitList (sep : Char) (s : String) : List String :=
  (s.toList.splitOn sep).map String.ofList

/-- `join sep l`. -/
def join (sep : Char) (l : List String) : String :=
  String.ofList ([sep].intercalate (l.map String.toList))

/-- `replace old new s` for one character. -/
def replace (old new : Char) (s : String) : String :=
  String.ofList (s.toList.map fun c => if c == old then new else c)

/-- `trimPrefix p s` for a prefix of one character. -/
def trimPrefix (p : Char) (s : String) : String :=
  match s.toList with
  | c :: rest => if c == p then String.ofList rest else s
  | [] => s

/-- `hasSuffix c s` for a suffix of one character. -/
def hasSuffix (c : Char) (s : String) : Bool :=
  s.toList.getLast? == some c

/-- `trimSuffix c s` for a suffix of one character. -/
def trimSuffix (c : Char) (s : String) : String :=
  if hasSuffix c s then String.ofList s.toList.dropLast else s

/-- `compact l`: the non-empty members. -/
def compact (l : List String) : List String :=
  l.filter fun s => !(s == "")

/-- `uniq l`: the first occurrence of every member. -/
def uniq (l : List String) : List String :=
  l.foldl (fun acc s => if s ∈ acc then acc else acc ++ [s]) []

/-- `sortAlpha l`. -/
def sortAlpha (l : List String) : List String :=
  l.insertionSort (· ≤ ·)

/-- `default d s` on strings: `d` when `s` is empty. -/
def orDefault (d s : String) : String :=
  if s == "" then d else s

theorem hasSuffix_concat (c d : Char) (cs : List Char) :
    hasSuffix c (String.ofList (cs ++ [d])) = (d == c) := by
  simp [hasSuffix]

theorem trimSuffix_concat (c : Char) (cs : List Char) :
    trimSuffix c (String.ofList (cs ++ [c])) = String.ofList cs := by
  unfold trimSuffix
  rw [hasSuffix_concat, if_pos (beq_self_eq_true c)]
  simp

theorem toList_join (sep : Char) (l : List String) :
    (join sep l).toList = [sep].intercalate (l.map String.toList) := by
  simp [join]

/-- No piece of a split holds the separator. -/
theorem not_mem_of_mem_splitOn {sep : Char} {cs : List Char} :
    ∀ piece ∈ cs.splitOn sep, sep ∉ piece := by
  induction cs with
  | nil => simp
  | cons c cs ih =>
    intro piece hpiece
    rw [List.splitOn_cons_eq_if_modifyHead] at hpiece
    split at hpiece
    · rcases List.mem_cons.mp hpiece with rfl | h
      · simp
      · exact ih piece h
    · rename_i hne
      cases hsplit : cs.splitOn sep with
      | nil => exact absurd hsplit (List.splitOn_ne_nil _ _)
      | cons first rest =>
        rw [hsplit] at hpiece ih
        rcases List.mem_cons.mp hpiece with rfl | h
        · intro hmem
          rcases List.mem_cons.mp hmem with rfl | hmem
          · simp at hne
          · exact ih first List.mem_cons_self hmem
        · exact ih piece (List.mem_cons_of_mem _ h)

theorem not_mem_of_mem_splitList {sep : Char} {s piece : String}
    (h : piece ∈ splitList sep s) : sep ∉ piece.toList := by
  obtain ⟨cs, hcs, rfl⟩ := List.mem_map.mp h
  simpa using not_mem_of_mem_splitOn cs hcs

theorem splitList_of_not_mem {sep : Char} {s : String} (h : sep ∉ s.toList) :
    splitList sep s = [s] := by
  simp [splitList, List.splitOn_eq_singleton h]

/-- Splitting undoes joining up to splitting each member. -/
theorem splitList_join_eq_flatMap {sep : Char} {l : List String} (hne : l ≠ []) :
    splitList sep (join sep l) = l.flatMap (splitList sep) := by
  induction l with
  | nil => exact absurd rfl hne
  | cons s rest ih =>
    cases rest with
    | nil => simp [splitList, toList_join, List.intercalate]
    | cons t rest =>
      have hjoin : (join sep (s :: t :: rest)).toList
          = s.toList ++ sep :: (join sep (t :: rest)).toList := by
        simp [toList_join, List.intercalate]
      rw [List.flatMap_cons, ← ih (List.cons_ne_nil _ _)]
      unfold splitList
      rw [hjoin, List.splitOn_append_cons_self, List.map_append]

/-- The string encoding of a list is faithful on separator-free lists. -/
theorem splitList_join {sep : Char} {l : List String} (hne : l ≠ [])
    (hfree : ∀ s ∈ l, sep ∉ s.toList) : splitList sep (join sep l) = l := by
  rw [splitList_join_eq_flatMap hne]
  clear hne
  induction l with
  | nil => rfl
  | cons s rest ih =>
    rw [List.flatMap_cons, splitList_of_not_mem (hfree s List.mem_cons_self),
      ih fun t ht => hfree t (List.mem_cons_of_mem _ ht)]
    rfl

/-- A separator-free member always survives the encoding. -/
theorem mem_splitList_join {sep : Char} {l : List String} {s : String} (hs : s ∈ l)
    (hfree : sep ∉ s.toList) : s ∈ splitList sep (join sep l) := by
  rw [splitList_join_eq_flatMap (List.ne_nil_of_mem hs)]
  exact List.mem_flatMap.mpr ⟨s, hs, by simp [splitList_of_not_mem hfree]⟩

/-- What the encoding of a non-empty list yields is a piece of some member. -/
theorem exists_of_mem_splitList_join {sep : Char} {l : List String} {piece : String}
    (hne : l ≠ []) (h : piece ∈ splitList sep (join sep l)) :
    ∃ s ∈ l, piece ∈ splitList sep s := by
  rw [splitList_join_eq_flatMap hne] at h
  exact List.mem_flatMap.mp h

/-- A list of words without the separator comes back, the empty list too. -/
theorem compact_splitList_join {sep : Char} {l : List String} (hfree : ∀ s ∈ l, sep ∉ s.toList)
    (hword : ∀ s ∈ l, s ≠ "") : compact (splitList sep (join sep l)) = l := by
  cases l with
  | nil => rfl
  | cons s rest =>
    rw [splitList_join (List.cons_ne_nil _ _) hfree]
    refine List.filter_eq_self.mpr fun t ht => ?_
    simpa using hword t ht

/-! ## Names that do not occur -/

@[simp] theorem mem_compact {l : List String} {s : String} :
    s ∈ compact l ↔ s ∈ l ∧ s ≠ "" := by
  simp [compact]

@[simp] theorem mem_sortAlpha {l : List String} {s : String} :
    s ∈ sortAlpha l ↔ s ∈ l := by
  simp [sortAlpha]

theorem mem_foldl_uniq {l acc : List String} {s : String} :
    s ∈ l.foldl (fun acc s => if s ∈ acc then acc else acc ++ [s]) acc
      ↔ s ∈ acc ∨ s ∈ l := by
  induction l generalizing acc with
  | nil => simp
  | cons t rest ih =>
    rw [List.foldl_cons, ih, List.mem_cons]
    by_cases ht : t ∈ acc
    · rw [if_pos ht]
      constructor
      · rintro (h | h)
        · exact .inl h
        · exact .inr (.inr h)
      · rintro (h | rfl | h)
        · exact .inl h
        · exact .inl ht
        · exact .inr h
    · rw [if_neg ht, List.mem_append, List.mem_singleton, or_assoc]

@[simp] theorem mem_uniq {l : List String} {s : String} : s ∈ uniq l ↔ s ∈ l := by
  simp [uniq, mem_foldl_uniq]

theorem nodup_foldl_uniq {l acc : List String} (h : acc.Nodup) :
    (l.foldl (fun acc s => if s ∈ acc then acc else acc ++ [s]) acc).Nodup := by
  induction l generalizing acc with
  | nil => exact h
  | cons t rest ih =>
    rw [List.foldl_cons]
    split
    · exact ih h
    · rename_i ht
      refine ih (List.Nodup.append h (List.nodup_singleton t) ?_)
      intro s hs hst
      exact ht (List.mem_singleton.mp hst ▸ hs)

theorem nodup_uniq (l : List String) : (uniq l).Nodup := nodup_foldl_uniq List.nodup_nil

theorem nodup_sortAlpha {l : List String} (h : l.Nodup) : (sortAlpha l).Nodup :=
  (List.perm_insertionSort _ l).nodup_iff.mpr h

end OpenstackBlueprint.Kit
