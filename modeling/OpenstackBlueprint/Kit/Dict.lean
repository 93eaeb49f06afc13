import Mathlib

/-!
# Python dicts

The gates are Python and keep their tables in dicts. A dict has one entry for
each key, in insertion order; setting a key that is present replaces its value
in place. The structure carries the uniqueness of its keys.
-/

namespace OpenstackBlueprint.Kit

/-- Removing a key changes no other lookup. -/
theorem lookup_filter_ne {ν : Type*} {fields : List (String × ν)} {k k' : String} (h : k' ≠ k) :
    (fields.filter fun f => f.1 != k).lookup k' = fields.lookup k' := by
  induction fields with
  | nil => rfl
  | cons f rest ih =>
    obtain ⟨name, value⟩ := f
    by_cases hname : name = k
    · subst hname
      rw [List.filter_cons_of_neg (by simp), ih, List.lookup_cons, beq_false_of_ne h]
    · rw [List.filter_cons_of_pos (by simpa using hname), List.lookup_cons, List.lookup_cons, ih]

/-- A dict: entries in insertion order, one for each key. -/
structure Dict (κ ν : Type*) where
  entries : List (κ × ν)
  nodup : (entries.map Prod.fst).Nodup

namespace Dict

variable {κ ν μ : Type*}

instance [DecidableEq κ] [DecidableEq ν] : DecidableEq (Dict κ ν) := fun a b =>
  decidable_of_iff (a.entries = b.entries)
    ⟨fun h => by cases a; cases b; simpa using h, fun h => h ▸ rfl⟩

/-- The keys, in insertion order. -/
def keys (d : Dict κ ν) : List κ := d.entries.map Prod.fst

/-- The values, in insertion order. -/
def values (d : Dict κ ν) : List ν := d.entries.map Prod.snd

/-- The empty dict. -/
def empty : Dict κ ν := ⟨[], List.nodup_nil⟩

variable [DecidableEq κ]

/-- `d.get(k)`. -/
def get? (d : Dict κ ν) (k : κ) : Option ν :=
  (d.entries.find? fun e => e.1 = k).map Prod.snd

/-- The entries after `d[k] = v`. -/
def setEntries (entries : List (κ × ν)) (k : κ) (v : ν) : List (κ × ν) :=
  if k ∈ entries.map Prod.fst then entries.map fun e => if e.1 = k then (k, v) else e
  else entries ++ [(k, v)]

theorem map_fst_setEntries (entries : List (κ × ν)) (k : κ) (v : ν) :
    (setEntries entries k v).map Prod.fst =
      if k ∈ entries.map Prod.fst then entries.map Prod.fst
      else entries.map Prod.fst ++ [k] := by
  unfold setEntries
  split
  · rw [List.map_map]
    refine List.map_congr_left fun e _ => ?_
    by_cases he : e.1 = k
    · simp [he]
    · simp [he]
  · simp

/-- `d[k] = v`. -/
def set (d : Dict κ ν) (k : κ) (v : ν) : Dict κ ν where
  entries := setEntries d.entries k v
  nodup := by
    rw [map_fst_setEntries]
    split
    · exact d.nodup
    · rename_i h
      rw [List.nodup_append]
      refine ⟨d.nodup, List.nodup_singleton k, ?_⟩
      rintro a ha b hb rfl
      exact h (List.mem_singleton.mp hb ▸ ha)

/-- `d.setdefault(k, v)`. -/
def setdefault (d : Dict κ ν) (k : κ) (v : ν) : Dict κ ν :=
  if k ∈ d.keys then d else d.set k v

/-- The same keys with other values. -/
def mapValues (f : κ → ν → μ) (d : Dict κ ν) : Dict κ μ where
  entries := d.entries.map fun e => (e.1, f e.1 e.2)
  nodup := by
    rw [List.map_map]
    exact d.nodup

/-- `{k: v for k, v in l}`. -/
def ofList (l : List (κ × ν)) : Dict κ ν :=
  l.foldl (fun d e => d.set e.1 e.2) empty

/-! ## Lookups -/

theorem get?_mapValues (f : κ → ν → μ) (d : Dict κ ν) (k : κ) :
    (d.mapValues f).get? k = (d.get? k).map (f k) := by
  unfold get? mapValues
  rw [List.find?_map, Option.map_map, Option.map_map]
  refine Option.map_congr ?_
  intro e he
  have hkey := List.find?_some he
  simp only [Function.comp_apply, decide_eq_true_eq] at hkey ⊢
  rw [hkey]

/-- Replacing the value of a key changes no other key. -/
theorem lookup_replace_ne {ν : Type*} (entries : List (String × ν)) {k k' : String} (v : ν)
    (hk : k' ≠ k) :
    (entries.map fun e => if e.1 = k then (k, v) else e).lookup k' = entries.lookup k' := by
  induction entries with
  | nil => rfl
  | cons e rest ih =>
    obtain ⟨name, value⟩ := e
    rw [List.map_cons, List.lookup_cons, List.lookup_cons, ih]
    by_cases hname : name = k
    · have hbeq : (k' == k) = false := by simpa using hk
      simp [hname, hbeq]
    · simp [hname]

/-- A key that is present has its new value after it is replaced. -/
theorem lookup_replace_self {ν : Type*} {entries : List (String × ν)} {k : String} (v : ν)
    (hmem : k ∈ entries.map Prod.fst) :
    (entries.map fun e => if e.1 = k then (k, v) else e).lookup k = some v := by
  induction entries with
  | nil => exact absurd hmem List.not_mem_nil
  | cons e rest ih =>
    obtain ⟨name, value⟩ := e
    rw [List.map_cons, List.lookup_cons]
    by_cases hname : name = k
    · simp [hname]
    · have hrest : k ∈ rest.map Prod.fst :=
        (List.mem_cons.mp hmem).resolve_left fun h => hname h.symm
      have hbeq : (k == name) = false := by simpa using Ne.symm hname
      simp only [hname, if_false, hbeq]
      exact ih hrest

/-- Setting a key gives it the value and changes no other lookup. -/
theorem lookup_setEntries {ν : Type*} (entries : List (String × ν)) (k k' : String) (v : ν) :
    (setEntries entries k v).lookup k' = if k' = k then some v else entries.lookup k' := by
  unfold setEntries
  by_cases hk : k' = k
  · subst hk
    rw [if_pos rfl]
    split
    · rename_i hmem
      exact lookup_replace_self v hmem
    · rename_i hmem
      have hnone : entries.lookup k' = none := by
        rw [List.lookup_eq_none_iff]
        intro e he
        refine bne_iff_ne.mpr fun heq => hmem ?_
        exact List.mem_map.mpr ⟨e, he, heq.symm⟩
      rw [List.lookup_append, hnone]
      simp
  · rw [if_neg hk]
    split
    · exact lookup_replace_ne entries v hk
    · have hbeq : (k' == k) = false := by simpa using hk
      rw [List.lookup_append]
      simp [List.lookup_cons, hbeq]

theorem mem_setEntries_ne {entries : List (κ × ν)} {k : κ} {v : ν} {e : κ × ν} (h : e.1 ≠ k) :
    e ∈ setEntries entries k v ↔ e ∈ entries := by
  have hne : e ≠ (k, v) := fun heq => h (congrArg Prod.fst heq)
  unfold setEntries
  split
  · rw [List.mem_map]
    constructor
    · rintro ⟨e', he', heq⟩
      split at heq
      · exact absurd heq.symm hne
      · exact heq ▸ he'
    · intro he
      exact ⟨e, he, if_neg h⟩
  · rw [List.mem_append, List.mem_singleton]
    exact or_iff_left hne

theorem mem_entries_of_get? {d : Dict κ ν} {k : κ} {v : ν} (h : d.get? k = some v) :
    (k, v) ∈ d.entries := by
  obtain ⟨e, he, rfl⟩ := Option.map_eq_some_iff.mp h
  have hk : e.1 = k := by simpa using List.find?_some he
  subst hk
  exact List.mem_of_find?_eq_some he

theorem get?_of_mem_entries {d : Dict κ ν} {k : κ} {v : ν} (h : (k, v) ∈ d.entries) :
    d.get? k = some v := by
  obtain ⟨entries, nodup⟩ := d
  unfold get?
  dsimp only at h ⊢
  induction entries with
  | nil => exact absurd h List.not_mem_nil
  | cons e rest ih =>
    rw [List.map_cons, List.nodup_cons] at nodup
    rw [List.find?_cons]
    rcases List.mem_cons.mp h with rfl | hrest
    · simp
    · have hne : e.1 ≠ k := fun heq => nodup.1 (heq ▸ List.mem_map.mpr ⟨_, hrest, rfl⟩)
      simpa [hne] using ih nodup.2 hrest

/-- Lookup and membership agree. -/
theorem get?_eq_some_iff {d : Dict κ ν} {k : κ} {v : ν} :
    d.get? k = some v ↔ (k, v) ∈ d.entries :=
  ⟨mem_entries_of_get?, get?_of_mem_entries⟩

theorem get?_eq_none_iff {d : Dict κ ν} {k : κ} : d.get? k = none ↔ k ∉ d.keys := by
  unfold get? keys
  rw [Option.map_eq_none_iff, List.find?_eq_none, List.mem_map]
  constructor
  · rintro h ⟨e, he, rfl⟩
    exact h e he (by simp)
  · intro h e he heq
    exact h ⟨e, he, by simpa using heq⟩

theorem get?_eq_lookup {ν : Type*} (d : Dict String ν) (k : String) :
    d.get? k = d.entries.lookup k := by
  unfold get?
  induction d.entries with
  | nil => rfl
  | cons e entries ih =>
    rw [List.find?_cons, List.lookup_cons]
    by_cases hk : e.1 = k
    · simp [hk]
    · rw [beq_false_of_ne (Ne.symm hk), ← ih]
      simp [hk]

@[simp] theorem get?_empty (k : κ) : (empty : Dict κ ν).get? k = none := rfl

@[simp] theorem mem_keys_set {d : Dict κ ν} {k k' : κ} {v : ν} :
    k' ∈ (d.set k v).keys ↔ k' ∈ d.keys ∨ k' = k := by
  unfold keys set
  rw [map_fst_setEntries]
  split
  · rename_i h
    constructor
    · exact .inl
    · rintro (h' | rfl)
      · exact h'
      · exact h
  · simp

theorem mem_entries_set {d : Dict κ ν} {k k' : κ} {v v' : ν} :
    (k', v') ∈ (d.set k v).entries ↔ (k' = k ∧ v' = v) ∨ (k' ≠ k ∧ (k', v') ∈ d.entries) := by
  unfold set setEntries
  dsimp only
  by_cases h : k ∈ d.entries.map Prod.fst
  · rw [if_pos h, List.mem_map]
    constructor
    · rintro ⟨e, he, heq⟩
      by_cases hk : e.1 = k
      · rw [if_pos hk, Prod.mk.injEq] at heq
        exact .inl ⟨heq.1.symm, heq.2.symm⟩
      · rw [if_neg hk] at heq
        subst heq
        exact .inr ⟨hk, he⟩
    · rintro (⟨rfl, rfl⟩ | ⟨hk, he⟩)
      · obtain ⟨e, he, hek⟩ := List.mem_map.mp h
        exact ⟨e, he, by rw [if_pos hek]⟩
      · exact ⟨_, he, by rw [if_neg hk]⟩
  · rw [if_neg h, List.mem_append, List.mem_singleton, Prod.mk.injEq]
    constructor
    · rintro (he | heq)
      · refine .inr ⟨?_, he⟩
        rintro rfl
        exact h (List.mem_map.mpr ⟨_, he, rfl⟩)
      · exact .inl heq
    · rintro (heq | ⟨_, he⟩)
      · exact .inr heq
      · exact .inl he

/-- A set key answers its new value, every other key what it did. -/
theorem get?_set (d : Dict κ ν) (k k' : κ) (v : ν) :
    (d.set k v).get? k' = if k' = k then some v else d.get? k' := by
  refine Option.ext fun v' => ?_
  rw [get?_eq_some_iff, mem_entries_set]
  split
  · rename_i h
    simp [h, eq_comm]
  · rename_i h
    simp [h, get?_eq_some_iff]

/-- A key set by default has its old value, or it had none. -/
theorem get?_setdefault {d : Dict κ ν} {k k' : κ} {v v' : ν}
    (h : (d.setdefault k v).get? k' = some v') :
    d.get? k' = some v' ∨ (k' = k ∧ v' = v) := by
  unfold setdefault at h
  split at h
  · exact .inl h
  · rw [get?_set] at h
    split at h
    · rename_i hk
      exact .inr ⟨hk, (Option.some.inj h).symm⟩
    · exact .inl h

theorem mem_keys_setdefault {d : Dict κ ν} {k k' : κ} {v : ν} :
    k' ∈ (d.setdefault k v).keys ↔ k' ∈ d.keys ∨ k' = k := by
  unfold setdefault
  split
  · next h =>
    refine ⟨.inl, ?_⟩
    rintro (h' | rfl)
    · exact h'
    · exact h
  · exact mem_keys_set

/-- A new key makes the dict one longer. -/
theorem length_set {d : Dict κ ν} {k : κ} {v : ν} (h : k ∉ d.keys) :
    (d.set k v).entries.length = d.entries.length + 1 := by
  have hentries : (d.set k v).entries = d.entries ++ [(k, v)] := if_neg h
  rw [hentries, List.length_append, List.length_singleton]

/-- The dict of a list answers the last pair of a key. -/
theorem get?_ofList_eq_last (l : List (κ × ν)) (k : κ) :
    (ofList l).get? k = (l.reverse.find? fun e => e.1 = k).map Prod.snd := by
  induction l using List.reverseRecOn with
  | nil => rfl
  | append_singleton l e ih =>
    have hfold : ofList (l ++ [e]) = (ofList l).set e.1 e.2 := by
      unfold ofList
      rw [List.foldl_append]
      rfl
    rw [hfold, get?_set, ih, List.reverse_append, List.reverse_singleton, List.singleton_append,
      List.find?_cons]
    by_cases hk : e.1 = k
    · simp [hk]
    · simp [hk, Ne.symm hk]

/-- When no key occurs twice, the dict of a list holds the list's pairs. -/
theorem get?_ofList {l : List (κ × ν)} (hnodup : (l.map Prod.fst).Nodup) {k : κ} {v : ν} :
    (ofList l).get? k = some v ↔ (k, v) ∈ l := by
  have hfold : ∀ (l : List (κ × ν)) (d : Dict κ ν), (l.map Prod.fst).Nodup →
      ((l.foldl (fun d e => d.set e.1 e.2) d).get? k = some v ↔
        (k, v) ∈ l ∨ k ∉ l.map Prod.fst ∧ d.get? k = some v) := by
    intro l
    induction l with
    | nil => simp
    | cons e rest ih =>
      intro d hnd
      rw [List.map_cons, List.nodup_cons] at hnd
      rw [List.foldl_cons, ih _ hnd.2, get?_set]
      by_cases hk : k = e.1
      · subst hk
        have hrest : (e.1, v) ∉ rest := fun h => hnd.1 (List.mem_map.mpr ⟨_, h, rfl⟩)
        simp only [hrest, hnd.1, not_false_eq_true, if_true, Option.some.injEq, true_and,
          false_or, List.mem_cons, List.map_cons, not_true, false_and, or_false]
        constructor
        · rintro rfl
          rfl
        · intro h
          exact (Prod.ext_iff.mp h).2.symm
      · have hne : (k, v) ≠ e := fun h => hk (Prod.ext_iff.mp h).1
        simp [hk, hne]
  simpa [ofList] using hfold l empty hnodup

theorem mem_keys_ofList {l : List (κ × ν)} {k : κ} : k ∈ (ofList l).keys ↔ k ∈ l.map Prod.fst := by
  rw [← not_iff_not, ← get?_eq_none_iff, get?_ofList_eq_last]
  simp only [Option.map_eq_none_iff, List.find?_eq_none, List.mem_reverse, decide_eq_true_eq,
    List.mem_map, not_exists, not_and]

/-- What the dict of a list holds is one of its pairs. -/
theorem mem_of_mem_entries_ofList {l : List (κ × ν)} {e : κ × ν} (h : e ∈ (ofList l).entries) :
    e ∈ l := by
  have hget := get?_of_mem_entries (show (e.1, e.2) ∈ (ofList l).entries from h)
  rw [get?_ofList_eq_last] at hget
  obtain ⟨e', he', hvalue⟩ := Option.map_eq_some_iff.mp hget
  have hkey : e'.1 = e.1 := by simpa using List.find?_some he'
  rw [← Prod.ext hkey hvalue]
  exact List.mem_reverse.mp (List.mem_of_find?_eq_some he')

/-- The keys are in the order in which the list has them first. -/
theorem find?_keys_ofList (l : List (κ × ν)) (p : κ → Bool) :
    (ofList l).keys.find? p = (l.map Prod.fst).find? p := by
  induction l using List.reverseRecOn with
  | nil => rfl
  | append_singleton l e ih =>
    have hkeys : (ofList (l ++ [e])).keys =
        if e.1 ∈ (ofList l).keys then (ofList l).keys else (ofList l).keys ++ [e.1] := by
      unfold ofList
      rw [List.foldl_append]
      exact map_fst_setEntries _ _ _
    rw [hkeys, List.map_append, List.find?_append, ← ih]
    split
    · rename_i hmem
      cases hfind : (ofList l).keys.find? p with
      | some k => rfl
      | none =>
        have hfalse := List.find?_eq_none.mp hfind e.1 hmem
        simp [hfalse]
    · rw [List.find?_append]
      rfl

/-- `a == b`, whatever the order of the keys. -/
def same [DecidableEq ν] (a b : Dict κ ν) : Bool :=
  a.entries.length == b.entries.length && a.entries.all fun e => b.get? e.1 == some e.2

omit [DecidableEq κ] in
theorem nodup_entries (d : Dict κ ν) : d.entries.Nodup := d.nodup.of_map Prod.fst

/-- Dicts with the same lookups hold the same entries. -/
theorem perm_entries_iff {a b : Dict κ ν} :
    a.entries.Perm b.entries ↔ ∀ k, a.get? k = b.get? k := by
  rw [List.perm_ext_iff_of_nodup a.nodup_entries b.nodup_entries]
  constructor
  · intro h k
    refine Option.ext fun v => ?_
    rw [get?_eq_some_iff, get?_eq_some_iff]
    exact h (k, v)
  · intro h e
    rw [← get?_eq_some_iff, h e.1, get?_eq_some_iff]

theorem same_iff [DecidableEq ν] {a b : Dict κ ν} :
    a.same b = true ↔ ∀ k, a.get? k = b.get? k := by
  unfold same
  rw [← perm_entries_iff, Bool.and_eq_true, beq_iff_eq, List.all_eq_true]
  constructor
  · rintro ⟨hlength, hall⟩
    have hsubset : a.entries ⊆ b.entries := by
      intro e he
      exact get?_eq_some_iff.mp (eq_of_beq (hall e he))
    exact (List.subperm_of_subset a.nodup_entries hsubset).perm_of_length_le hlength.ge
  · intro h
    refine ⟨h.length_eq, fun e he => beq_iff_eq.mpr ?_⟩
    exact get?_eq_some_iff.mpr (h.mem_iff.mp he)

end Dict

/-! ## Sorted items -/

/-- `sorted(d.items())`. The keys are distinct, so no values are compared. -/
def sortedItems {ν : Type} (d : Dict String ν) : List (String × ν) :=
  d.entries.insertionSort fun a b => a.1 ≤ b.1

theorem mem_sortedItems {ν : Type} {d : Dict String ν} {e : String × ν} :
    e ∈ sortedItems d ↔ d.get? e.1 = some e.2 := by
  unfold sortedItems
  rw [List.mem_insertionSort, Dict.get?_eq_some_iff]

/-- Dicts with the same lookups have the same sorted items. -/
theorem sortedItems_eq_iff {ν : Type} {a b : Dict String ν} :
    sortedItems a = sortedItems b ↔ ∀ k, a.get? k = b.get? k := by
  constructor
  · intro h k
    refine Option.ext fun v => ?_
    rw [← mem_sortedItems (e := (k, v)), ← mem_sortedItems (e := (k, v)), h]
  · intro h
    have hsorted : ∀ d : Dict String ν, (sortedItems d).Pairwise fun x y => x.1 ≤ y.1 :=
      fun _ => List.pairwise_insertionSort _ _
    refine List.Perm.eq_of_pairwise ?_ (hsorted a) (hsorted b) ?_
    · intro x y hx hy hxy hyx
      have hkey : x.1 = y.1 := le_antisymm hxy hyx
      rw [mem_sortedItems, h] at hx
      rw [mem_sortedItems, ← hkey, hx] at hy
      exact Prod.ext hkey (Option.some.inj hy)
    · unfold sortedItems
      exact ((List.perm_insertionSort _ _).trans (Dict.perm_entries_iff.mpr h)).trans
        (List.perm_insertionSort _ _).symm

end OpenstackBlueprint.Kit
