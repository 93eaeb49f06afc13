import OpenstackBlueprint.Kit.Dict

/-!
# Nested mappings

A value is a leaf or a mapping with string keys; a path is a list of keys. The
paths are read with `get` and written with `put`, and two values are equal as
Python compares dicts: the same keys, in any order, with equal values.

* `WF`: no mapping holds a key twice.
* `get_put_below`, `get_put_apart`, `get_put_above`: what a write does to a read
  at, apart from, and above the written path.
* `beq_iff_shape`: values are equal exactly when they have the same shape at
  every path. Everything about equality is derived from that.
-/

namespace OpenstackBlueprint.Kit

/-- A nested mapping with leaves in `L`. -/
inductive Nested (L : Type)
  | leaf (v : L)
  | map (entries : List (String × Nested L))

namespace Nested

variable {L : Type}

/-! ## Reading -/

/-- The value at a path; `none` when there is none. -/
def get : Nested L → List String → Option (Nested L)
  | t, [] => some t
  | leaf _, _ :: _ => none
  | map entries, k :: rest => (entries.lookup k).bind fun t => get t rest

@[simp] theorem get_nil (t : Nested L) : t.get [] = some t := by
  cases t <;> rfl

@[simp] theorem get_leaf_cons (v : L) (k : String) (p : List String) :
    (leaf v).get (k :: p) = none := rfl

theorem get_map_cons (entries : List (String × Nested L)) (k : String) (p : List String) :
    (map entries).get (k :: p) = (entries.lookup k).bind fun t => t.get p := rfl

/-- A path is followed piece by piece. -/
theorem get_append (t : Nested L) (p q : List String) :
    t.get (p ++ q) = (t.get p).bind fun s => s.get q := by
  induction p generalizing t with
  | nil => simp
  | cons k p ih =>
    cases t with
    | leaf v => rfl
    | map entries =>
      rw [List.cons_append, get_map_cons, get_map_cons]
      cases entries.lookup k with
      | none => rfl
      | some s => exact ih s

/-- The value is a mapping. -/
def IsMap : Nested L → Prop
  | leaf _ => False
  | map _ => True

/-- `p` is the path of a leaf. -/
def LeafPath (t : Nested L) (p : List String) : Prop := ∃ v, t.get p = some (leaf v)

/-- Nothing is below a leaf. -/
theorem LeafPath.get_below {t : Nested L} {p : List String} (h : t.LeafPath p) {q : List String}
    (hpre : p <+: q) (hne : p ≠ q) : t.get q = none := by
  obtain ⟨v, hv⟩ := h
  obtain ⟨r, rfl⟩ := hpre
  rw [get_append, hv]
  cases r with
  | nil => simp at hne
  | cons k r => rfl

/-! ## Writing -/

/-- The mapping a write goes on in: a missing key or a leaf becomes an empty
one. -/
def asMap : Option (Nested L) → Nested L
  | some (map entries) => map entries
  | _ => map []

/-- Write a value at a path, below a mapping. The last case is a write at no
path or below a leaf; it changes nothing. -/
def put : Nested L → List String → Nested L → Nested L
  | map entries, [k], v => map (Dict.setEntries entries k v)
  | map entries, k :: k' :: rest, v =>
    map (Dict.setEntries entries k (put (asMap (entries.lookup k)) (k' :: rest) v))
  | t, _, _ => t

theorem asMap_isMap (o : Option (Nested L)) : (asMap o).IsMap := by
  unfold asMap
  split <;> trivial

/-- A key of a mapping made of a missing key or a leaf holds nothing. -/
theorem get_asMap {o : Option (Nested L)} {p : List String} (hp : p ≠ []) :
    (asMap o).get p = o.bind fun t => t.get p := by
  cases p with
  | nil => exact absurd rfl hp
  | cons k p =>
    cases o with
    | none => rfl
    | some t => cases t <;> rfl

/-- At and below the written path stands the written value. -/
theorem get_put_below {t : Nested L} (ht : t.IsMap) {q : List String} (hq : q ≠ []) (v : Nested L)
    (r : List String) : (t.put q v).get (q ++ r) = v.get r := by
  induction q generalizing t with
  | nil => exact absurd rfl hq
  | cons k q ih =>
    cases t with
    | leaf _ => exact ht.elim
    | map entries =>
      cases q with
      | nil =>
        unfold put
        rw [List.cons_append, get_map_cons, Dict.lookup_setEntries, if_pos rfl]
        rfl
      | cons k' q =>
        unfold put
        rw [List.cons_append, get_map_cons, Dict.lookup_setEntries, if_pos rfl]
        exact ih (asMap_isMap _) (List.cons_ne_nil _ _)

/-- A path that is neither above nor below the written one reads as before. -/
theorem get_put_apart (t : Nested L) {p q : List String} (v : Nested L) (hpq : ¬ p <+: q)
    (hqp : ¬ q <+: p) : (t.put q v).get p = t.get p := by
  induction q generalizing t p with
  | nil => exact absurd List.nil_prefix hqp
  | cons k q ih =>
    cases p with
    | nil => exact absurd List.nil_prefix hpq
    | cons k₁ p =>
      cases t with
      | leaf _ => rfl
      | map entries =>
        by_cases hk : k₁ = k
        · subst hk
          rw [List.cons_prefix_cons] at hpq hqp
          have hpq' : ¬ p <+: q := fun h => hpq ⟨rfl, h⟩
          have hqp' : ¬ q <+: p := fun h => hqp ⟨rfl, h⟩
          cases q with
          | nil => exact absurd List.nil_prefix hqp'
          | cons k' q =>
            unfold put
            rw [get_map_cons, Dict.lookup_setEntries, if_pos rfl, Option.bind_some,
              ih (asMap (entries.lookup k₁)) hpq' hqp', get_asMap, get_map_cons]
            rintro rfl
            exact hpq' List.nil_prefix
        · -- another key: the write does not come near it
          cases q with
          | nil =>
            unfold put
            rw [get_map_cons, Dict.lookup_setEntries, if_neg hk, get_map_cons]
          | cons k' q =>
            unfold put
            rw [get_map_cons, Dict.lookup_setEntries, if_neg hk, get_map_cons]

/-- Above the written path stands a mapping. -/
theorem get_put_above {t : Nested L} (ht : t.IsMap) {p q : List String} (v : Nested L) (hpq : p <+: q)
    (hne : p ≠ q) : ∃ s, (t.put q v).get p = some s ∧ s.IsMap := by
  induction q generalizing t p with
  | nil => exact absurd (List.prefix_nil.mp hpq) hne
  | cons k q ih =>
    cases t with
    | leaf _ => exact ht.elim
    | map entries =>
      cases p with
      | nil =>
        refine ⟨_, get_nil _, ?_⟩
        cases q <;> trivial
      | cons k₁ p =>
        obtain ⟨rfl, hpq'⟩ := List.cons_prefix_cons.mp hpq
        have hne' : p ≠ q := fun h => hne (by rw [h])
        cases q with
        | nil => exact absurd (List.prefix_nil.mp hpq') hne'
        | cons k' q =>
          unfold put
          rw [get_map_cons, Dict.lookup_setEntries, if_pos rfl]
          exact ih (asMap_isMap _) hpq' hne'

theorem put_isMap {t : Nested L} (ht : t.IsMap) (q : List String) (v : Nested L) :
    (t.put q v).IsMap := by
  cases t with
  | leaf _ => exact ht.elim
  | map entries =>
    match q with
    | [] => trivial
    | [_] => trivial
    | _ :: _ :: _ => trivial

/-! ## Well-formed mappings -/

/-- No mapping holds a key twice. -/
inductive WF : Nested L → Prop
  | leaf (v : L) : WF (.leaf v)
  | map {entries : List (String × Nested L)} : (entries.map Prod.fst).Nodup →
      (∀ e ∈ entries, WF e.2) → WF (.map entries)

theorem mem_of_lookup {entries : List (String × Nested L)} {k : String} {t : Nested L}
    (h : entries.lookup k = some t) : (k, t) ∈ entries := by
  obtain ⟨before, after, rfl, _⟩ := List.lookup_eq_some_iff.mp h
  exact List.mem_append_right _ List.mem_cons_self

theorem lookup_of_mem {entries : List (String × Nested L)} (hnodup : (entries.map Prod.fst).Nodup)
    {k : String} {t : Nested L} (h : (k, t) ∈ entries) : entries.lookup k = some t := by
  obtain ⟨before, after, rfl⟩ := List.append_of_mem h
  refine List.lookup_eq_some_iff.mpr ⟨before, after, rfl, fun e he => bne_iff_ne.mpr ?_⟩
  rw [List.map_append, List.nodup_append] at hnodup
  have hne := hnodup.2.2 e.1 (List.mem_map.mpr ⟨e, he, rfl⟩) k (by simp)
  exact Ne.symm hne

/-- What stands at a path of a well-formed value is well-formed. -/
theorem WF.get {t s : Nested L} (h : WF t) {p : List String} (hs : t.get p = some s) : WF s := by
  induction p generalizing t with
  | nil =>
    rw [get_nil] at hs
    cases hs
    exact h
  | cons k p ih =>
    cases h with
    | leaf v => cases hs
    | map _ hentries =>
      obtain ⟨u, hu, hs⟩ := Option.bind_eq_some_iff.mp hs
      exact ih (hentries _ (mem_of_lookup hu)) hs

theorem WF.setEntries {entries : List (String × Nested L)} (h : WF (.map entries)) {k : String}
    {v : Nested L} (hv : WF v) : WF (.map (Dict.setEntries entries k v)) := by
  cases h with
  | map hnodup hentries =>
    have hset : (Dict.set ⟨entries, hnodup⟩ k v).entries = Dict.setEntries entries k v := rfl
    refine .map (hset ▸ (Dict.set ⟨entries, hnodup⟩ k v).nodup) fun e he => ?_
    rcases Dict.mem_entries_set.mp (hset.symm ▸ he : (e.1, e.2) ∈ _) with ⟨_, hval⟩ | ⟨_, hold⟩
    · exact hval ▸ hv
    · exact hentries e hold

/-- Writing a well-formed value keeps a value well-formed. -/
theorem WF.put {t : Nested L} (h : WF t) {v : Nested L} (hv : WF v) (q : List String) :
    WF (t.put q v) := by
  induction q generalizing t with
  | nil => cases t <;> exact h
  | cons k q ih =>
    cases t with
    | leaf _ => exact h
    | map entries =>
      cases q with
      | nil => exact h.setEntries hv
      | cons k' q =>
        refine h.setEntries (ih ?_)
        cases h with
        | map _ hentries =>
          unfold asMap
          split
          · rename_i found hfound
            exact hentries _ (mem_of_lookup hfound)
          · exact .map List.nodup_nil (by simp)

/-! ## The leaves -/

mutual

/-- Every leaf with its path. -/
def walk : Nested L → List (List String × L)
  | .leaf v => [([], v)]
  | .map entries => walkEntries entries

/-- The leaves of the entries of a mapping. -/
def walkEntries : List (String × Nested L) → List (List String × L)
  | [] => []
  | (k, t) :: rest => (walk t).map (fun l => (k :: l.1, l.2)) ++ walkEntries rest

end

theorem mem_walkEntries {entries : List (String × Nested L)} {p : List String} {v : L} :
    (p, v) ∈ walkEntries entries ↔
      ∃ k t, (k, t) ∈ entries ∧ ∃ r, (r, v) ∈ walk t ∧ p = k :: r := by
  induction entries with
  | nil => simp [walkEntries]
  | cons e rest ih =>
    obtain ⟨k, t⟩ := e
    rw [walkEntries, List.mem_append, ih, List.mem_map]
    constructor
    · rintro (⟨⟨r, u⟩, hr, heq⟩ | ⟨k', t', ht', hr⟩)
      · obtain ⟨rfl, rfl⟩ := Prod.mk.inj heq
        exact ⟨k, t, List.mem_cons_self, r, hr, rfl⟩
      · exact ⟨k', t', List.mem_cons_of_mem _ ht', hr⟩
    · rintro ⟨k', t', ht', r, hr, rfl⟩
      rcases List.mem_cons.mp ht' with heq | ht'
      · obtain ⟨rfl, rfl⟩ := Prod.mk.inj heq
        exact .inl ⟨(r, v), hr, rfl⟩
      · exact .inr ⟨k', t', ht', r, hr, rfl⟩

/-- `walk` yields exactly the leaves. -/
theorem mem_walk {t : Nested L} (h : WF t) {p : List String} {v : L} :
    (p, v) ∈ walk t ↔ t.get p = some (.leaf v) := by
  induction h generalizing p with
  | leaf u =>
    cases p with
    | nil => simp [walk, eq_comm]
    | cons k p => simp [walk]
  | @map entries hnodup _ ih =>
    rw [walk, mem_walkEntries]
    cases p with
    | nil => simp
    | cons k p =>
      rw [get_map_cons, Option.bind_eq_some_iff]
      constructor
      · rintro ⟨k', t', ht', r, hr, heq⟩
        obtain ⟨rfl, rfl⟩ := List.cons.inj heq
        exact ⟨t', lookup_of_mem hnodup ht', (ih _ ht').mp hr⟩
      · rintro ⟨t', ht', hget⟩
        have hmem := mem_of_lookup ht'
        exact ⟨k, t', hmem, p, (ih _ hmem).mpr hget, rfl⟩

/-- The paths of the leaves. -/
def leafPaths (t : Nested L) : List (List String) := (walk t).map Prod.fst

theorem mem_leafPaths {t : Nested L} (h : WF t) {p : List String} :
    p ∈ leafPaths t ↔ t.LeafPath p := by
  unfold leafPaths LeafPath
  rw [List.mem_map]
  constructor
  · rintro ⟨⟨q, v⟩, hmem, rfl⟩
    exact ⟨v, (mem_walk h).mp hmem⟩
  · rintro ⟨v, hv⟩
    exact ⟨(p, v), (mem_walk h).mpr hv, rfl⟩

/-! ## Equality -/

/-- What is seen of a value without looking below it. -/
def shape : Option (Nested L) → Option (Option L)
  | none => none
  | some (.leaf v) => some (some v)
  | some (.map _) => some none

/-- What is seen of a value at every path. -/
def view (o : Option (Nested L)) (p : List String) : Option (Option L) :=
  shape (o.bind fun t => t.get p)

section Equality

variable [DecidableEq L]

mutual

/-- `a == b`: equal leaves, or mappings with the same keys and equal values. -/
def beq : Nested L → Nested L → Bool
  | .leaf v, .leaf w => decide (v = w)
  | .map entries, .map entries' =>
    entries.length == entries'.length && beqEntries entries entries'
  | _, _ => false

/-- Every entry has an equal one under the same key. -/
def beqEntries : List (String × Nested L) → List (String × Nested L) → Bool
  | [], _ => true
  | (k, t) :: rest, entries' =>
    (match entries'.lookup k with
      | some t' => beq t t'
      | none => false) && beqEntries rest entries'

end

/-- `a == b` for the answers of `get`. -/
def beqOpt : Option (Nested L) → Option (Nested L) → Bool
  | some a, some b => beq a b
  | none, none => true
  | _, _ => false

theorem beqEntries_iff {entries entries' : List (String × Nested L)} :
    beqEntries entries entries' = true ↔
      ∀ e ∈ entries, ∃ t', entries'.lookup e.1 = some t' ∧ beq e.2 t' = true := by
  induction entries with
  | nil => simp [beqEntries]
  | cons e rest ih =>
    obtain ⟨k, t⟩ := e
    rw [beqEntries, Bool.and_eq_true, ih, List.forall_mem_cons]
    refine and_congr_left fun _ => ?_
    cases entries'.lookup k with
    | none => simp
    | some t' => simp

omit [DecidableEq L] in
/-- Mappings of the same shape at every path have the same keys. -/
theorem keys_of_shape {entries entries' : List (String × Nested L)}
    (h : ∀ p, shape ((Nested.map entries).get p) = shape ((Nested.map entries').get p)) {k : String}
    {t : Nested L} (ht : entries.lookup k = some t) :
    ∃ t', entries'.lookup k = some t' ∧ ∀ p, shape (t.get p) = shape (t'.get p) := by
  have hbelow : ∀ p, shape (t.get p) = shape ((entries'.lookup k).bind fun t' => t'.get p) := by
    intro p
    have := h (k :: p)
    rwa [get_map_cons, get_map_cons, ht] at this
  cases ht' : entries'.lookup k with
  | none =>
    have := hbelow []
    rw [ht'] at this
    cases t <;> simp [shape] at this
  | some t' =>
    refine ⟨t', rfl, fun p => ?_⟩
    rw [hbelow p, ht']
    rfl

omit [DecidableEq L] in
theorem mem_keys_iff_lookup {entries : List (String × Nested L)}
    (hnodup : (entries.map Prod.fst).Nodup) {k : String} :
    k ∈ entries.map Prod.fst ↔ ∃ t, entries.lookup k = some t := by
  constructor
  · intro hk
    obtain ⟨e, he, rfl⟩ := List.mem_map.mp hk
    exact ⟨e.2, lookup_of_mem hnodup he⟩
  · rintro ⟨t, ht⟩
    exact List.mem_map.mpr ⟨_, mem_of_lookup ht, rfl⟩

omit [DecidableEq L] in
/-- No key is left over on the other side when the counts agree. -/
theorem lookup_none_of_length {entries entries' : List (String × Nested L)}
    (hnodup : (entries.map Prod.fst).Nodup) (hnodup' : (entries'.map Prod.fst).Nodup)
    (hsub : entries.map Prod.fst ⊆ entries'.map Prod.fst)
    (hlen : entries'.length ≤ entries.length) {k : String} (hk : entries.lookup k = none) :
    entries'.lookup k = none := by
  have hperm := (List.subperm_of_subset hnodup hsub).perm_of_length_le
    (by rw [List.length_map, List.length_map]; exact hlen)
  cases hk' : entries'.lookup k with
  | none => rfl
  | some t' =>
    have hin := hperm.mem_iff.mpr ((mem_keys_iff_lookup hnodup').mpr ⟨t', hk'⟩)
    obtain ⟨t, ht⟩ := (mem_keys_iff_lookup hnodup).mp hin
    rw [hk] at ht
    cases ht

/-- Values are equal exactly when they have the same shape at every path. -/
theorem beq_iff_shape {a b : Nested L} (ha : WF a) (hb : WF b) :
    beq a b = true ↔ ∀ p, shape (a.get p) = shape (b.get p) := by
  induction ha generalizing b with
  | leaf v =>
    cases hb with
    | leaf w =>
      rw [beq, decide_eq_true_eq]
      constructor
      · rintro rfl p
        rfl
      · intro h
        have := h []
        simpa [shape] using this
    | map _ _ =>
      refine ⟨fun h => absurd h (by simp [beq]), fun h => ?_⟩
      have := h []
      simp [shape] at this
  | @map entries hnodup hentries ih =>
    cases hb with
    | leaf w =>
      refine ⟨fun h => absurd h (by simp [beq]), fun h => ?_⟩
      have := h []
      simp [shape] at this
    | @map entries' hnodup' hentries' =>
      rw [beq, Bool.and_eq_true, beqEntries_iff, beq_iff_eq]
      constructor
      · rintro ⟨hlen, hall⟩ p
        cases p with
        | nil => simp [shape]
        | cons k p =>
          rw [get_map_cons, get_map_cons]
          cases hk : entries.lookup k with
          | some t =>
            have hmem := mem_of_lookup hk
            obtain ⟨t', ht', hbeq⟩ := hall _ hmem
            rw [ht']
            exact (ih _ hmem (hentries' _ (mem_of_lookup ht'))).mp hbeq p
          | none =>
            have hsub : entries.map Prod.fst ⊆ entries'.map Prod.fst := by
              intro k' hk'
              obtain ⟨e, he, rfl⟩ := List.mem_map.mp hk'
              obtain ⟨t', ht', _⟩ := hall e he
              exact (mem_keys_iff_lookup hnodup').mpr ⟨t', ht'⟩
            rw [lookup_none_of_length hnodup hnodup' hsub hlen.ge hk]
      · -- the shapes at the keys give the same keys, so the counts agree
        intro h
        have hperm : (entries.map Prod.fst).Perm (entries'.map Prod.fst) := by
          refine (List.perm_ext_iff_of_nodup hnodup hnodup').mpr fun k => ?_
          rw [mem_keys_iff_lookup hnodup, mem_keys_iff_lookup hnodup']
          constructor
          · rintro ⟨t, ht⟩
            obtain ⟨t', ht', _⟩ := keys_of_shape h ht
            exact ⟨t', ht'⟩
          · rintro ⟨t', ht'⟩
            obtain ⟨t, ht, _⟩ := keys_of_shape (fun p => (h p).symm) ht'
            exact ⟨t, ht⟩
        refine ⟨by simpa using hperm.length_eq, fun e he => ?_⟩
        obtain ⟨t', ht', hshape⟩ := keys_of_shape h (lookup_of_mem hnodup he)
        exact ⟨t', ht', (ih e he (hentries' _ (mem_of_lookup ht'))).mpr hshape⟩

/-- The answers of `get` are equal exactly when everything seen of them is. -/
theorem beqOpt_iff {a b : Nested L} (ha : WF a) (hb : WF b) {p : List String} :
    beqOpt (a.get p) (b.get p) = true ↔ view (a.get p) = view (b.get p) := by
  cases hap : a.get p with
  | none =>
    cases hbp : b.get p with
    | none => simp [beqOpt]
    | some t =>
      refine ⟨fun h => absurd h (by simp [beqOpt]), fun h => ?_⟩
      have := congrFun h []
      cases t <;> simp [view, shape] at this
  | some s =>
    cases hbp : b.get p with
    | none =>
      refine ⟨fun h => absurd h (by simp [beqOpt]), fun h => ?_⟩
      have := congrFun h []
      cases s <;> simp [view, shape] at this
    | some t =>
      rw [beqOpt, beq_iff_shape (ha.get hap) (hb.get hbp)]
      exact funext_iff.symm

end Equality

theorem view_get (t : Nested L) (p q : List String) : view (t.get p) q = shape (t.get (p ++ q)) := by
  unfold view
  rw [get_append]

/-- Equal values are equal below every path. -/
theorem view_below {a b : Nested L} {p q : List String} (h : view (a.get p) = view (b.get p))
    (hpre : p <+: q) : view (a.get q) = view (b.get q) := by
  obtain ⟨r, rfl⟩ := hpre
  funext s
  have := congrFun h (r ++ s)
  rwa [view_get, view_get, ← List.append_assoc, ← view_get, ← view_get] at this

theorem shape_of_view {a b : Nested L} {p : List String} (h : view (a.get p) = view (b.get p)) :
    shape (a.get p) = shape (b.get p) := by
  have := congrFun h []
  rwa [view_get, view_get, List.append_nil] at this

/-- Above an existing value stand mappings. -/
theorem isMap_above {t s : Nested L} {p q : List String} (hq : t.get q = some s) (hpq : p <+: q)
    (hne : p ≠ q) : ∃ u, t.get p = some u ∧ u.IsMap := by
  obtain ⟨r, rfl⟩ := hpq
  rw [get_append] at hq
  obtain ⟨u, hu, hs⟩ := Option.bind_eq_some_iff.mp hq
  refine ⟨u, hu, ?_⟩
  cases u with
  | map _ => trivial
  | leaf v =>
    cases r with
    | nil => simp at hne
    | cons k r => cases hs

/-- A value holds a leaf or an empty mapping somewhere. -/
theorem exists_leaf_or_empty {t : Nested L} (h : WF t) :
    (∃ r v, t.get r = some (.leaf v)) ∨ ∃ r, t.get r = some (.map []) := by
  induction h with
  | leaf v => exact .inl ⟨[], v, rfl⟩
  | @map entries _ _ ih =>
    cases entries with
    | nil => exact .inr ⟨[], rfl⟩
    | cons e rest =>
      obtain ⟨k, t⟩ := e
      have hstep : ∀ r, (Nested.map ((k, t) :: rest)).get (k :: r) = t.get r := by
        intro r
        rw [get_map_cons, List.lookup_cons_self]
        rfl
      rcases ih (k, t) List.mem_cons_self with ⟨r, v, hr⟩ | ⟨r, hr⟩
      · exact .inl ⟨k :: r, v, (hstep r).trans hr⟩
      · exact .inr ⟨k :: r, (hstep r).trans hr⟩

end Nested

end OpenstackBlueprint.Kit
