import Mathlib

/-!
# Maps of sets that null overrides

What a deep merge of maps leaves under a key when lists are joined without
repetitions: nothing, null or a set. Null replaces a set and is replaced by one, so
merging is not associative. It is idempotent on both sides, and restricting a slot to
the items with a property commutes with it.
-/

namespace OpenstackBlueprint.Kit

/-- What is under a key: nothing, null, or a set of items. -/
abbrev Slot (α : Type*) := Option (Option (Set α))

namespace Slot

variable {α : Type*}

/-- A set joins a set; anything else gives way to what is merged into it. -/
def merge : Slot α → Slot α → Slot α
  | s, none => s
  | none, s => s
  | some (some a), some (some b) => some (some (a ∪ b))
  | some _, some b => some b

/-- The items with a property. -/
def keep (p : α → Prop) : Slot α → Slot α := Option.map (Option.map fun a => {x ∈ a | p x})

/-- The image of the items. -/
def map {β : Type*} (f : α → β) : Slot α → Slot β := Option.map (Option.map (f '' ·))

/-- The items of a slot. -/
def items : Slot α → Set α
  | some (some a) => a
  | _ => ∅

variable (s t : Slot α) (p : α → Prop)

@[simp] theorem merge_none : s.merge none = s := by
  rcases s with _ | _ | a <;> rfl

@[simp] theorem none_merge : merge none s = s := by
  rcases s with _ | _ | a <;> rfl

@[simp] theorem merge_self : s.merge s = s := by
  rcases s with _ | _ | a
  · rfl
  · rfl
  · simp [merge]

/-- Merging the same slot again adds nothing. -/
@[simp] theorem merge_merge_self : (s.merge t).merge t = s.merge t := by
  rcases s with _ | _ | a <;> rcases t with _ | _ | b <;> simp [merge, Set.union_assoc]

theorem keep_merge : (s.merge t).keep p = (s.keep p).merge (t.keep p) := by
  rcases s with _ | _ | a <;> rcases t with _ | _ | b <;>
    simp [merge, keep, Set.ofPred_or, or_and_right]

@[simp] theorem keep_keep : (s.keep p).keep p = s.keep p := by
  rcases s with _ | _ | a
  · rfl
  · rfl
  · simp [keep]

section Map

variable {β : Type*} (f : α → β)

theorem map_merge : (s.merge t).map f = (s.map f).merge (t.map f) := by
  rcases s with _ | _ | a <;> rcases t with _ | _ | b <;> simp [merge, map, Set.image_union]

/-- A property that the images have exactly when the items do. -/
theorem map_keep {q : β → Prop} (h : ∀ x, q (f x) ↔ p x) :
    (s.keep p).map f = (s.map f).keep q := by
  rcases s with _ | _ | a
  · rfl
  · rfl
  · simp only [keep, map, Option.map_some, Option.some.injEq]
    ext y
    constructor
    · rintro ⟨x, ⟨hx, hp⟩, rfl⟩
      exact ⟨⟨x, hx, rfl⟩, (h x).mpr hp⟩
    · rintro ⟨⟨x, hx, rfl⟩, hq⟩
      exact ⟨x, ⟨hx, (h x).mp hq⟩, rfl⟩

theorem items_map : (s.map f).items = f '' s.items := by
  rcases s with _ | _ | a
  · simp [map, items]
  · simp [map, items]
  · rfl

/-- Only what becomes of the items matters. -/
theorem map_congr {g : α → β} (h : ∀ x ∈ s.items, f x = g x) : s.map f = s.map g := by
  rcases s with _ | _ | a
  · rfl
  · rfl
  · simp only [map, Option.map_some, Option.some.injEq]
    exact Set.image_congr h

end Map

end Slot

/-- A slot for each key. -/
abbrev Slots (κ α : Type*) := κ → Slot α

namespace Slots

variable {κ α : Type*}

/-- Nothing under any key. -/
def empty : Slots κ α := fun _ => none

/-- Merging key by key. -/
def merge (s t : Slots κ α) : Slots κ α := fun key => (s key).merge (t key)

/-- The items with a property, under one key. -/
def keepAt [DecidableEq κ] (key : κ) (p : α → Prop) (s : Slots κ α) : Slots κ α := fun k =>
  if k = key then (s k).keep p else s k

/-- The images of the items, by key. -/
def map {β : Type*} (f : κ → α → β) (s : Slots κ α) : Slots κ β := fun key => (s key).map (f key)

variable (s t : Slots κ α)

section Map

variable {β : Type*} (f : κ → α → β)

theorem map_merge : (s.merge t).map f = (s.map f).merge (t.map f) := by
  funext k
  exact Slot.map_merge _ _ _

@[simp] theorem map_empty : (empty : Slots κ α).map f = empty := rfl

theorem map_keepAt [DecidableEq κ] (key : κ) {p : α → Prop} {q : β → Prop}
    (h : ∀ x, q (f key x) ↔ p x) : (s.keepAt key p).map f = (s.map f).keepAt key q := by
  funext k
  simp only [map, keepAt]
  split
  · rename_i hk
    subst hk
    exact Slot.map_keep _ _ _ h
  · rfl

end Map

@[simp] theorem merge_self : s.merge s = s := by
  funext k
  exact Slot.merge_self _

@[simp] theorem merge_merge_self : (s.merge t).merge t = s.merge t := by
  funext k
  exact Slot.merge_merge_self _ _

@[simp] theorem empty_merge : empty.merge s = s := by
  funext k
  exact Slot.none_merge _

@[simp] theorem merge_empty : s.merge empty = s := by
  funext k
  exact Slot.merge_none _

section KeepAt

variable [DecidableEq κ] (key : κ) (p : α → Prop)

theorem keepAt_merge : (s.merge t).keepAt key p = (s.keepAt key p).merge (t.keepAt key p) := by
  funext k
  simp only [keepAt, merge]
  split
  · exact Slot.keep_merge _ _ _
  · rfl

@[simp] theorem keepAt_keepAt : (s.keepAt key p).keepAt key p = s.keepAt key p := by
  funext k
  simp only [keepAt]
  split
  · exact Slot.keep_keep _ _
  · rfl

@[simp] theorem keepAt_empty : (empty : Slots κ α).keepAt key p = empty := by
  funext k
  simp [keepAt, empty, Slot.keep]

theorem items_keepAt_subset (k : κ) : ((s.keepAt key p) k).items ⊆ (s k).items := by
  unfold keepAt
  split
  · rcases s k with _ | _ | a
    · exact Set.Subset.rfl
    · exact Set.Subset.rfl
    · exact Set.sep_subset _ _
  · exact Set.Subset.rfl

/-- Restricting the target first makes no difference. -/
@[simp] theorem keepAt_keepAt_merge :
    ((s.keepAt key p).merge t).keepAt key p = (s.merge t).keepAt key p := by
  rw [keepAt_merge, keepAt_keepAt, keepAt_merge]

end KeepAt

end Slots

end OpenstackBlueprint.Kit
