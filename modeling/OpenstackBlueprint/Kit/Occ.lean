import Mathlib

/-!
# Optimistic concurrency

A server that keeps one object with a version. A client reads a copy, computes,
and writes back under the version it read; the write is refused when the object
changed in between. A write that changes nothing keeps the version.

* `Later` says what any sequence of writes can do to a server;
* `Seen` is what a copy read at some time is still worth later on, and `Later`
  keeps it (`Seen.mono`);
* `put_of_seen`: a replacement under the version of a seen copy succeeds only while the
  stored object is that copy, so read, compute and write are one atomic step.
-/

namespace OpenstackBlueprint.Kit

/-- An object with the version of its last change. -/
structure Versioned (α : Type*) where
  version : Nat
  value : α
deriving DecidableEq

/-- A server of at most one object. The clock is ahead of every version. -/
structure Server (α : Type*) where
  object : Option (Versioned α)
  clock : Nat
  ahead : ∀ o, object = some o → o.version < clock

namespace Server

variable {α : Type*}

/-- A server that holds nothing yet. -/
def empty : Server α := ⟨none, 0, by simp⟩

/-- The stored value. -/
def stored (s : Server α) : Option α := s.object.map Versioned.value

/-- Store a value under a new version. -/
def write (s : Server α) (v : α) : Server α where
  object := some ⟨s.clock, v⟩
  clock := s.clock + 1
  ahead := by
    intro o ho
    cases ho
    exact Nat.lt_succ_self _

variable [DecidableEq α]

/-- Store a value; an unchanged value keeps its version. -/
def set (s : Server α) (v : α) : Server α :=
  if s.stored = some v then s else s.write v

/-- Change the object under the version that was read: refused when it is not the stored one. -/
def patch (s : Server α) (version : Nat) (f : α → α) : Option (Server α) :=
  match s.object with
  | none => none
  | some o => if o.version = version then some (s.set (f o.value)) else none

/-- Replace the object under the version that was read. -/
def put (s : Server α) (version : Nat) (v : α) : Option (Server α) := s.patch version fun _ => v

omit [DecidableEq α] in
@[simp] theorem stored_write (s : Server α) (v : α) : (s.write v).stored = some v := rfl

@[simp] theorem stored_set (s : Server α) (v : α) : (s.set v).stored = some v := by
  unfold set
  split
  · assumption
  · rfl

theorem patch_eq_some {s s' : Server α} {version : Nat} {f : α → α}
    (h : s.patch version f = some s') :
    ∃ o, s.object = some o ∧ o.version = version ∧ s' = s.set (f o.value) := by
  unfold patch at h
  cases hobject : s.object with
  | none => simp [hobject] at h
  | some o =>
    simp only [hobject] at h
    split at h
    · rename_i hversion
      cases h
      exact ⟨o, rfl, hversion, rfl⟩
    · cases h

end Server

/-! ## What a copy is worth later -/

section Later

variable {α : Type*} {r s t : Server α} {o : Versioned α} {v : α}

/-- `t` is `s` after some writes: an object of `t` is the one of `s`, or newer than
everything `s` had given out. -/
structure Later (s t : Server α) : Prop where
  clock : s.clock ≤ t.clock
  object : ∀ o, t.object = some o → s.object = some o ∨ s.clock ≤ o.version
  kept : s.object.isSome → t.object.isSome

theorem Later.refl (s : Server α) : Later s s := ⟨le_refl _, fun _ => .inl, id⟩

theorem later_write (s : Server α) (v : α) : Later s (s.write v) where
  clock := Nat.le_succ _
  object := by
    intro o ho
    cases ho
    exact .inr (le_refl _)
  kept := fun _ => rfl

theorem later_set [DecidableEq α] (s : Server α) (v : α) : Later s (s.set v) := by
  unfold Server.set
  split
  · exact Later.refl s
  · exact later_write s v

/-- `o` was read off the server at some time: while its version is stored, so is its value. -/
structure Seen (s : Server α) (o : Versioned α) : Prop where
  old : o.version < s.clock
  current : ∀ cur, s.object = some cur → cur.version = o.version → cur = o

theorem Seen.of_object (h : s.object = some o) : Seen s o where
  old := s.ahead o h
  current := by
    intro cur hcur _
    exact Option.some.inj (hcur.symm.trans h)

theorem Seen.mono (h : Seen s o) (hlater : Later s t) : Seen t o where
  old := lt_of_lt_of_le h.old hlater.clock
  current := by
    intro cur hcur hversion
    rcases hlater.object cur hcur with hsame | hnew
    · exact h.current cur hsame hversion
    · have hold := h.old
      omega

/-- A write under a seen version goes through only while the seen object is stored. -/
theorem put_of_seen [DecidableEq α] (h : Seen s o) (hput : s.put o.version v = some t) :
    s.object = some o ∧ t = s.set v := by
  obtain ⟨cur, hcur, hversion, ht⟩ := Server.patch_eq_some hput
  rw [h.current cur hcur hversion] at hcur
  exact ⟨hcur, ht⟩

end Later

end OpenstackBlueprint.Kit
