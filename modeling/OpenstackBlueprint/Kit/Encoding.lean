import Mathlib

/-!
# Terminated parts

A list of parts written one after the other, each ended by a terminator, can be
read back when no part holds the terminator. For strings the parts are their
UTF-8 bytes and the terminator is the zero byte, which only the NUL character
has in its encoding.
-/

namespace OpenstackBlueprint.Kit

variable {α : Type*}

/-- The parts, each followed by the terminator. -/
def terminated (stop : α) (parts : List (List α)) : List α :=
  parts.flatMap fun part => part ++ [stop]

theorem terminated_cons (stop : α) (part : List α) (parts : List (List α)) :
    terminated stop (part :: parts) = part ++ stop :: terminated stop parts := by
  simp [terminated]

/-- The first part ends at the first terminator. -/
theorem append_stop_inj {stop : α} {a b s t : List α} (ha : stop ∉ a) (hb : stop ∉ b)
    (h : a ++ stop :: s = b ++ stop :: t) : a = b ∧ s = t := by
  induction a generalizing b with
  | nil =>
    cases b with
    | nil => exact ⟨rfl, (List.cons.inj h).2⟩
    | cons y b => exact absurd ((List.cons.inj h).1 ▸ List.mem_cons_self) hb
  | cons x a ih =>
    cases b with
    | nil => exact absurd ((List.cons.inj h).1 ▸ List.mem_cons_self) ha
    | cons y b =>
      obtain ⟨hxy, hrest⟩ := List.cons.inj h
      obtain ⟨hab, hst⟩ := ih (List.not_mem_of_not_mem_cons ha) (List.not_mem_of_not_mem_cons hb) hrest
      exact ⟨by rw [hxy, hab], hst⟩

/-- Parts without the terminator can be read back. -/
theorem terminated_inj {stop : α} {parts parts' : List (List α)} (h : ∀ p ∈ parts, stop ∉ p)
    (h' : ∀ p ∈ parts', stop ∉ p) (heq : terminated stop parts = terminated stop parts') :
    parts = parts' := by
  induction parts generalizing parts' with
  | nil =>
    cases parts' with
    | nil => rfl
    | cons p rest =>
      rw [terminated_cons] at heq
      exact absurd heq.symm (by simp [terminated])
  | cons p rest ih =>
    cases parts' with
    | nil =>
      rw [terminated_cons] at heq
      exact absurd heq (by simp [terminated])
    | cons p' rest' =>
      rw [terminated_cons, terminated_cons] at heq
      obtain ⟨hp, hrest⟩ := List.forall_mem_cons.mp h
      obtain ⟨hp', hrest'⟩ := List.forall_mem_cons.mp h'
      obtain ⟨rfl, htail⟩ := append_stop_inj hp hp' heq
      rw [ih hrest hrest' htail]

/-! ## UTF-8 -/

/-- `s.encode()`. -/
def utf8 (s : String) : List UInt8 := s.toList.flatMap String.utf8EncodeChar

theorem utf8_inj {s t : String} (h : utf8 s = utf8 t) : s = t := by
  have hencode : s.toList.utf8Encode = t.toList.utf8Encode := congrArg List.toByteArray h
  rwa [String.utf8Encode_toList, String.utf8Encode_toList, String.toByteArray_inj] at hencode

/-- The zero byte comes from the NUL character. -/
theorem zero_mem_utf8EncodeChar {c : Char} (h : 0 ∈ String.utf8EncodeChar c) : c = '\x00' := by
  have hbyte : ∀ n : Nat, 0 < n → n < 256 → (0 : UInt8) ≠ UInt8.ofNat n := by
    intro n hpos hlt heq
    have hval := congrArg UInt8.toNat heq
    rw [UInt8.toNat_ofNat_of_lt' hlt] at hval
    exact hpos.ne hval
  unfold String.utf8EncodeChar at h
  dsimp only at h
  split at h
  · -- one byte, the character itself
    rename_i hle
    by_contra hne
    refine hbyte c.val.toNat (Nat.pos_of_ne_zero fun hzero => hne ?_) (by omega)
      (List.mem_singleton.mp h)
    exact Char.ext (UInt32.toNat_inj.mp hzero)
  · -- every byte of a longer encoding has its top bit set
    split at h
    · simp only [List.mem_cons, List.not_mem_nil, or_false] at h
      rcases h with h | h
      · exact absurd h (hbyte _ (by omega) (by omega))
      · exact absurd h (hbyte _ (by omega) (by omega))
    · split at h
      · simp only [List.mem_cons, List.not_mem_nil, or_false] at h
        rcases h with h | h | h
        · exact absurd h (hbyte _ (by omega) (by omega))
        · exact absurd h (hbyte _ (by omega) (by omega))
        · exact absurd h (hbyte _ (by omega) (by omega))
      · simp only [List.mem_cons, List.not_mem_nil, or_false] at h
        rcases h with h | h | h | h
        · exact absurd h (hbyte _ (by omega) (by omega))
        · exact absurd h (hbyte _ (by omega) (by omega))
        · exact absurd h (hbyte _ (by omega) (by omega))
        · exact absurd h (hbyte _ (by omega) (by omega))

theorem zero_not_mem_utf8 {s : String} (h : '\x00' ∉ s.toList) : 0 ∉ utf8 s := by
  intro hzero
  obtain ⟨c, hc, hbyte⟩ := List.mem_flatMap.mp hzero
  exact h (zero_mem_utf8EncodeChar hbyte ▸ hc)

end OpenstackBlueprint.Kit
