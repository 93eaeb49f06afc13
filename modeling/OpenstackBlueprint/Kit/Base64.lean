import OpenstackBlueprint.Kit.Encoding

/-!
# Base64

The standard alphabet with padding, as Python's `base64` module reads and
writes it. The reader is lenient: characters outside the alphabet are skipped,
and a complete pad sequence ends the input. What the writer produced, the
reader gives back (`decodeText_encodeText`).
-/

namespace OpenstackBlueprint.Kit

namespace Base64

/-- The sixty-four digits, in order. -/
def alphabet : List Char :=
  ['A', 'B', 'C', 'D', 'E', 'F', 'G', 'H', 'I', 'J', 'K', 'L', 'M', 'N', 'O', 'P',
    'Q', 'R', 'S', 'T', 'U', 'V', 'W', 'X', 'Y', 'Z', 'a', 'b', 'c', 'd', 'e', 'f',
    'g', 'h', 'i', 'j', 'k', 'l', 'm', 'n', 'o', 'p', 'q', 'r', 's', 't', 'u', 'v',
    'w', 'x', 'y', 'z', '0', '1', '2', '3', '4', '5', '6', '7', '8', '9', '+', '/']

/-- The digit of a six-bit value. -/
def digit (n : Nat) : Char := alphabet.getD n '='

/-- The six-bit value of a digit. -/
def value (c : Char) : Option Nat := alphabet.idxOf? c

/-- `base64.b64encode`, three bytes at a time. -/
def encode : List UInt8 → List Char
  | [] => []
  | [a] => [digit (a.toNat / 4), digit (a.toNat % 4 * 16), '=', '=']
  | [a, b] =>
    [digit (a.toNat / 4), digit (a.toNat % 4 * 16 + b.toNat / 16), digit (b.toNat % 16 * 4), '=']
  | a :: b :: c :: rest =>
    digit (a.toNat / 4) :: digit (a.toNat % 4 * 16 + b.toNat / 16) ::
      digit (b.toNat % 16 * 4 + c.toNat / 64) :: digit (c.toNat % 64) :: encode rest

/-- The reader inside a group of four: `quad` digits of the group are read,
`left` holds the bits not written out yet and `pads` counts the pads seen. -/
@[simp] def decodeFrom (quad left pads : Nat) : List Char → Option (List UInt8)
  | [] => if quad = 0 then some [] else none
  | c :: rest =>
    if c = '=' then
      if 2 ≤ quad then
        if 4 ≤ quad + (pads + 1) then some [] else decodeFrom quad left (pads + 1) rest
      else decodeFrom quad left pads rest
    else
      match value c with
      | none => decodeFrom quad left pads rest
      | some v =>
        match quad with
        | 0 => decodeFrom 1 v 0 rest
        | 1 => (decodeFrom 2 (v % 16) 0 rest).map (UInt8.ofNat (left * 4 + v / 16) :: ·)
        | 2 => (decodeFrom 3 (v % 4) 0 rest).map (UInt8.ofNat (left * 16 + v / 4) :: ·)
        | _ => (decodeFrom 0 0 0 rest).map (UInt8.ofNat (left * 64 + v) :: ·)

/-- `base64.b64decode` of a text: only ASCII is accepted, and the last group is
complete or padded. -/
def decode (cs : List Char) : Option (List UInt8) :=
  if cs.all (fun c => decide (c.toNat < 128)) then decodeFrom 0 0 0 cs else none

/-! ## The round trip on bytes -/

theorem value_digit {n : Nat} (h : n < 64) : value (digit n) = some n := by
  have hall : ∀ m : Fin 64, value (digit m) = some m.val := by decide +kernel
  exact hall ⟨n, h⟩

theorem digit_ne_pad {n : Nat} (h : n < 64) : digit n ≠ '=' := by
  have hall : ∀ m : Fin 64, digit m ≠ '=' := by decide +kernel
  exact hall ⟨n, h⟩

theorem digit_ascii (n : Nat) : (digit n).toNat < 128 := by
  by_cases h : n < 64
  · have hall : ∀ m : Fin 64, (digit m).toNat < 128 := by decide +kernel
    exact hall ⟨n, h⟩
  · have hlen : alphabet.length = 64 := by decide
    have hpad : digit n = '=' := List.getD_eq_default _ _ (by omega)
    rw [hpad]
    decide

section Digits

variable {left pads n : Nat} (h : n < 64) (rest : List Char)
include h

theorem decodeFrom_first : decodeFrom 0 left pads (digit n :: rest) = decodeFrom 1 n 0 rest := by
  simp only [decodeFrom, if_neg (digit_ne_pad h), value_digit h]

theorem decodeFrom_second :
    decodeFrom 1 left pads (digit n :: rest) =
      (decodeFrom 2 (n % 16) 0 rest).map (UInt8.ofNat (left * 4 + n / 16) :: ·) := by
  simp only [decodeFrom, if_neg (digit_ne_pad h), value_digit h]

theorem decodeFrom_third :
    decodeFrom 2 left pads (digit n :: rest) =
      (decodeFrom 3 (n % 4) 0 rest).map (UInt8.ofNat (left * 16 + n / 4) :: ·) := by
  simp only [decodeFrom, if_neg (digit_ne_pad h), value_digit h]

theorem decodeFrom_fourth :
    decodeFrom 3 left pads (digit n :: rest) =
      (decodeFrom 0 0 0 rest).map (UInt8.ofNat (left * 64 + n) :: ·) := by
  simp only [decodeFrom, if_neg (digit_ne_pad h), value_digit h]

end Digits

/-- One pad closes a group of three digits, two pads a group of two. -/
theorem decodeFrom_pad (left : Nat) : decodeFrom 3 left 0 ['='] = some [] := rfl

theorem decodeFrom_pads (left : Nat) : decodeFrom 2 left 0 ['=', '='] = some [] := rfl

/-- A byte split over two digits comes back. -/
theorem ofNat_split {a : UInt8} {n : Nat} (h : n = a.toNat) : UInt8.ofNat n = a := by
  rw [h, UInt8.ofNat_toNat]

theorem decodeFrom_encode (bytes : List UInt8) :
    decodeFrom 0 0 0 (encode bytes) = some bytes := by
  induction bytes using encode.induct with
  | case1 => simp [encode, decodeFrom]
  | case2 a =>
    have ha := a.toNat_lt
    have hbyte : UInt8.ofNat (a.toNat / 4 * 4 + a.toNat % 4 * 16 / 16) = a :=
      ofNat_split (by omega)
    rw [encode, decodeFrom_first (by omega), decodeFrom_second (by omega), decodeFrom_pads, hbyte]
    rfl
  | case3 a b =>
    have ha := a.toNat_lt
    have hb := b.toNat_lt
    have hfirst :
        UInt8.ofNat (a.toNat / 4 * 4 + (a.toNat % 4 * 16 + b.toNat / 16) / 16) = a :=
      ofNat_split (by omega)
    have hsecond :
        UInt8.ofNat ((a.toNat % 4 * 16 + b.toNat / 16) % 16 * 16 + b.toNat % 16 * 4 / 4) = b :=
      ofNat_split (by omega)
    rw [encode, decodeFrom_first (by omega), decodeFrom_second (by omega),
      decodeFrom_third (by omega), decodeFrom_pad, hfirst, hsecond]
    rfl
  | case4 a b c rest ih =>
    have ha := a.toNat_lt
    have hb := b.toNat_lt
    have hc := c.toNat_lt
    have hfirst :
        UInt8.ofNat (a.toNat / 4 * 4 + (a.toNat % 4 * 16 + b.toNat / 16) / 16) = a :=
      ofNat_split (by omega)
    have hsecond :
        UInt8.ofNat ((a.toNat % 4 * 16 + b.toNat / 16) % 16 * 16 +
          (b.toNat % 16 * 4 + c.toNat / 64) / 4) = b := ofNat_split (by omega)
    have hthird :
        UInt8.ofNat ((b.toNat % 16 * 4 + c.toNat / 64) % 4 * 64 + c.toNat % 64) = c :=
      ofNat_split (by omega)
    rw [encode, decodeFrom_first (by omega), decodeFrom_second (by omega),
      decodeFrom_third (by omega), decodeFrom_fourth (by omega), ih, hfirst, hsecond, hthird]
    rfl

theorem encode_ascii (bytes : List UInt8) :
    (encode bytes).all (fun c => decide (c.toNat < 128)) = true := by
  induction bytes using encode.induct with
  | case1 => rfl
  | case2 a => simp [encode, digit_ascii]
  | case3 a b => simp [encode, digit_ascii]
  | case4 a b c rest ih => simp [encode, digit_ascii] at ih ⊢; exact ih

theorem decode_encode (bytes : List UInt8) : decode (encode bytes) = some bytes := by
  rw [decode, encode_ascii, if_pos rfl, decodeFrom_encode]

end Base64

/-! ## Texts -/

/-- `bytes.decode()`: strict UTF-8. -/
def utf8Decode (bytes : List UInt8) : Option String := String.fromUTF8? bytes.toByteArray

theorem utf8Decode_utf8 (s : String) : utf8Decode (utf8 s) = some s := by
  have hbytes : (utf8 s).toByteArray = s.toByteArray := String.utf8Encode_toList
  have hvalid : s.toByteArray.IsValidUTF8 := s.isValidUTF8
  simp only [utf8Decode, String.fromUTF8?, hbytes, dif_pos hvalid]
  rfl

/-- `base64.b64encode(s.encode()).decode()`. -/
def b64encode (s : String) : String := String.ofList (Base64.encode (utf8 s))

/-- `base64.b64decode(s).decode()`. -/
def b64decode (s : String) : Option String := (Base64.decode s.toList).bind utf8Decode

@[simp] theorem b64decode_b64encode (s : String) : b64decode (b64encode s) = some s := by
  simp [b64decode, b64encode, Base64.decode_encode, utf8Decode_utf8]

end OpenstackBlueprint.Kit
