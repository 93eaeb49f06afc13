import OpenstackBlueprint.Kit.Dict

/-!
# Python values and strings

What the Python tools do with decoded JSON and with text. `none` stands for an
exception: `j["k"]` on a mapping without `k`, `.get` on something that is not a
mapping, a loop over a number. JSON numbers are integers here; no field the
tools read holds a fraction.
-/

namespace OpenstackBlueprint.Kit

/-- A decoded JSON value. -/
inductive Json
  | null
  | bool (b : Bool)
  | num (n : Int)
  | str (s : String)
  | arr (items : List Json)
  | obj (fields : List (String × Json))
  deriving Repr

namespace Json

/-! ## Access -/

/-- `bool(j)`. -/
def truthy : Json → Bool
  | null => false
  | bool b => b
  | num n => n != 0
  | str s => s != ""
  | arr items => !items.isEmpty
  | obj fields => !fields.isEmpty

/-- `j or d`. -/
def orElse (j d : Json) : Json := if j.truthy then j else d

/-- `j is None`. -/
def isNone : Json → Bool
  | null => true
  | _ => false

/-- `j[k]` for a string `k`. -/
def index (j : Json) (k : String) : Option Json :=
  match j with
  | obj fields => fields.lookup k
  | _ => none

/-- `j.get(k, d)`. -/
def getD (j : Json) (k : String) (d : Json) : Option Json :=
  match j with
  | obj fields => some ((fields.lookup k).getD d)
  | _ => none

/-- `j.get(k)`. -/
def get (j : Json) (k : String) : Option Json := j.getD k null

/-- `k in j` for a mapping. -/
def hasKey (j : Json) (k : String) : Bool := (j.index k).isSome

/-- `len(j)`. -/
def len : Json → Option Nat
  | str s => some s.length
  | arr items => some items.length
  | obj fields => some fields.length
  | _ => none

/-- `j[0]`. A mapping has no integer key. -/
def first : Json → Option Json
  | str s => s.toList.head?.map fun c => str (String.ofList [c])
  | arr items => items.head?
  | _ => none

/-- What `for x in j` goes through. -/
def elems : Json → Option (List Json)
  | str s => some (s.toList.map fun c => str (String.ofList [c]))
  | arr items => some items
  | obj fields => some (fields.map fun f => str f.1)
  | _ => none

/-- `j == s` for a string. -/
def eqStr (j : Json) (s : String) : Bool :=
  match j with
  | str t => t == s
  | _ => false

/-- `j == n` for an integer: `True` and `False` are 1 and 0. -/
def eqInt (j : Json) (n : Int) : Bool :=
  match j with
  | num m => m == n
  | bool b => (if b then 1 else 0) == n
  | _ => false

/-- The string a value is. -/
def asStr : Json → Option String
  | str s => some s
  | _ => none

/-- `j[k] = v` on a mapping. -/
def setField (j : Json) (k : String) (v : Json) : Json :=
  match j with
  | obj fields => obj ((k, v) :: fields.filter fun f => f.1 != k)
  | j => j

theorem index_setField_ne {j : Json} {k k' : String} {v : Json} (h : k' ≠ k) :
    (j.setField k v).index k' = j.index k' := by
  cases j with
  | obj fields =>
    simp only [setField, index, List.lookup_cons, beq_false_of_ne h, lookup_filter_ne h]
  | _ => rfl

theorem getD_setField_ne {j : Json} {k k' : String} {v d : Json} (h : k' ≠ k) :
    (j.setField k v).getD k' d = j.getD k' d := by
  cases j with
  | obj fields =>
    simp only [setField, getD, List.lookup_cons, beq_false_of_ne h, lookup_filter_ne h]
  | _ => rfl

theorem index_setField_self {j : Json} {k : String} {v : Json} (h : (j.index k).isSome) :
    (j.setField k v).index k = some v := by
  cases j with
  | obj fields => simp [setField, index]
  | _ => cases h

/-! ## `str` and `repr` -/

/-- `repr` of a string: single quotes, unless it holds one and no double
quote. -/
def reprStr (s : String) : String :=
  let quote := if '\'' ∈ s.toList ∧ '"' ∉ s.toList then '"' else '\''
  let escape := fun c : Char =>
    if c = quote ∨ c = '\\' then ['\\', c]
    else if c = '\n' then ['\\', 'n']
    else if c = '\t' then ['\\', 't']
    else if c = '\r' then ['\\', 'r']
    else [c]
  String.ofList (quote :: s.toList.flatMap escape ++ [quote])

mutual

/-- `repr(j)`. -/
def pyRepr : Json → String
  | null => "None"
  | bool b => if b then "True" else "False"
  | num n => toString n
  | str s => reprStr s
  | arr items => "[" ++ String.intercalate ", " (reprItems items) ++ "]"
  | obj fields => "\x7b" ++ String.intercalate ", " (reprFields fields) ++ "\x7d"

def reprItems : List Json → List String
  | [] => []
  | j :: rest => pyRepr j :: reprItems rest

def reprFields : List (String × Json) → List String
  | [] => []
  | (k, j) :: rest => (reprStr k ++ ": " ++ pyRepr j) :: reprFields rest

end

/-- `str(j)`, as an f-string writes it. -/
def pyStr : Json → String
  | str s => s
  | j => pyRepr j

/-! ## `json.dumps` -/

/-- Four lower-case hexadecimal digits. -/
def hex4 (n : Nat) : List Char :=
  [12, 8, 4, 0].map fun shift => Nat.digitChar ((n >>> shift) % 16)

/-- One character of a JSON string, in ASCII. -/
def dumpsChar (c : Char) : List Char :=
  let n := c.toNat
  if c = '"' ∨ c = '\\' then ['\\', c]
  else if c = '\n' then ['\\', 'n']
  else if c = '\r' then ['\\', 'r']
  else if c = '\t' then ['\\', 't']
  else if n = 8 then ['\\', 'b']
  else if n = 12 then ['\\', 'f']
  else if 32 ≤ n ∧ n ≤ 126 then [c]
  else if n < 0x10000 then '\\' :: 'u' :: hex4 n
  else '\\' :: 'u' :: hex4 (0xd800 + (n - 0x10000) / 1024) ++
    '\\' :: 'u' :: hex4 (0xdc00 + (n - 0x10000) % 1024)

def dumpsStr (s : String) : String :=
  String.ofList ('"' :: s.toList.flatMap dumpsChar ++ ['"'])

mutual

/-- `json.dumps(j)`. -/
def dumps : Json → String
  | null => "null"
  | bool b => if b then "true" else "false"
  | num n => toString n
  | str s => dumpsStr s
  | arr items => "[" ++ String.intercalate ", " (dumpsItems items) ++ "]"
  | obj fields => "\x7b" ++ String.intercalate ", " (dumpsFields fields) ++ "\x7d"

def dumpsItems : List Json → List String
  | [] => []
  | j :: rest => dumps j :: dumpsItems rest

def dumpsFields : List (String × Json) → List String
  | [] => []
  | (k, j) :: rest => (dumpsStr k ++ ": " ++ dumps j) :: dumpsFields rest

end

end Json

/-! ## Strings -/

/-- `needle in s`. -/
def hasSubstring (needle s : String) : Bool :=
  decide (needle.toList <:+: s.toList)

/-- `s.startswith(p)`. -/
def startsWith (p s : String) : Bool :=
  p.toList.isPrefixOf s.toList

/-- `s.endswith(p)`. -/
def endsWith (p s : String) : Bool :=
  p.toList.isSuffixOf s.toList

/-- `c.isspace()`. -/
def isSpace (c : Char) : Bool :=
  let n := c.toNat
  (9 ≤ n && n ≤ 13) || (28 ≤ n && n ≤ 32) || n == 0x85 || n == 0xa0 || n == 0x1680 ||
    (0x2000 ≤ n && n ≤ 0x200a) || n == 0x2028 || n == 0x2029 || n == 0x202f || n == 0x205f ||
    n == 0x3000

/-- `s.strip()`. -/
def strip (s : String) : String :=
  String.ofList ((s.toList.dropWhile isSpace).reverse.dropWhile isSpace).reverse

/-- `s.rstrip("/")`. -/
def rstripSlash (s : String) : String :=
  String.ofList (s.toList.reverse.dropWhile (· == '/')).reverse

/-- `os.path.basename(p)`. -/
def basename (p : String) : String :=
  String.ofList (p.toList.reverse.takeWhile (· != '/')).reverse

/-- A character that ends a line for `splitlines`. -/
def isLineBreak (c : Char) : Bool :=
  let n := c.toNat
  (10 ≤ n && n ≤ 13) || (28 ≤ n && n ≤ 30) || n == 0x85 || n == 0x2028 || n == 0x2029

/-- The lines of a text; `line` holds the characters of the current one. -/
def splitLinesFrom (line : List Char) : List Char → List String
  | [] => if line.isEmpty then [] else [String.ofList line.reverse]
  | '\r' :: '\n' :: rest => String.ofList line.reverse :: splitLinesFrom [] rest
  | c :: rest =>
    if isLineBreak c then String.ofList line.reverse :: splitLinesFrom [] rest
    else splitLinesFrom (c :: line) rest

/-- `s.splitlines()`. -/
def splitLines (s : String) : List String := splitLinesFrom [] s.toList

/-- `s.split()`: the words between runs of white space. -/
def splitWords (s : String) : List String :=
  ((s.toList.splitOnP isSpace).filter fun word => !word.isEmpty).map String.ofList

/-- `k, _, v = s.partition("=")` for a separator of one character. -/
def partition (sep : Char) (s : String) : String × String :=
  (String.ofList (s.toList.takeWhile (· != sep)),
    String.ofList (s.toList.dropWhile (· != sep)).tail)

/-- The value of a run of digits with single underscores between them. -/
def digitsFrom (acc : Int) : List Char → Option Int
  | [] => some acc
  | '_' :: c :: rest =>
    if c.isDigit then digitsFrom (acc * 10 + (c.toNat - 48 : Nat)) rest else none
  | c :: rest => if c.isDigit then digitsFrom (acc * 10 + (c.toNat - 48 : Nat)) rest else none

/-- `int(s)`, on the ASCII digits. -/
def pyInt (s : String) : Option Int :=
  match (strip s).toList with
  | '+' :: c :: rest => if c.isDigit then digitsFrom 0 (c :: rest) else none
  | '-' :: c :: rest => if c.isDigit then (digitsFrom 0 (c :: rest)).map (-·) else none
  | c :: rest => if c.isDigit then digitsFrom 0 (c :: rest) else none
  | [] => none

/-! ## Decimal numbers -/

section Decimal

variable {cs : List Char}

/-- A run of digits is read as a number in base ten. -/
theorem digitsFrom_of_digits (hdigits : ∀ c ∈ cs, c.isDigit = true) (acc : Nat) :
    digitsFrom acc cs = some ((Nat.ofDigitChars 10 cs acc : Nat) : Int) := by
  induction cs generalizing acc with
  | nil => rfl
  | cons c rest ih =>
    obtain ⟨hc, hrest⟩ := List.forall_mem_cons.mp hdigits
    have hvalue : ((acc : Int) * 10 + (c.toNat - 48 : Nat)) =
        ((10 * acc + (c.toNat - '0'.toNat) : Nat) : Int) := by
      show _ = ((10 * acc + (c.toNat - 48) : Nat) : Int)
      omega
    rw [Nat.ofDigitChars_cons, ← ih hrest, ← hvalue]
    conv_lhs => unfold digitsFrom
    split
    · rename_i heq
      cases heq
    · rename_i heq
      cases heq
      cases hc
    · rename_i heq
      cases heq
      rw [if_pos hc]

theorem toNat_of_isDigit {c : Char} (h : c.isDigit = true) : 48 ≤ c.toNat ∧ c.toNat ≤ 57 := by
  unfold Char.isDigit at h
  rw [Bool.and_eq_true, decide_eq_true_eq, decide_eq_true_eq] at h
  exact ⟨UInt32.le_iff_toNat_le.mp h.1, UInt32.le_iff_toNat_le.mp h.2⟩

/-- A digit is no space. -/
theorem isSpace_of_isDigit {c : Char} (h : c.isDigit = true) : isSpace c = false := by
  have hrange := toNat_of_isDigit h
  unfold isSpace
  simp only [Bool.or_eq_false_iff, Bool.and_eq_false_iff, decide_eq_false_iff_not, not_le,
    beq_eq_false_iff_ne]
  omega

theorem strip_of_digits (hdigits : ∀ c ∈ cs, c.isDigit = true) :
    strip (String.ofList cs) = String.ofList cs := by
  have hdrop : ∀ l : List Char, (∀ c ∈ l, c.isDigit = true) → l.dropWhile isSpace = l := by
    intro l hl
    cases l with
    | nil => rfl
    | cons c rest =>
      rw [List.dropWhile_cons_of_neg]
      simp [isSpace_of_isDigit (hl c List.mem_cons_self)]
  unfold strip
  rw [String.toList_ofList, hdrop cs hdigits,
    hdrop cs.reverse fun c hc => hdigits c (List.mem_reverse.mp hc), List.reverse_reverse]

/-- `int(s)` on a non-empty run of digits. -/
theorem pyInt_of_digits (hne : cs ≠ []) (hdigits : ∀ c ∈ cs, c.isDigit = true) :
    pyInt (String.ofList cs) = some ((Nat.ofDigitChars 10 cs 0 : Nat) : Int) := by
  rw [← digitsFrom_of_digits hdigits 0]
  unfold pyInt
  rw [strip_of_digits hdigits, String.toList_ofList]
  cases cs with
  | nil => exact absurd rfl hne
  | cons c rest =>
    have hc := hdigits c List.mem_cons_self
    split
    · rename_i heq
      cases heq
      cases hc
    · rename_i heq
      cases heq
      cases hc
    · rename_i heq
      cases heq
      rw [if_pos hc]
      rfl
    · rename_i heq
      cases heq

end Decimal

/-! ## Lines -/

section Lines

variable {l : List Char}

/-- A line without a break in it ends at the first newline. -/
theorem splitLinesFrom_newline (h : ∀ c ∈ l, isLineBreak c = false) (line rest : List Char) :
    splitLinesFrom line (l ++ '\n' :: rest) =
      String.ofList (line.reverse ++ l) :: splitLinesFrom [] rest := by
  induction l generalizing line with
  | nil =>
    rw [List.nil_append, List.append_nil]
    conv_lhs => unfold splitLinesFrom
    rfl
  | cons c l ih =>
    obtain ⟨hc, hl⟩ := List.forall_mem_cons.mp h
    rw [List.cons_append]
    conv_lhs => unfold splitLinesFrom
    split
    · rename_i heq
      cases heq
    · rename_i heq
      rw [(List.cons.inj heq).1] at hc
      cases hc
    · rename_i heq
      cases heq
      rw [hc, if_neg (by decide), ih hl]
      simp

/-- A digit ends no line. -/
theorem isLineBreak_of_isDigit {c : Char} (h : c.isDigit = true) : isLineBreak c = false := by
  have hrange := toNat_of_isDigit h
  unfold isLineBreak
  simp only [Bool.or_eq_false_iff, Bool.and_eq_false_iff, decide_eq_false_iff_not, not_le,
    beq_eq_false_iff_ne]
  omega

/-- What stands before and after the first separator. -/
theorem partition_append {sep : Char} {key : List Char} (h : sep ∉ key) (value : List Char) :
    partition sep (String.ofList (key ++ sep :: value)) =
      (String.ofList key, String.ofList value) := by
  have hkey : ∀ c ∈ key, (c != sep) = true := by
    intro c hc
    rw [bne_iff_ne]
    rintro rfl
    exact h hc
  unfold partition
  rw [String.toList_ofList, List.takeWhile_append_of_pos hkey, List.dropWhile_append_of_pos hkey,
    List.takeWhile_cons_of_neg (by simp), List.dropWhile_cons_of_neg (by simp), List.append_nil]
  rfl

/-- The first line goes up to the first break. -/
theorem splitLinesFrom_head (line l : List Char) (hne : line ++ l ≠ []) :
    ∃ rest, splitLinesFrom line l =
      String.ofList (line.reverse ++ l.takeWhile fun c => !isLineBreak c) :: rest := by
  induction l generalizing line with
  | nil =>
    rw [List.append_nil] at hne
    unfold splitLinesFrom
    rw [if_neg (by simpa using hne)]
    exact ⟨[], by simp⟩
  | cons c l ih =>
    unfold splitLinesFrom
    split
    · rename_i heq
      cases heq
    · rename_i rest heq
      cases heq
      exact ⟨splitLinesFrom [] rest, by simp [isLineBreak]⟩
    · rename_i heq
      cases heq
      split
      · rename_i hbreak
        exact ⟨splitLinesFrom [] l, by simp [hbreak]⟩
      · rename_i hbreak
        obtain ⟨rest, hrest⟩ := ih (c :: line) (by simp)
        exact ⟨rest, by rw [hrest]; simp [hbreak]⟩

/-- What ends a line is white space. -/
theorem isSpace_of_isLineBreak {c : Char} (h : isLineBreak c = true) : isSpace c = true := by
  unfold isLineBreak at h
  unfold isSpace
  simp only [Bool.or_eq_true, Bool.and_eq_true, decide_eq_true_eq, beq_iff_eq] at h ⊢
  omega

end Lines

/-! ## Words -/

section Words

variable {a b : List Char} {c : Char}

/-- Words on both sides of white space. -/
theorem splitWords_append (hc : isSpace c = true) :
    splitWords (String.ofList (a ++ c :: b)) =
      splitWords (String.ofList a) ++ splitWords (String.ofList b) := by
  unfold splitWords
  rw [String.toList_ofList, String.toList_ofList, String.toList_ofList,
    List.splitOnP_append_cons _ _ hc, List.filter_append, List.map_append]

/-- A word is its own only word. -/
theorem splitWords_word (hne : a ≠ []) (ha : ∀ c ∈ a, isSpace c = false) :
    splitWords (String.ofList a) = [String.ofList a] := by
  unfold splitWords
  rw [String.toList_ofList, List.splitOnP_eq_singleton ha]
  simp [hne]

/-- No piece of a split holds what it was split at. -/
theorem not_mem_of_mem_splitOnP {p : Char → Bool} {l : List Char} :
    ∀ piece ∈ l.splitOnP p, ∀ c ∈ piece, p c = false := by
  induction l with
  | nil => simp
  | cons x l ih =>
    intro piece hpiece
    rw [List.splitOnP_cons_eq_if_modifyHead] at hpiece
    split at hpiece
    · rcases List.mem_cons.mp hpiece with rfl | h
      · simp
      · exact ih piece h
    · rename_i hx
      cases hsplit : l.splitOnP p with
      | nil => exact absurd hsplit (List.splitOnP_ne_nil p l)
      | cons first rest =>
        rw [hsplit] at hpiece ih
        rcases List.mem_cons.mp hpiece with rfl | h
        · intro c hc
          rcases List.mem_cons.mp hc with rfl | hc
          · simpa using hx
          · exact ih first List.mem_cons_self c hc
        · exact ih piece (List.mem_cons_of_mem _ h)

/-- A word is not empty and holds no white space. -/
theorem word_of_mem_splitWords {s word : String} (h : word ∈ splitWords s) :
    word.toList ≠ [] ∧ ∀ c ∈ word.toList, isSpace c = false := by
  unfold splitWords at h
  obtain ⟨piece, hpiece, rfl⟩ := List.mem_map.mp h
  obtain ⟨hmem, hne⟩ := List.mem_filter.mp hpiece
  rw [String.toList_ofList]
  exact ⟨by simpa using hne, not_mem_of_mem_splitOnP piece hmem⟩

end Words

/-! ## Loops -/

section Collect

variable {α β : Type*} {f : α → Option (List β)} {l : List α} {out : List β}

/-- What the rounds of a loop append to a list, unless one of them raises. -/
def collect (f : α → Option (List β)) : List α → Option (List β)
  | [] => some []
  | a :: rest => do
    let first ← f a
    let others ← collect f rest
    return first ++ others

theorem collect_isSome : (collect f l).isSome ↔ ∀ a ∈ l, (f a).isSome := by
  induction l with
  | nil => simp [collect]
  | cons a rest ih =>
    rw [List.forall_mem_cons, ← ih, collect]
    cases f a with
    | none => simp
    | some first =>
      cases collect f rest with
      | none => simp
      | some others => simp

theorem mem_collect (h : collect f l = some out) {b : β} :
    b ∈ out ↔ ∃ a ∈ l, ∃ first, f a = some first ∧ b ∈ first := by
  induction l generalizing out with
  | nil =>
    obtain rfl := Option.some.inj h
    simp
  | cons a rest ih =>
    obtain ⟨first, hfirst, h⟩ := Option.bind_eq_some_iff.mp h
    obtain ⟨others, hothers, h⟩ := Option.bind_eq_some_iff.mp h
    obtain rfl := Option.some.inj h
    rw [List.mem_append, ih hothers, List.exists_mem_cons_iff]
    simp [hfirst]

end Collect

/-! ## Checks that may refuse -/

section Checks

variable {ε α β : Type}

theorem except_bind_ok {x : Except ε α} {f : α → Except ε β} {b : β} :
    x >>= f = .ok b ↔ ∃ a, x = .ok a ∧ f a = .ok b := by
  cases x with
  | error e => simp [bind, Except.bind]
  | ok a => simp [bind, Except.bind]

/-- What a list of checks yields is what each of them yields. -/
theorem mem_mapM_ok {f : α → Except ε β} {l : List α} {out : List β} (h : l.mapM f = .ok out)
    {b : β} : b ∈ out ↔ ∃ a ∈ l, f a = .ok b := by
  induction l generalizing out with
  | nil =>
    obtain rfl := Except.ok.inj h
    simp
  | cons a rest ih =>
    rw [List.mapM_cons] at h
    obtain ⟨first, hfirst, h⟩ := except_bind_ok.mp h
    obtain ⟨others, hothers, h⟩ := except_bind_ok.mp h
    obtain rfl := Except.ok.inj h
    rw [List.mem_cons, ih hothers, List.exists_mem_cons_iff, hfirst, Except.ok.injEq, eq_comm]

end Checks

end OpenstackBlueprint.Kit
