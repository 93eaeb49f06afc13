import OpenstackBlueprint.Kit.Python

/-!
# The window of an emission (`contract-emitter.py`)

Each run of the emitter computes the window it reports on from the interval and
the clock: the multiple of the interval at or before now. `collect_usage` and
`collect_health` do it in the same two lines, with different defaults.

The clock is a fraction of seconds, and `int` cuts it off. Python 3.12 refuses to
read more than 4300 digits, and a division by zero raises.
-/

namespace OpenstackBlueprint.Emitter

open Kit

/-- The exceptions of the window computation. -/
inductive PyError
  | valueError
  | indexError
  | keyError
  | zeroDivisionError
  deriving DecidableEq, Repr

/-- `sys.get_int_max_str_digits()`. -/
def intMaxStrDigits : Nat := 4300

/-- `int(s)` of a string. -/
def intOfStr (s : String) : Except PyError Int :=
  -- the limit counts digits only
  if intMaxStrDigits < (s.toList.filter Char.isDigit).length then .error .valueError
  else
    match pyInt s with
    | some n => .ok n
    | none => .error .valueError

/-- `{"s": 1, "m": 60, "h": 3600}[c]`. -/
def unitSeconds : Char → Except PyError Int
  | 's' => .ok 1
  | 'm' => .ok 60
  | 'h' => .ok 3600
  | _ => .error .keyError

/-- `parse_interval(s)`. -/
def parseInterval (s : String) : Except PyError Int := do
  let n ← intOfStr (String.ofList s.toList.dropLast)
  match s.toList.getLast? with
  | none => .error .indexError
  | some c => return n * (← unitSeconds c)

/-- `int(x)` of a number. -/
def trunc (x : ℚ) : Int := if 0 ≤ x then ⌊x⌋ else ⌈x⌉

/-- `a // b`. -/
def floorDiv (a b : Int) : Except PyError Int :=
  if b = 0 then .error .zeroDivisionError else .ok (a.fdiv b)

/-- `int(time.time()) // interval * interval`. -/
def windowStart (interval : Int) (now : ℚ) : Except PyError Int := do
  return (← floorDiv (trunc now) interval) * interval

/-- The window of `collect_usage`: `wstart` and `wend`. -/
def collectUsageWindow (env : Option String) (now : ℚ) : Except PyError (Int × Int) := do
  let interval ← parseInterval (env.getD "5m")
  let wstart ← windowStart interval now
  return (wstart, wstart + interval)

/-- The window of `collect_health`: `wstart`. -/
def collectHealthWindow (env : Option String) (now : ℚ) : Except PyError Int := do
  let interval ← parseInterval (env.getD "1m")
  windowStart interval now

/-! ## What the computation yields -/

theorem ok_of_toOption {α : Type} {x : Except PyError α} {a : α} (h : x.toOption = some a) :
    x = .ok a := by
  cases x with
  | error e => cases h
  | ok b => rw [Option.some.inj h]

theorem windowStart_zero (now : ℚ) : windowStart 0 now = .error .zeroDivisionError := rfl

theorem windowStart_pos {interval : Int} (h : 0 < interval) (now : ℚ) :
    windowStart interval now = .ok (trunc now / interval * interval) := by
  unfold windowStart floorDiv
  rw [if_neg h.ne', Int.fdiv_eq_ediv_of_nonneg _ h.le]
  rfl

theorem trunc_intCast (t : Int) : trunc t = t := by
  unfold trunc
  split
  · exact Int.floor_intCast t
  · exact Int.ceil_intCast t

theorem trunc_le {now : ℚ} (h : 0 ≤ now) : (trunc now : ℚ) ≤ now ∧ now < trunc now + 1 := by
  unfold trunc
  rw [if_pos h]
  exact ⟨Int.floor_le now, Int.lt_floor_add_one now⟩

/-- Both windows, from an interval that is read and is not zero. -/
theorem windows_of_length {interval : String} {length : Int}
    (hlength : parseInterval interval = .ok length) (hpos : 0 < length) (now : ℚ) :
    collectUsageWindow (some interval) now =
        .ok (trunc now / length * length, trunc now / length * length + length) ∧
      collectHealthWindow (some interval) now = .ok (trunc now / length * length) := by
  unfold collectUsageWindow collectHealthWindow
  rw [Option.getD_some, Option.getD_some, hlength]
  simp only [bind, Except.bind]
  rw [windowStart_pos hpos]
  exact ⟨rfl, rfl⟩

/-- The start of the window that holds an instant. -/
theorem windowStart_eq {t k length : Int} (hge : k * length ≤ t) (hlt : t < (k + 1) * length)
    (hpos : 0 < length) : t / length = k := by
  refine le_antisymm ?_ ((Int.le_ediv_iff_mul_le hpos).mpr hge)
  exact Int.lt_add_one_iff.mp ((Int.ediv_lt_iff_lt_mul hpos).mpr hlt)

end OpenstackBlueprint.Emitter
