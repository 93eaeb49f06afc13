import OpenstackBlueprint.Kit.Text

/-!
# Cron schedules

Schedules of five fields of which the last three, for the days, are open. A
minute or hour field is `*`, a number, or `*/n`, which holds at the multiples of
`n` and starts again with every hour, or with every day.

Instants are seconds of the UTC epoch, before it too, and the schedule fires at
full minutes. What a schedule misses is bounded by `Covers`: every stretch of so
many seconds has a firing instant in it, wherever it starts. The rule behind all
instances is that among `n` consecutive numbers one leaves a multiple of `n`
modulo the field's range (`exists_step`): the next multiple, or the restart when
that comes first.
-/

namespace OpenstackBlueprint.Kit.Cron

/-- A minute or hour field. -/
inductive Field
  | any
  | step (n : Nat)
  | exactly (n : Nat)
  deriving DecidableEq, Repr

/-- The field holds at a minute of the hour, or at an hour of the day. -/
def Field.Holds : Field → Int → Prop
  | any, _ => True
  | step n, v => v % n = 0
  | exactly n, v => v = n

/-- A schedule that is open in its day fields. -/
structure Schedule where
  minute : Field
  hour : Field
  deriving DecidableEq, Repr

/-- The schedule fires at this instant. -/
def Schedule.Fires (s : Schedule) (t : Int) : Prop :=
  t % 60 = 0 ∧ s.minute.Holds (t / 60 % 60) ∧ s.hour.Holds (t / 3600 % 24)

/-! ## Reading a schedule -/

/-- A non-empty run of digits. -/
def number (cs : List Char) : Option Nat :=
  if cs ≠ [] ∧ ∀ c ∈ cs, c.isDigit = true then some (Nat.ofDigitChars 10 cs 0) else none

/-- A field whose numbers are below `bound`. A step of zero is refused. -/
def parseField (bound : Nat) (text : String) : Option Field :=
  match text.toList with
  | ['*'] => some .any
  | '*' :: '/' :: digits => (number digits).bind fun n => if n = 0 then none else some (.step n)
  | digits => (number digits).bind fun n => if n < bound then some (.exactly n) else none

/-- A schedule whose day fields are `*`. -/
def parse (text : String) : Option Schedule :=
  match splitList ' ' text with
  | [minute, hour, day, month, weekday] =>
    if day = "*" ∧ month = "*" ∧ weekday = "*" then do
      return ⟨← parseField 60 minute, ← parseField 24 hour⟩
    else none
  | _ => none

theorem number_toDigits (n : Nat) : number (Nat.toDigits 10 n) = some n := by
  unfold number
  rw [if_pos, Nat.ofDigitChars_ten_toDigits]
  exact ⟨Nat.toDigits_ne_nil, fun c hc => Nat.isDigit_of_mem_toDigits (by omega) (by omega) hc⟩

/-- The text of a step is read as that step. -/
theorem parseField_step (bound : Nat) {n : Nat} (hn : 0 < n) :
    parseField bound ("*/" ++ toString n) = some (.step n) := by
  have htext : ("*/" ++ toString n).toList = '*' :: '/' :: Nat.toDigits 10 n := by simp
  unfold parseField
  rw [htext]
  show (number (Nat.toDigits 10 n)).bind _ = _
  rw [number_toDigits, Option.bind_some, if_neg (by omega)]

/-- Zero is a minute and an hour. -/
theorem parseField_zero {bound : Nat} (h : 0 < bound) :
    parseField bound "0" = some (.exactly 0) := by
  have hzero : number ['0'] = some 0 := by
    have := number_toDigits 0
    rwa [Nat.toDigits_zero] at this
  unfold parseField
  split
  · rename_i heq
    exact absurd heq (by decide)
  · rename_i digits heq
    exact absurd heq (by simp)
  · rw [show "0".toList = ['0'] from rfl, hzero, Option.bind_some, if_pos h]

theorem parseField_any (bound : Nat) : parseField bound "*" = some .any := rfl

/-- A schedule is read field by field. -/
theorem parse_fields (minute hour : String) {text : String} {m h : Field}
    (htext : text.toList = minute.toList ++ ' ' :: (hour.toList ++ " * * *".toList))
    (hminute : ' ' ∉ minute.toList) (hhour : ' ' ∉ hour.toList)
    (hm : parseField 60 minute = some m) (hh : parseField 24 hour = some h) :
    parse text = some ⟨m, h⟩ := by
  have hjoin : text = join ' ' [minute, hour, "*", "*", "*"] := by
    refine String.toList_inj.mp (htext.trans ?_)
    simp [toList_join, List.intercalate]
  have hsplit : splitList ' ' text = [minute, hour, "*", "*", "*"] := by
    rw [hjoin]
    refine splitList_join (List.cons_ne_nil _ _) ?_
    simp only [List.forall_mem_cons]
    exact ⟨hminute, hhour, by decide, by decide, by decide, List.forall_mem_nil _⟩
  unfold parse
  rw [hsplit]
  dsimp only
  rw [if_pos ⟨rfl, rfl, rfl⟩, hm, hh]
  rfl

/-! ## Coverage -/

/-- Every stretch of this many seconds has a firing instant in it. -/
def Covers (s : Schedule) (seconds : Int) : Prop :=
  ∀ a, ∃ t, a ≤ t ∧ t < a + seconds ∧ s.Fires t

theorem Covers.mono {s : Schedule} {a b : Int} (h : Covers s a) (hle : a ≤ b) : Covers s b := by
  intro start
  obtain ⟨t, hge, hlt, hfires⟩ := h start
  exact ⟨t, hge, by omega, hfires⟩

/-- Among `n` consecutive numbers one is a multiple of `n` modulo `m`. -/
theorem exists_step {m n : Int} (hm : 0 < m) (hn : 0 < n) (q : Int) :
    ∃ j, q ≤ j ∧ j < q + n ∧ j % m % n = 0 := by
  have hr := Int.emod_nonneg q hm.ne'
  have hrm := Int.emod_lt_of_pos q hm
  have hdiv := Int.mul_ediv_add_emod q m
  -- the first multiple of `n` from `q % m` on
  obtain ⟨i, hlo, hhi⟩ : ∃ i, q % m ≤ n * i ∧ n * i < q % m + n := by
    have h := Int.mul_ediv_add_emod (q % m + n - 1) n
    have hlt := Int.emod_lt_of_pos (q % m + n - 1) hn
    have hge := Int.emod_nonneg (q % m + n - 1) hn.ne'
    exact ⟨(q % m + n - 1) / n, by omega, by omega⟩
  by_cases hnext : n * i < m
  · -- it comes before the field starts again
    refine ⟨q + (n * i - q % m), by omega, by omega, ?_⟩
    have hmod : (q + (n * i - q % m)) % m = n * i := by
      have hsplit : q + (n * i - q % m) = n * i + m * (q / m) := by omega
      rw [hsplit, Int.add_mul_emod_self_left, Int.emod_eq_of_lt (by omega) hnext]
    rw [hmod, Int.mul_emod_right]
  · -- the field starts again before the next multiple
    refine ⟨q + (m - q % m), by omega, by omega, ?_⟩
    have hmod : (q + (m - q % m)) % m = 0 := by
      have hsplit : q + (m - q % m) = m * (q / m + 1) := by
        rw [mul_add, mul_one]
        omega
      rw [hsplit, Int.mul_emod_right]
    rw [hmod, Int.zero_emod]

/-- The same on a scale of `u` seconds. -/
theorem exists_scaled {u m n : Int} (hu : 0 < u) (hm : 0 < m) (hn : 0 < n) (a : Int) :
    ∃ t, a ≤ t ∧ t < a + u * n ∧ t % u = 0 ∧ t / u % m % n = 0 := by
  -- the first full unit from `a` on, and the step from there
  have hdiv := Int.mul_ediv_add_emod (a + u - 1) u
  have hlt := Int.emod_lt_of_pos (a + u - 1) hu
  have hge := Int.emod_nonneg (a + u - 1) hu.ne'
  obtain ⟨j, hqj, hjn, hj⟩ := exists_step hm hn ((a + u - 1) / u)
  have hlo : u * ((a + u - 1) / u) ≤ u * j := mul_le_mul_of_nonneg_left hqj hu.le
  have hhi : u * j ≤ u * ((a + u - 1) / u + n - 1) :=
    mul_le_mul_of_nonneg_left (by omega) hu.le
  have hexp : u * ((a + u - 1) / u + n - 1) = u * ((a + u - 1) / u) + u * n - u := by ring
  refine ⟨u * j, by omega, by omega, Int.mul_emod_right _ _, ?_⟩
  rw [Int.mul_ediv_cancel_left _ hu.ne']
  exact hj

/-- `* * * * *` -/
theorem covers_any : Covers ⟨.any, .any⟩ 60 := by
  intro a
  obtain ⟨t, hge, hlt, hmod, _⟩ := exists_scaled (u := 60) (m := 1) (n := 1) (by omega)
    (by omega) (by omega) a
  exact ⟨t, hge, by omega, hmod, trivial, trivial⟩

/-- `*/n * * * *` -/
theorem covers_minute_step {n : Nat} (hn : 0 < n) : Covers ⟨.step n, .any⟩ (60 * n) := by
  intro a
  obtain ⟨t, hge, hlt, hmod, hstep⟩ := exists_scaled (u := 60) (m := 60) (n := n) (by omega)
    (by omega) (by omega) a
  exact ⟨t, hge, hlt, hmod, hstep, trivial⟩

/-- `0 * * * *` -/
theorem covers_hourly : Covers ⟨.exactly 0, .any⟩ 3600 := by
  intro a
  obtain ⟨t, hge, hlt, hmod, _⟩ := exists_scaled (u := 3600) (m := 1) (n := 1) (by omega)
    (by omega) (by omega) a
  refine ⟨t, hge, by omega, by omega, ?_, trivial⟩
  show t / 60 % 60 = ((0 : Nat) : Int)
  omega

/-- `0 */n * * *` -/
theorem covers_hour_step {n : Nat} (hn : 0 < n) : Covers ⟨.exactly 0, .step n⟩ (3600 * n) := by
  intro a
  obtain ⟨t, hge, hlt, hmod, hstep⟩ := exists_scaled (u := 3600) (m := 24) (n := n) (by omega)
    (by omega) (by omega) a
  refine ⟨t, hge, hlt, by omega, ?_, hstep⟩
  show t / 60 % 60 = ((0 : Nat) : Int)
  omega

end OpenstackBlueprint.Kit.Cron
