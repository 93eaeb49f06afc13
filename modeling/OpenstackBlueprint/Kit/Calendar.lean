import Mathlib

/-!
# Calendar dates of seconds since the epoch

The broken-down UTC time of an instant, as the C library computes it: the days
are counted from the first of March 2000, so that a leap day ends its year, and
cut into cycles of 400, 100 and 4 years. A cycle's last part may be one longer
than the others, which is where the quotients are capped.

The result determines the instant (`ofSeconds_inj`), and its text determines the
result (`dateTime_inj`).
-/

namespace OpenstackBlueprint.Kit

/-- A broken-down time. -/
structure Tm where
  year : Int
  month : Int
  day : Int
  hour : Int
  minute : Int
  second : Int
  deriving DecidableEq, Repr

namespace Tm

/-- Days from the epoch to the first of March 2000. -/
def leapEpochDays : Int := 11017

/-- The year that starts with March and the day of it, of a day counted from the
first of March 2000. -/
def marchYear (days : Int) : Int × Int :=
  let cycles400 := days / 146097
  let rest400 := days % 146097
  let cycles100 := min (rest400 / 36524) 3
  let rest100 := rest400 - cycles100 * 36524
  let cycles4 := min (rest100 / 1461) 24
  let rest4 := rest100 - cycles4 * 1461
  let years := min (rest4 / 365) 3
  (years + 4 * cycles4 + 100 * cycles100 + 400 * cycles400, rest4 - years * 365)

/-- `time.gmtime(ts)`, without its range check. -/
def ofSeconds (ts : Int) : Tm :=
  let (years, dayOfYear) := marchYear (ts / 86400 - leapEpochDays)
  -- months have 31, 30, 31, 30, 31 days in turn, from March on
  let months := (5 * dayOfYear + 2) / 153
  let rest := ts % 86400
  { year := 2000 + years + (if months < 10 then 0 else 1)
    month := if months < 10 then months + 3 else months - 9
    day := dayOfYear - (153 * months + 2) / 5 + 1
    hour := rest / 3600
    minute := rest / 60 % 60
    second := rest % 60 }

/-! ## A date determines its instant -/

theorem marchYear_day (days : Int) : 0 ≤ (marchYear days).2 ∧ (marchYear days).2 ≤ 365 := by
  unfold marchYear
  dsimp only
  omega

/-- The day that a year and a day of it are. -/
def dayOfMarchYear (years dayOfYear : Int) : Int :=
  years / 400 * 146097 + years % 400 / 100 * 36524 + years % 100 / 4 * 1461 + years % 4 * 365 +
    dayOfYear

/-- The cycles of a year can be read off it. -/
theorem cycles_of_year {cycles400 cycles100 cycles4 years year : Int}
    (hyear : year = years + 4 * cycles4 + 100 * cycles100 + 400 * cycles400)
    (h100 : 0 ≤ cycles100 ∧ cycles100 ≤ 3) (h4 : 0 ≤ cycles4 ∧ cycles4 ≤ 24)
    (h1 : 0 ≤ years ∧ years ≤ 3) :
    year / 400 = cycles400 ∧ year % 400 / 100 = cycles100 ∧ year % 100 / 4 = cycles4 ∧
      year % 4 = years := by
  have h400 : year / 400 = cycles400 := by omega
  have hmod : year % 400 = years + 4 * cycles4 + 100 * cycles100 := by omega
  have hmod' : year % 100 = years + 4 * cycles4 := by omega
  refine ⟨h400, ?_, ?_, ?_⟩
  · omega
  · omega
  · omega

theorem dayOfMarchYear_marchYear (days : Int) :
    dayOfMarchYear (marchYear days).1 (marchYear days).2 = days := by
  have hyear : (marchYear days).1 = _ := rfl
  obtain ⟨h400, h100, h4, h1⟩ := cycles_of_year hyear (by omega) (by omega) (by omega)
  unfold dayOfMarchYear
  rw [h400, h100, h4, h1]
  unfold marchYear
  dsimp only
  omega

/-- A date and a time of day belong to one second. -/
theorem ofSeconds_inj {ts ts' : Int} (h : ofSeconds ts = ofSeconds ts') : ts = ts' := by
  have hday := marchYear_day (ts / 86400 - leapEpochDays)
  have hday' := marchYear_day (ts' / 86400 - leapEpochDays)
  have heq := dayOfMarchYear_marchYear (ts / 86400 - leapEpochDays)
  have heq' := dayOfMarchYear_marchYear (ts' / 86400 - leapEpochDays)
  unfold ofSeconds at h
  simp only [mk.injEq] at h
  generalize marchYear (ts / 86400 - leapEpochDays) = d at h hday heq
  generalize marchYear (ts' / 86400 - leapEpochDays) = d' at h hday' heq'
  obtain ⟨years, dayOfYear⟩ := d
  obtain ⟨years', dayOfYear'⟩ := d'
  obtain ⟨hyear, hmonth, hday₁, hhour, hminute, hsecond⟩ := h
  dsimp only at hday hday' heq heq' hyear hmonth hday₁
  have hmonths : (5 * dayOfYear + 2) / 153 = (5 * dayOfYear' + 2) / 153 := by omega
  have hdays : ts / 86400 = ts' / 86400 := by
    have hyears : years = years' := by
      rw [hmonths] at hyear
      omega
    have hof : dayOfYear = dayOfYear' := by omega
    rw [hyears, hof, heq'] at heq
    omega
  omega

/-- Every field of a broken-down time has two digits, the year apart. -/
structure TwoDigits (tm : Tm) : Prop where
  month : 0 ≤ tm.month ∧ tm.month < 100
  day : 0 ≤ tm.day ∧ tm.day < 100
  hour : 0 ≤ tm.hour ∧ tm.hour < 100
  minute : 0 ≤ tm.minute ∧ tm.minute < 100
  second : 0 ≤ tm.second ∧ tm.second < 100

theorem twoDigits_ofSeconds (ts : Int) : (ofSeconds ts).TwoDigits := by
  have hday := marchYear_day (ts / 86400 - leapEpochDays)
  unfold ofSeconds
  generalize marchYear (ts / 86400 - leapEpochDays) = d at hday
  obtain ⟨years, dayOfYear⟩ := d
  dsimp only at hday
  constructor <;> (dsimp only; omega)

/-! ## Text -/

/-- A number below a hundred, in two digits. -/
def digits2 (n : Int) : List Char :=
  [Nat.digitChar (n.toNat / 10 % 10), Nat.digitChar (n.toNat % 10)]

/-- A number in at least `width` digits. -/
def zeroPad (width n : Nat) : List Char :=
  List.replicate (width - (Nat.toDigits 10 n).length) '0' ++ Nat.toDigits 10 n

/-- `%Y`: four characters or more, the sign among them. -/
def yearText (year : Int) : List Char :=
  if year < 0 then '-' :: zeroPad 3 year.natAbs else zeroPad 4 year.natAbs

/-- `%Y-%m-%d` and `%H:%M:%S` with a text between them and one after them. -/
def dateTime (between after : List Char) (tm : Tm) : String :=
  String.ofList (yearText tm.year ++ ('-' :: digits2 tm.month ++ '-' :: digits2 tm.day ++ between ++
    digits2 tm.hour ++ ':' :: digits2 tm.minute ++ ':' :: digits2 tm.second ++ after))

theorem digits2_inj {m n : Int} (hm : 0 ≤ m ∧ m < 100) (hn : 0 ≤ n ∧ n < 100)
    (h : digits2 m = digits2 n) : m = n := by
  have hvalue : ∀ k : Int, Nat.ofDigitChars 10 (digits2 k) 0 =
      10 * (k.toNat / 10 % 10) + k.toNat % 10 := by
    intro k
    unfold digits2
    rw [Nat.ofDigitChars_cons_digitChar_of_lt_ten (Nat.mod_lt _ (by decide)),
      Nat.ofDigitChars_cons_digitChar_of_lt_ten (Nat.mod_lt _ (by decide)), Nat.ofDigitChars_nil]
    omega
  have hm' := hvalue m
  have hn' := hvalue n
  rw [h] at hm'
  omega

theorem zeroPad_inj {width m n : Nat} (h : zeroPad width m = zeroPad width n) : m = n := by
  have hvalue : ∀ k : Nat, Nat.ofDigitChars 10 (zeroPad width k) 0 = k := by
    intro k
    unfold zeroPad
    rw [Nat.ofDigitChars_append, Nat.ofDigitChars_replicate_zero, Nat.mul_zero,
      Nat.ofDigitChars_ten_toDigits]
  rw [← hvalue m, h, hvalue n]

theorem isDigit_of_mem_zeroPad {width n : Nat} {c : Char} (h : c ∈ zeroPad width n) :
    c.isDigit = true := by
  rcases List.mem_append.mp h with h | h
  · rw [List.eq_of_mem_replicate h]
    rfl
  · exact Nat.isDigit_of_mem_toDigits (by decide) (by decide) h

theorem yearText_inj {year year' : Int} (h : yearText year = yearText year') : year = year' := by
  have hsign : ∀ n m : Nat, '-' :: zeroPad 3 n ≠ zeroPad 4 m := by
    intro n m heq
    have hdash : '-' ∈ zeroPad 4 m := heq ▸ List.mem_cons_self
    exact absurd (isDigit_of_mem_zeroPad hdash) (by decide)
  unfold yearText at h
  split at h
  · split at h
    · have := zeroPad_inj (List.cons.inj h).2
      omega
    · exact absurd h (hsign _ _)
  · split at h
    · exact absurd h.symm (hsign _ _)
    · have := zeroPad_inj h
      omega

/-- The text of a broken-down time determines it. -/
theorem dateTime_inj {between after : List Char} {tm tm' : Tm} (htm : tm.TwoDigits)
    (htm' : tm'.TwoDigits) (h : dateTime between after tm = dateTime between after tm') :
    tm = tm' := by
  have hlist := String.ofList_injective h
  -- everything after the year has the same length
  obtain ⟨hyear, hrest⟩ := List.append_inj' hlist (by simp [digits2])
  simp only [digits2, List.cons_append, List.nil_append, List.append_assoc, List.cons.injEq,
    true_and, List.append_cancel_left_eq] at hrest
  obtain ⟨hm₁, hm₂, hd₁, hd₂, hH₁, hH₂, hM₁, hM₂, hS₁, hS₂, _⟩ := hrest
  obtain ⟨year, month, day, hour, minute, second⟩ := tm
  obtain ⟨year', month', day', hour', minute', second'⟩ := tm'
  rw [mk.injEq]
  refine ⟨yearText_inj hyear, digits2_inj htm.month htm'.month ?_, digits2_inj htm.day htm'.day ?_,
    digits2_inj htm.hour htm'.hour ?_, digits2_inj htm.minute htm'.minute ?_,
    digits2_inj htm.second htm'.second ?_⟩
  · exact List.cons_eq_cons.mpr ⟨hm₁, by rw [hm₂]⟩
  · exact List.cons_eq_cons.mpr ⟨hd₁, by rw [hd₂]⟩
  · exact List.cons_eq_cons.mpr ⟨hH₁, by rw [hH₂]⟩
  · exact List.cons_eq_cons.mpr ⟨hM₁, by rw [hM₂]⟩
  · exact List.cons_eq_cons.mpr ⟨hS₁, by rw [hS₂]⟩

/-- A character that is no digit, dash or colon is in the text of a time only as
one of the given separators. -/
theorem not_mem_dateTime {between after : List Char} {tm : Tm} {c : Char}
    (hdigit : c.isDigit = false) (hdash : c ≠ '-') (hcolon : c ≠ ':') (hbetween : c ∉ between)
    (hafter : c ∉ after) : c ∉ (dateTime between after tm).toList := by
  have hpad : ∀ width n : Nat, c ∉ zeroPad width n := by
    intro width n h
    rw [isDigit_of_mem_zeroPad h] at hdigit
    cases hdigit
  have hyear : c ∉ yearText tm.year := by
    unfold yearText
    split
    · exact List.not_mem_cons_of_ne_of_not_mem hdash (hpad _ _)
    · exact hpad _ _
  have hdigits : ∀ n : Int, c ∉ digits2 n := by
    intro n h
    have hdigitChar : ∀ k : Nat, c ≠ Nat.digitChar (k % 10) := by
      rintro k rfl
      rw [Nat.isDigit_digitChar, decide_eq_false_iff_not] at hdigit
      exact hdigit (Nat.mod_lt k (by decide))
    rcases List.mem_cons.mp h with h | h
    · exact hdigitChar _ h
    · exact hdigitChar _ (List.mem_singleton.mp h)
  unfold dateTime
  rw [String.toList_ofList]
  simp only [List.mem_append, List.mem_cons, not_or]
  simp only [hyear, hdigits, hdash, hcolon, hbetween, hafter, not_false_eq_true, and_self]

end Tm

end OpenstackBlueprint.Kit
