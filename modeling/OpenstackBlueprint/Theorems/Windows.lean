import OpenstackBlueprint.Chart.Interval
import OpenstackBlueprint.Emitter.Window

/-!
# Schedules and windows

The chart turns an interval into a cron schedule, the emitter turns it into
windows of the epoch, and the schema decides which intervals both are given.

A schedule misses no window, because its longest gap is never longer than the
interval (`schedule_covers`). But the schema admits `0s`, on which the emitter
divides by zero, and numbers too long for Python to read.
-/

namespace OpenstackBlueprint.Theorems.Windows

open Kit Chart Emitter

section Interval

variable {digits : List Char} {unit : Char}

/-- The seconds of a unit. -/
def secondsOf (unit : Char) : Int :=
  if unit = 'h' then 3600 else if unit = 'm' then 60 else 1

theorem unitSeconds_eq (hunit : unit ∈ intervalUnits) : unitSeconds unit = .ok (secondsOf unit) := by
  rcases List.mem_cons.mp hunit with rfl | hunit
  · rfl
  · rcases List.mem_cons.mp hunit with rfl | hunit
    · rfl
    · rw [List.mem_singleton.mp hunit]
      rfl

theorem secondsOf_pos (unit : Char) : 0 < secondsOf unit := by
  unfold secondsOf
  split
  · decide
  · split <;> decide

/-- `int` reads a run of digits unless it is too long. -/
theorem intOfStr_digits (hdigits : isDigits digits = true) :
    intOfStr (String.ofList digits) =
      if intMaxStrDigits < digits.length then .error .valueError
      else .ok (digitsValue digits : Int) := by
  obtain ⟨hne, hall⟩ := isDigits_iff.mp hdigits
  unfold intOfStr
  rw [String.toList_ofList, List.filter_eq_self.mpr hall, pyInt_of_digits hne hall]
  rfl

/-- The length of an interval of the schema. -/
theorem parseInterval_eq (hdigits : isDigits digits = true) (hunit : unit ∈ intervalUnits) :
    parseInterval (String.ofList (digits ++ [unit])) =
      if intMaxStrDigits < digits.length then .error .valueError
      else .ok (digitsValue digits * secondsOf unit) := by
  unfold parseInterval
  rw [String.toList_ofList, List.dropLast_concat, intOfStr_digits hdigits]
  split
  · rfl
  · rw [List.getLast?_concat]
    simp only [bind, Except.bind]
    rw [unitSeconds_eq hunit]
    rfl

/-! ## Coverage -/

/-- The schedule of an interval fires in every stretch as long as the interval. -/
theorem schedule_covers {int : String → Int} (hunit : unit ∈ intervalUnits)
    (hint : int (String.ofList digits) = digitsValue digits)
    (hmin : 60 ≤ digitsValue digits * secondsOf unit) :
    ∃ schedule, Cron.parse (oshCronFromInterval int (String.ofList (digits ++ [unit]))) =
        some schedule ∧ Cron.Covers schedule (digitsValue digits * secondsOf unit) := by
  unfold oshCronFromInterval
  rw [hasSuffix_concat, hasSuffix_concat]
  rcases List.mem_cons.mp hunit with rfl | hunit
  · exact ⟨_, parse_every_minute, Cron.covers_any.mono hmin⟩
  · rcases List.mem_cons.mp hunit with rfl | hunit
    · -- minutes: every minute, a step, or hourly from sixty on
      have hlength : (digitsValue digits * secondsOf 'm' : Int) = 60 * digitsValue digits := by
        show (digitsValue digits * 60 : Int) = _
        omega
      rw [hlength] at hmin ⊢
      rw [if_neg (by decide), if_pos (by decide), trimSuffix_concat, hint]
      dsimp only
      split
      · exact ⟨_, parse_every_minute, Cron.covers_any.mono hmin⟩
      · split
        · exact ⟨_, parse_hourly, Cron.covers_hourly.mono (by omega)⟩
        · exact ⟨_, parse_minute_step (by omega), Cron.covers_minute_step (by omega)⟩
    · -- hours: hourly, or a step, which is daily from twenty-four on
      rw [List.mem_singleton.mp hunit]
      have hlength : (digitsValue digits * secondsOf 'h' : Int) = 3600 * digitsValue digits := by
        show (digitsValue digits * 3600 : Int) = _
        omega
      rw [List.mem_singleton.mp hunit, hlength] at hmin
      rw [hlength, if_pos (by decide), trimSuffix_concat, hint]
      dsimp only
      split
      · exact ⟨_, parse_hourly, Cron.covers_hourly.mono (by omega)⟩
      · exact ⟨_, parse_hour_step (by omega), Cron.covers_hour_step (by omega)⟩

end Interval

/-- Every window of an interval of at least a minute has a firing instant of the
interval's schedule in it, and a run at that instant reports on that window. -/
theorem every_window_sampled (int : String → Int) (interval : String)
    (hpattern : intervalPattern interval = true)
    (hint : int (String.ofList (intervalDigits interval)) = digitsValue (intervalDigits interval))
    (length : Int) (hlength : parseInterval interval = .ok length) (hmin : 60 ≤ length) (k : Int) :
    ∃ schedule, Cron.parse (oshCronFromInterval int interval) = some schedule ∧
      ∃ t : Int, k * length ≤ t ∧ t < (k + 1) * length ∧ schedule.Fires t ∧
        collectUsageWindow (some interval) t = .ok (k * length, (k + 1) * length) ∧
        collectHealthWindow (some interval) t = .ok (k * length) := by
  obtain ⟨digits, unit, rfl, hdigits, hunit⟩ := intervalPattern_iff.mp hpattern
  rw [intervalDigits_concat] at hint
  have heq := parseInterval_eq hdigits hunit
  rw [hlength] at heq
  split at heq
  · cases heq
  · obtain rfl := Except.ok.inj heq
    obtain ⟨schedule, hparse, hcovers⟩ := schedule_covers hunit hint hmin
    obtain ⟨t, hge, hlt, hfires⟩ := hcovers (k * (digitsValue digits * secondsOf unit))
    have hend : (k + 1) * (digitsValue digits * secondsOf unit : Int) =
        k * (digitsValue digits * secondsOf unit) + digitsValue digits * secondsOf unit := by ring
    rw [← hend] at hlt
    have hwindow := windows_of_length hlength (by omega) t
    rw [trunc_intCast, windowStart_eq hge hlt (by omega), ← hend] at hwindow
    exact ⟨schedule, hparse, t, hge, hlt, hfires, hwindow⟩

/-- Windows of seven minutes and the schedule that starts again every hour. -/
theorem seven_minutes_sampled :
    ∃ t : Int, 420 ≤ t ∧ t < 840 ∧ collectHealthWindow (some "7m") t = .ok 420 := by
  have hlength : parseInterval "7m" = .ok 420 := by rfl
  obtain ⟨_, _, t, hge, hlt, _, _, hhealth⟩ := every_window_sampled
    (fun s => digitsValue s.toList) "7m" (by decide) (by simp) 420 hlength (by decide) 1
  exact ⟨t, hge, hlt, hhealth⟩

/-! ## Intervals the emitter cannot run on -/

/-- The window computation raises nothing and yields the window that holds now. -/
def RunsOn (interval : String) (now : ℚ) : Prop :=
  ∃ length wstart : Int, parseInterval interval = .ok length ∧
    collectUsageWindow (some interval) now = .ok (wstart, wstart + length) ∧
    collectHealthWindow (some interval) now = .ok wstart ∧
    (wstart : ℚ) ≤ now ∧ now < wstart + length ∧ length ∣ wstart

/-- The window of an interval that is not zero holds now. -/
theorem runsOn_of_length {interval : String} {now : ℚ} {length : Int} (hnow : 0 ≤ now)
    (hlength : parseInterval interval = .ok length) (hpos : 0 < length) : RunsOn interval now := by
  obtain ⟨husage, hhealth⟩ := windows_of_length hlength hpos now
  obtain ⟨hle, hlt⟩ := trunc_le hnow
  have hdiv := Int.mul_ediv_add_emod (trunc now) length
  have hmod := Int.emod_nonneg (trunc now) hpos.ne'
  have hmodlt := Int.emod_lt_of_pos (trunc now) hpos
  have hcomm : trunc now / length * length = length * (trunc now / length) := Int.mul_comm _ _
  have hstart : trunc now / length * length ≤ trunc now := by omega
  have hend : trunc now + 1 ≤ trunc now / length * length + length := by omega
  refine ⟨length, _, hlength, husage, hhealth, ?_, ?_, Int.dvd_mul_left _ _⟩
  · exact (Int.cast_le.mpr hstart).trans hle
  · have : ((trunc now + 1 : Int) : ℚ) ≤ ((trunc now / length * length + length : Int) : ℚ) :=
      Int.cast_le.mpr hend
    push_cast at this
    exact hlt.trans_le (by exact_mod_cast this)

/-- On an interval of the schema, at any time from the epoch on, the emitter
runs exactly when the number is not zero and not too long to be read. -/
theorem runs_on_iff (interval : String) (now : ℚ) (hpattern : intervalPattern interval = true)
    (hnow : 0 ≤ now) :
    RunsOn interval now ↔ digitsValue (intervalDigits interval) ≠ 0 ∧
      (intervalDigits interval).length ≤ intMaxStrDigits := by
  obtain ⟨digits, unit, rfl, hdigits, hunit⟩ := intervalPattern_iff.mp hpattern
  rw [intervalDigits_concat]
  have heq := parseInterval_eq hdigits hunit
  constructor
  · rintro ⟨length, wstart, hlength, _, hhealth, _⟩
    rw [hlength] at heq
    split at heq
    · cases heq
    · rename_i hshort
      refine ⟨fun hzero => ?_, not_lt.mp hshort⟩
      -- a zero interval divides by zero
      rw [hzero] at heq
      obtain rfl := Except.ok.inj heq
      unfold collectHealthWindow at hhealth
      rw [Option.getD_some, hlength] at hhealth
      simp only [bind, Except.bind, Nat.cast_zero, zero_mul] at hhealth
      rw [windowStart_zero] at hhealth
      cases hhealth
  · rintro ⟨hzero, hshort⟩
    rw [if_neg (not_lt.mpr hshort)] at heq
    refine runsOn_of_length hnow heq (mul_pos ?_ (secondsOf_pos unit))
    exact_mod_cast Nat.pos_of_ne_zero hzero

/-- The default interval of the health emitter. -/
theorem one_minute_runs : RunsOn "1m" (1 / 2) :=
  (runs_on_iff "1m" (1 / 2) (by decide) (by norm_num)).mpr ⟨by decide, by decide⟩

/-- The schema admits `0s`, and the emitter divides by zero. -/
theorem zero_seconds_raise :
    intervalPattern "0s" = true ∧ ¬ RunsOn "0s" 0 ∧
      collectHealthWindow (some "0s") 0 = .error .zeroDivisionError := by
  have hraise : collectHealthWindow (some "0s") 0 = .error .zeroDivisionError := by rfl
  refine ⟨by decide, ?_, hraise⟩
  rintro ⟨_, wstart, _, _, hhealth, _⟩
  rw [hraise] at hhealth
  cases hhealth

end OpenstackBlueprint.Theorems.Windows
