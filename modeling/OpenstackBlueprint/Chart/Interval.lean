import OpenstackBlueprint.Chart.Versions
import OpenstackBlueprint.Kit.Cron

/-!
# Emission intervals (`values.schema.json`, `_helpers.tpl`)

An interval is a number and a unit, `90s`, `5m` or `2h`. The schema admits it by
a pattern, and `osh.cronFromInterval` makes the schedule of an emitter's CronJob
from it. Sub-minute intervals become every minute, minutes from sixty on hourly.

Sprig's `int` is a parameter of the template: what it reads from a number
depends on the library's notion of a literal.
-/

namespace OpenstackBlueprint.Chart

open Kit

/-- The units of an interval. -/
def intervalUnits : List Char := ['s', 'm', 'h']

/-- `^[0-9]+(s|m|h)$`, the pattern of `usage.interval` and `health.interval`. -/
def intervalPattern (s : String) : Bool :=
  match s.toList.getLast? with
  | none => false
  | some c => intervalUnits.contains c && isDigits s.toList.dropLast

/-- `N` of an interval `Ns`, `Nm` or `Nh`. -/
def intervalDigits (s : String) : List Char := s.toList.dropLast

/-- `osh.cronFromInterval`; `int` is Sprig's. -/
def oshCronFromInterval (int : String → Int) (interval : String) : String :=
  if hasSuffix 'h' interval then
    let n := int (trimSuffix 'h' interval)
    if n ≤ 1 then "0 * * * *" else "0 */" ++ toString n ++ " * * *"
  else if hasSuffix 'm' interval then
    let n := int (trimSuffix 'm' interval)
    if n ≤ 1 then "* * * * *"
    -- a minute field has no step of an hour or more
    else if 60 ≤ n then "0 * * * *"
    else "*/" ++ toString n ++ " * * * *"
  else "* * * * *"

/-- The strings the pattern admits. -/
theorem intervalPattern_iff {s : String} : intervalPattern s = true ↔
    ∃ digits unit, s = String.ofList (digits ++ [unit]) ∧ isDigits digits = true ∧
      unit ∈ intervalUnits := by
  constructor
  · intro h
    unfold intervalPattern at h
    cases hlast : s.toList.getLast? with
    | none =>
      rw [hlast] at h
      cases h
    | some unit =>
      rw [hlast] at h
      dsimp only at h
      rw [Bool.and_eq_true, List.contains_iff_mem] at h
      refine ⟨s.toList.dropLast, unit, ?_, h.2, h.1⟩
      rw [List.dropLast_append_getLast? unit hlast, String.ofList_toList]
  · rintro ⟨digits, unit, rfl, hdigits, hunit⟩
    unfold intervalPattern
    simp [hdigits, hunit]

theorem intervalDigits_concat (digits : List Char) (unit : Char) :
    intervalDigits (String.ofList (digits ++ [unit])) = digits := by
  simp [intervalDigits]

/-- A run of digits, as a property of its characters. -/
theorem isDigits_iff {cs : List Char} :
    isDigits cs = true ↔ cs ≠ [] ∧ ∀ c ∈ cs, c.isDigit = true := by
  unfold isDigits
  rw [Bool.and_eq_true, List.all_eq_true]
  simp

/-! ## The schedules -/

/-- The number of a decimal reading, printed again. -/
theorem toString_natCast (n : Nat) : toString (n : Int) = toString n := rfl

theorem parse_every_minute : Cron.parse "* * * * *" = some ⟨.any, .any⟩ :=
  Cron.parse_fields "*" "*" (by simp) (by decide) (by decide) (Cron.parseField_any 60)
    (Cron.parseField_any 24)

theorem parse_hourly : Cron.parse "0 * * * *" = some ⟨.exactly 0, .any⟩ :=
  Cron.parse_fields "0" "*" (by simp) (by decide) (by decide) (Cron.parseField_zero (by decide))
    (Cron.parseField_any 24)

theorem space_not_mem_step (n : Nat) : ' ' ∉ ("*/" ++ toString n).toList := by
  simp only [String.toList_append, List.mem_append, not_or]
  refine ⟨by decide, fun h => ?_⟩
  have := Nat.isDigit_of_mem_toDigits (b := 10) (by omega) (by omega)
    (show ' ' ∈ Nat.toDigits 10 n by simpa using h)
  cases this

theorem parse_minute_step {n : Nat} (hn : 0 < n) :
    Cron.parse ("*/" ++ toString (n : Int) ++ " * * * *") = some ⟨.step n, .any⟩ := by
  rw [toString_natCast]
  exact Cron.parse_fields ("*/" ++ toString n) "*" (by simp) (space_not_mem_step n) (by decide)
    (Cron.parseField_step 60 hn) (Cron.parseField_any 24)

theorem parse_hour_step {n : Nat} (hn : 0 < n) :
    Cron.parse ("0 */" ++ toString (n : Int) ++ " * * *") = some ⟨.exactly 0, .step n⟩ := by
  rw [toString_natCast]
  exact Cron.parse_fields "0" ("*/" ++ toString n) (by simp) (by decide) (space_not_mem_step n)
    (Cron.parseField_zero (by decide)) (Cron.parseField_step 24 hn)

end OpenstackBlueprint.Chart
