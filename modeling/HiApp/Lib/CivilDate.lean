import Mathlib.Algebra.GroupWithZero.Nat
import Mathlib.Data.List.Basic

/-!
# Days and their dates

The Gregorian calendar is counted in days from 1 March of the year 0, so that the leap day is
the last of its year.
-/

namespace HiApp

@[ext]
structure CivilDate where
  year : ℕ
  month : ℕ
  day : ℕ
  deriving DecidableEq

namespace CivilDate

/-- The days before 1 March of a year. -/
def daysBeforeYear (year : ℕ) : ℕ := 365 * year + year / 4 - year / 100 + year / 400

/-- The days from 1 March to the first of a month, which is counted from March. -/
def daysBeforeMonth (month : ℕ) : ℕ := (153 * month + 2) / 5

/-- The year that a day is in, if years begin in March. -/
def yearOfDays (days : ℕ) : ℕ :=
  let dayOfEra := days % 146097
  let century := min (dayOfEra / 36524) 3
  let dayOfCentury := dayOfEra - 36524 * century
  let yearOfCycle := min (dayOfCentury % 1461 / 365) 3
  400 * (days / 146097) + 100 * century + 4 * (dayOfCentury / 1461) + yearOfCycle

def monthOfDayOfYear (dayOfYear : ℕ) : ℕ := (5 * dayOfYear + 2) / 153

/-- The date of a day.  January and February belong to the next year. -/
def ofDays (days : ℕ) : CivilDate :=
  let year := yearOfDays days
  let dayOfYear := days - daysBeforeYear year
  let month := monthOfDayOfYear dayOfYear
  { year := if month < 10 then year else year + 1
    month := if month < 10 then month + 3 else month - 9
    day := dayOfYear - daysBeforeMonth month + 1 }

/-- A leap year every four years, but not at three of four centuries. -/
theorem daysBeforeYear_eq {era century cycle yearOfCycle : ℕ} (hcentury : century ≤ 3)
    (hcycle : cycle ≤ 24) (hyear : yearOfCycle ≤ 3) :
    daysBeforeYear (400 * era + 100 * century + 4 * cycle + yearOfCycle) =
      146097 * era + 36524 * century + 1461 * cycle + 365 * yearOfCycle := by
  have hfour : (400 * era + 100 * century + 4 * cycle + yearOfCycle) / 4 =
      100 * era + 25 * century + cycle := by
    omega
  have hhundred : (400 * era + 100 * century + 4 * cycle + yearOfCycle) / 100 =
      4 * era + century := by
    omega
  have hfourHundred : (400 * era + 100 * century + 4 * cycle + yearOfCycle) / 400 = era := by
    omega
  rw [daysBeforeYear, hfour, hhundred, hfourHundred]
  omega

theorem daysBeforeYear_yearOfDays_le (days : ℕ) :
    daysBeforeYear (yearOfDays days) ≤ days ∧
      days - daysBeforeYear (yearOfDays days) < 366 := by
  unfold yearOfDays
  dsimp only
  rw [daysBeforeYear_eq (by omega) (by omega) (by omega)]
  omega

theorem daysBeforeMonth_le {dayOfYear : ℕ} (h : dayOfYear < 366) :
    daysBeforeMonth (monthOfDayOfYear dayOfYear) ≤ dayOfYear ∧
      dayOfYear - daysBeforeMonth (monthOfDayOfYear dayOfYear) < 31 ∧
      monthOfDayOfYear dayOfYear < 12 := by
  unfold daysBeforeMonth monthOfDayOfYear
  omega

/-- A day from its year, month and day. -/
theorem eq_of_ofDays (days : ℕ) :
    ∃ year month, month < 12 ∧
      days = daysBeforeYear year + daysBeforeMonth month + ((ofDays days).day - 1) ∧
      (ofDays days).year = (if month < 10 then year else year + 1) ∧
      (ofDays days).month = if month < 10 then month + 3 else month - 9 := by
  obtain ⟨hyear, hdayOfYear⟩ := daysBeforeYear_yearOfDays_le days
  obtain ⟨hmonth, -, hlt⟩ := daysBeforeMonth_le hdayOfYear
  refine ⟨yearOfDays days, monthOfDayOfYear (days - daysBeforeYear (yearOfDays days)), hlt, ?_,
    rfl, rfl⟩
  unfold ofDays
  dsimp only
  omega

/-- Different days have different dates. -/
theorem ofDays_injective : Function.Injective ofDays := by
  intro days days' h
  obtain ⟨year, month, hlt, hdays, hyear, hmonth⟩ := eq_of_ofDays days
  obtain ⟨year', month', hlt', hdays', hyear', hmonth'⟩ := eq_of_ofDays days'
  rw [h] at hdays hyear hmonth
  rw [hmonth] at hmonth'
  rw [hyear] at hyear'
  obtain rfl : month = month' := by
    split at hmonth' <;> split at hmonth' <;> omega
  obtain rfl : year = year' := by
    split at hyear'
    · exact hyear'
    · exact Nat.succ.inj hyear'
  rw [hdays, ← hdays']

/-- The months are numbered from 1 to 12, and the days of each from 1 to at most 31. -/
theorem ofDays_bounds (days : ℕ) :
    (1 ≤ (ofDays days).month ∧ (ofDays days).month ≤ 12) ∧
      1 ≤ (ofDays days).day ∧ (ofDays days).day ≤ 31 := by
  obtain ⟨hyear, hdayOfYear⟩ := daysBeforeYear_yearOfDays_le days
  obtain ⟨-, hday, hlt⟩ := daysBeforeMonth_le hdayOfYear
  unfold ofDays
  dsimp only
  refine ⟨?_, Nat.succ_pos _, hday⟩
  split
  · omega
  · omega

example : ofDays 719468 = { year := 1970, month := 1, day := 1 } := by decide

/-! ### The text of a date -/

/-- A number with zeros before it. -/
def padded (width n : ℕ) : List Char := (Nat.toDigits 10 n).leftpad width '0'

theorem padded_injective (width : ℕ) : Function.Injective (padded width) := by
  intro m n h
  have hvalue : ∀ k, Nat.ofDigitChars 10 (padded width k) 0 = k := by
    intro k
    rw [padded, List.leftpad, Nat.ofDigitChars_append, Nat.ofDigitChars_replicate_zero,
      Nat.mul_zero, Nat.ofDigitChars_toDigits (by omega) (by omega)]
  rw [← hvalue m, h, hvalue]

theorem length_padded {width n : ℕ} (hwidth : 0 < width) (h : n < 10 ^ width) :
    (padded width n).length = width := by
  have hle := (Nat.length_toDigits_le_iff (by omega) hwidth).mpr h
  rw [padded, List.length_leftpad, Nat.max_eq_left hle]

/-- `yyyy-MM-dd`. -/
def format (date : CivilDate) : String :=
  String.ofList (padded 4 date.year ++ '-' :: padded 2 date.month ++ '-' :: padded 2 date.day)

/-- The text of a day tells which it is. -/
theorem format_ofDays_injective : Function.Injective fun days ↦ format (ofDays days) := by
  intro days days' h
  have hmonthLength : ∀ days, (padded 2 (ofDays days).month).length = 2 := by
    intro days
    have hle := (ofDays_bounds days).1.2
    exact length_padded (by omega) (by omega)
  have hdayLength : ∀ days, (padded 2 (ofDays days).day).length = 2 := by
    intro days
    have hle := (ofDays_bounds days).2.2
    exact length_padded (by omega) (by omega)
  have hchars := String.ofList_injective h
  obtain ⟨hfront, hday⟩ := List.append_inj' hchars (by simp [hdayLength])
  obtain ⟨hyear, hmonth⟩ := List.append_inj' hfront (by simp [hmonthLength])
  refine ofDays_injective (CivilDate.ext ?_ ?_ ?_)
  · exact padded_injective 4 hyear
  · exact padded_injective 2 ((List.cons_inj_right _).mp hmonth)
  · exact padded_injective 2 ((List.cons_inj_right _).mp hday)

end CivilDate

end HiApp
