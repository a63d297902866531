import Mathlib.Tactic.IntervalCases

/-!
# The Gregorian calendar

Days are counted from the first of January of the year zero, by the lengths of years and months.
`Date.dayNumber_lt_iff` says that dates are ordered as their day numbers, so a day number has at
most one date, and `Date.dayNumber_lt` that the days of a year lie before the next year.
-/

namespace ObsMcp.Foundations.Calendar

def isLeap (year : ℕ) : Bool :=
  year % 4 == 0 && (year % 100 != 0 || year % 400 == 0)

def yearLength (year : ℕ) : ℕ :=
  if isLeap year then 366 else 365

/-- The days of a month, zero for a number that is no month. -/
def monthLength (year month : ℕ) : ℕ :=
  match month with
  | 1 | 3 | 5 | 7 | 8 | 10 | 12 => 31
  | 4 | 6 | 9 | 11 => 30
  | 2 => if isLeap year then 29 else 28
  | _ => 0

/-- The days of all earlier years. -/
def daysBeforeYear : ℕ → ℕ
  | 0 => 0
  | year + 1 => daysBeforeYear year + yearLength year

/-- The days of the earlier months of a year. -/
def daysBeforeMonth (year : ℕ) : ℕ → ℕ
  | 0 => 0
  | month + 1 => daysBeforeMonth year month + monthLength year month

theorem daysBeforeYear_mono {first last : ℕ} (hle : first ≤ last) :
    daysBeforeYear first ≤ daysBeforeYear last := by
  induction hle with
  | refl => exact Nat.le_refl _
  | step _ ih => exact Nat.le_trans ih (Nat.le_add_right _ _)

theorem daysBeforeMonth_mono (year : ℕ) {first last : ℕ} (hle : first ≤ last) :
    daysBeforeMonth year first ≤ daysBeforeMonth year last := by
  induction hle with
  | refl => exact Nat.le_refl _
  | step _ ih => exact Nat.le_trans ih (Nat.le_add_right _ _)

/-- The days before a day, given by its year, its month and its place in the month. -/
def dayNumber (year month day : ℕ) : ℕ :=
  daysBeforeYear year + daysBeforeMonth year month + (day - 1)

/-- The twelve months make up the year. -/
theorem daysBeforeMonth_thirteen (year : ℕ) : daysBeforeMonth year 13 = yearLength year := by
  simp only [daysBeforeMonth, monthLength, yearLength]
  split_ifs <;> rfl

/-- A day of the calendar. -/
structure Date where
  year : ℕ
  month : ℕ
  day : ℕ
  one_le_month : 1 ≤ month
  month_le : month ≤ 12
  one_le_day : 1 ≤ day
  day_le : day ≤ monthLength year month

namespace Date

variable (date : Date)

/-- The days before a date. -/
def dayNumber : ℕ :=
  Calendar.dayNumber date.year date.month date.day

theorem daysBeforeMonth_add_lt :
    daysBeforeMonth date.year date.month + (date.day - 1) <
      daysBeforeMonth date.year (date.month + 1) := by
  have hone := date.one_le_day
  have hday := date.day_le
  show _ < daysBeforeMonth date.year date.month + monthLength date.year date.month
  omega

theorem dayNumber_lt : date.dayNumber < daysBeforeYear (date.year + 1) := by
  have hmonth := date.daysBeforeMonth_add_lt
  have hyear : daysBeforeMonth date.year (date.month + 1) ≤ daysBeforeMonth date.year 13 :=
    daysBeforeMonth_mono _ (Nat.succ_le_succ date.month_le)
  rw [daysBeforeMonth_thirteen] at hyear
  show _ < daysBeforeYear date.year + yearLength date.year
  unfold dayNumber Calendar.dayNumber
  omega

/-- The order of years, then months, then days. -/
def Before (first last : Date) : Prop :=
  first.year < last.year ∨ first.year = last.year ∧
    (first.month < last.month ∨ first.month = last.month ∧ first.day < last.day)

variable {first last : Date}

theorem dayNumber_lt_of_before (hbefore : first.Before last) :
    first.dayNumber < last.dayNumber := by
  obtain hyear | ⟨hyear, hmonth | ⟨hmonth, hday⟩⟩ := hbefore
  · calc first.dayNumber < daysBeforeYear (first.year + 1) := first.dayNumber_lt
      _ ≤ daysBeforeYear last.year := daysBeforeYear_mono hyear
      _ ≤ last.dayNumber := by
        unfold dayNumber Calendar.dayNumber
        omega
  · have hfirst := first.daysBeforeMonth_add_lt
    have hmonths : daysBeforeMonth first.year (first.month + 1) ≤
        daysBeforeMonth first.year last.month := daysBeforeMonth_mono _ hmonth
    unfold dayNumber Calendar.dayNumber
    rw [← hyear]
    omega
  · have hone := first.one_le_day
    unfold dayNumber Calendar.dayNumber
    rw [hyear, hmonth]
    omega

theorem eq_of_not_before (hfirst : ¬ first.Before last) (hlast : ¬ last.Before first) :
    first.year = last.year ∧ first.month = last.month ∧ first.day = last.day := by
  unfold Before at hfirst hlast
  omega

/-- Dates are ordered as their day numbers. -/
theorem dayNumber_lt_iff : first.dayNumber < last.dayNumber ↔ first.Before last := by
  refine ⟨fun hless ↦ ?_, dayNumber_lt_of_before⟩
  by_contra hbefore
  by_cases hafter : last.Before first
  · exact absurd (dayNumber_lt_of_before hafter) (Nat.lt_asymm hless)
  · obtain ⟨hyear, hmonth, hday⟩ := eq_of_not_before hbefore hafter
    unfold dayNumber at hless
    rw [hyear, hmonth, hday] at hless
    exact Nat.lt_irrefl _ hless

/-- A day number has one date. -/
theorem eq_of_dayNumber_eq (hsame : first.dayNumber = last.dayNumber) :
    first.year = last.year ∧ first.month = last.month ∧ first.day = last.day :=
  eq_of_not_before (fun hbefore ↦ (dayNumber_lt_of_before hbefore).ne hsame)
    fun hbefore ↦ (dayNumber_lt_of_before hbefore).ne' hsame

end Date

end ObsMcp.Foundations.Calendar
