import Mathlib.Algebra.Order.Ring.Int

/-! # Days of the Gregorian calendar

A day is counted from 1 January of year 1. Components may lie outside their
ranges, as a lenient calendar takes them: a month past December belongs to the
next year, and a day past the end of its month to the next month.
-/

namespace Calendar

def isLeap (year : Int) : Bool := year % 4 = 0 && (year % 100 ≠ 0 || year % 400 = 0)

/-- The length of a month, counted from 0 for January. -/
def daysInMonth (year : Int) (month : Nat) : Int :=
  if month = 1 then (if isLeap year then 29 else 28)
  else if month = 3 ∨ month = 5 ∨ month = 8 ∨ month = 10 then 30
  else 31

def daysBeforeMonth (year : Int) : Nat → Int
  | 0 => 0
  | month + 1 => daysBeforeMonth year month + daysInMonth year month

def daysBeforeYear (year : Int) : Int :=
  365 * (year - 1) + (year - 1) / 4 - (year - 1) / 100 + (year - 1) / 400

/-- The number of the day with these components, of which `month` counts from 1. -/
def dayNumber (year month day : Int) : Int :=
  daysBeforeYear (year + (month - 1) / 12) +
    daysBeforeMonth (year + (month - 1) / 12) ((month - 1) % 12).toNat + (day - 1)

theorem daysInMonth_bounds (year : Int) (month : Nat) :
    28 ≤ daysInMonth year month ∧ daysInMonth year month ≤ 31 := by
  unfold daysInMonth
  split
  · split <;> omega
  · split <;> omega

theorem daysBeforeYear_succ (year : Int) :
    daysBeforeYear (year + 1) = daysBeforeYear year + daysBeforeMonth year 11 + 31 := by
  have months : daysBeforeMonth year 11 = 306 + daysInMonth year 1 := by
    simp [daysBeforeMonth, daysInMonth]
    omega
  rw [months]
  unfold daysBeforeYear daysInMonth isLeap
  split
  · split
    · rename_i leap
      simp only [Bool.and_eq_true, Bool.or_eq_true, decide_eq_true_eq] at leap
      omega
    · rename_i common
      simp only [Bool.and_eq_true, Bool.or_eq_true, decide_eq_true_eq, not_and_or, not_or]
        at common
      omega
  · contradiction

theorem dayNumber_add_day (year month day k : Int) :
    dayNumber year month (day + k) = dayNumber year month day + k := by
  unfold dayNumber
  omega

/-- The same day of the next month is as many days later as the month is long. -/
theorem dayNumber_next_month (year day : Int) {month : Int} (first : 1 ≤ month)
    (last : month ≤ 12) :
    dayNumber year (month + 1) day =
      dayNumber year month day + daysInMonth year (month - 1).toNat := by
  have here : (month - 1) / 12 = 0 ∧ (month - 1) % 12 = month - 1 := by omega
  rcases eq_or_ne month 12 with rfl | earlier
  · have december : daysInMonth year (12 - 1 : Int).toNat = 31 := by simp [daysInMonth]
    have left : dayNumber year (12 + 1) day = daysBeforeYear (year + 1) + 0 + (day - 1) := rfl
    have right : dayNumber year 12 day =
        daysBeforeYear (year + 0) + daysBeforeMonth (year + 0) 11 + (day - 1) := rfl
    rw [december, left, right, add_zero, add_zero, daysBeforeYear_succ]
    omega
  · have next : (month + 1 - 1) / 12 = 0 ∧
        ((month + 1 - 1) % 12).toNat = (month - 1).toNat + 1 := by
      omega
    unfold dayNumber
    rw [here.1, here.2, next.1, next.2, add_zero, daysBeforeMonth]
    omega

end Calendar
