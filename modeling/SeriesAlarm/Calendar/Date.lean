/-!
# Dates

The proleptic Gregorian calendar. `Date.dayNumber` counts the days from 1 January of the year 1,
which is day 0, and `Date.ofDayNumber` reads such a count back.
-/

namespace SeriesAlarm

def leapDay (year : Int) : Nat :=
  if year % 4 = 0 ∧ (year % 100 ≠ 0 ∨ year % 400 = 0) then 1 else 0

theorem leapDay_le (year : Int) : leapDay year ≤ 1 := by
  unfold leapDay; split <;> omega

def daysInMonth (year : Int) (month : Nat) : Nat :=
  match month with
  | 2 => 28 + leapDay year
  | 4 | 6 | 9 | 11 => 30
  | _ => 31

theorem daysInMonth_pos (year : Int) (month : Nat) : 0 < daysInMonth year month := by
  unfold daysInMonth; split <;> omega

def daysBeforeYear (year : Int) : Int :=
  365 * (year - 1) + (year - 1) / 4 - (year - 1) / 100 + (year - 1) / 400

theorem daysBeforeYear_succ (year : Int) :
    daysBeforeYear (year + 1) = daysBeforeYear year + 365 + leapDay year := by
  unfold daysBeforeYear leapDay; split <;> omega

def daysBeforeMonth (year : Int) : Nat → Nat
  | 0 => 0
  | 1 => 0
  | month + 1 => daysBeforeMonth year month + daysInMonth year month

/-- A calendar date by its fields. -/
structure Date where
  year : Int
  month : Nat
  day : Nat
  deriving DecidableEq, Repr

namespace Date

def dayNumber (d : Date) : Int :=
  daysBeforeYear d.year + daysBeforeMonth d.year d.month + d.day - 1

/-- The year that holds the day with this number. A 400th of the cycle of 146097 days is at most
one year off. -/
def yearOf (n : Int) : Int :=
  let guess := 400 * n / 146097 + 1
  if n < daysBeforeYear guess then guess - 1
  else if daysBeforeYear (guess + 1) ≤ n then guess + 1
  else guess

theorem yearOf_bounds (n : Int) :
    daysBeforeYear (yearOf n) ≤ n ∧ n < daysBeforeYear (yearOf n + 1) := by
  simp only [yearOf]
  split
  · unfold daysBeforeYear at *; omega
  · split <;> unfold daysBeforeYear at * <;> omega

/-- The last month up to `month` that begins at or before the given day of the year. -/
def monthUpTo (year : Int) (dayOfYear : Nat) : Nat → Nat
  | 0 => 1
  | 1 => 1
  | month + 1 =>
    if daysBeforeMonth year (month + 1) ≤ dayOfYear then month + 1
    else monthUpTo year dayOfYear month

def ofDayNumber (n : Int) : Date :=
  let year := yearOf n
  let dayOfYear := (n - daysBeforeYear year).toNat
  let month := monthUpTo year dayOfYear 12
  ⟨year, month, dayOfYear - daysBeforeMonth year month + 1⟩

def clamped (year : Int) (month day : Nat) : Date :=
  ⟨year, month, min day (daysInMonth year month)⟩

def monthNumber (d : Date) : Int := 12 * d.year + d.month - 1

/-- The same day of the month so many months later, cut to the length of that month. -/
def shiftMonths (d : Date) (months : Int) : Date :=
  let n := d.monthNumber + months
  clamped (n / 12) (n % 12 + 1).toNat d.day

end Date
end SeriesAlarm
