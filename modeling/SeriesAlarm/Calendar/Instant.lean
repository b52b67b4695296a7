import SeriesAlarm.Calendar.Date

/-!
# Instants

A point of local time without a zone, counted in nanoseconds from the first instant of the year 1.
The calendar spans the years -262143 to 262142, and `Instant.shift` refuses to leave it.
-/

namespace SeriesAlarm

abbrev nanosPerSecond : Int := 1000000000

abbrev nanosPerDay : Int := 86400000000000

structure Instant where
  nanos : Int
  deriving DecidableEq, Repr, Inhabited

namespace Instant

instance : LE Instant := ⟨fun a b => a.nanos ≤ b.nanos⟩
instance : LT Instant := ⟨fun a b => a.nanos < b.nanos⟩
instance (a b : Instant) : Decidable (a ≤ b) := inferInstanceAs (Decidable (a.nanos ≤ b.nanos))
instance (a b : Instant) : Decidable (a < b) := inferInstanceAs (Decidable (a.nanos < b.nanos))

theorem le_def {a b : Instant} : a ≤ b ↔ a.nanos ≤ b.nanos := Iff.rfl
theorem lt_def {a b : Instant} : a < b ↔ a.nanos < b.nanos := Iff.rfl

@[ext] theorem ext {a b : Instant} (h : a.nanos = b.nanos) : a = b := by
  cases a; cases b; simp_all

def firstYear : Int := -262143
def lastYear : Int := 262142

def ofDate (d : Date) (secondOfDay : Nat) : Instant :=
  ⟨d.dayNumber * nanosPerDay + secondOfDay * nanosPerSecond⟩

def first : Instant := ofDate ⟨firstYear, 1, 1⟩ 0

def last : Instant := ⟨(ofDate ⟨lastYear + 1, 1, 1⟩ 0).nanos - 1⟩

def InRange (t : Instant) : Prop := first ≤ t ∧ t ≤ last

instance (t : Instant) : Decidable t.InRange := inferInstanceAs (Decidable (_ ∧ _))

def inRange? (t : Instant) : Option Instant := if t.InRange then some t else none

/-- The instant so many seconds later, unless it lies outside the calendar. -/
def shift (t : Instant) (seconds : Int) : Option Instant :=
  inRange? ⟨t.nanos + seconds * nanosPerSecond⟩

theorem shift_eq_some {t u : Instant} {seconds : Int} (h : t.shift seconds = some u) :
    u.nanos = t.nanos + seconds * nanosPerSecond := by
  unfold shift inRange? at h
  split at h
  · simpa using (congrArg nanos (Option.some.inj h)).symm
  · cases h

def date (t : Instant) : Date := Date.ofDayNumber (t.nanos / nanosPerDay)

def secondOfDay (t : Instant) : Nat := (t.nanos % nanosPerDay / nanosPerSecond).toNat

def fraction (t : Instant) : Nat := (t.nanos % nanosPerSecond).toNat

def year (t : Instant) : Int := t.date.year
def month (t : Instant) : Nat := t.date.month
def day (t : Instant) : Nat := t.date.day
def hour (t : Instant) : Nat := t.secondOfDay / 3600
def minute (t : Instant) : Nat := t.secondOfDay / 60 % 60
def second (t : Instant) : Nat := t.secondOfDay % 60

theorem secondOfDay_lt (t : Instant) : t.secondOfDay < 86400 := by
  simp only [secondOfDay, nanosPerDay, nanosPerSecond]; omega

/-- The instant of the given fields, the day cut to the length of its month. The last month of the
calendar is not available, as its length is taken from the month after it. -/
def ofFields? (year : Int) (month day hour minute second : Nat) : Option Instant :=
  if firstYear ≤ year ∧ year ≤ lastYear ∧ ¬(year = lastYear ∧ month = 12) then
    some (ofDate (Date.clamped year month day) (hour * 3600 + minute * 60 + second))
  else none

/-- The same time of day so many months later, the day cut to the length of its month; nothing
when the year lies outside the calendar. -/
def shiftMonths? (t : Instant) (months : Int) : Option Instant :=
  let d := t.date.shiftMonths months
  if firstYear ≤ d.year ∧ d.year ≤ lastYear then
    some ⟨d.dayNumber * nanosPerDay + t.nanos % nanosPerDay⟩
  else none

end Instant
end SeriesAlarm
