import SeriesAlarm.Calendar.InstantText
import SeriesAlarm.Text.LetterCase
import SeriesAlarm.Width

/-!
# Intervals

A multiple of a calendar unit, such as `15Minute` or `1Month`: its text, its addition to an
instant, and the floor of an instant on its grid.
-/

namespace SeriesAlarm

open Text

/-- Calendar units from fine to coarse. -/
inductive TimeUnit
  | second | minute | hour | day | month | year
  deriving DecidableEq, Repr, Inhabited

namespace TimeUnit

def all : List TimeUnit := [.second, .minute, .hour, .day, .month, .year]

theorem mem_all (u : TimeUnit) : u ∈ all := by cases u <;> decide

def rank : TimeUnit → Nat
  | .second => 0
  | .minute => 1
  | .hour => 2
  | .day => 3
  | .month => 4
  | .year => 5

def name : TimeUnit → String
  | .second => "Second"
  | .minute => "Minute"
  | .hour => "Hour"
  | .day => "Day"
  | .month => "Month"
  | .year => "Year"

def spellings : TimeUnit → List String
  | .second => ["s", "sec", "secs", "second", "seconds"]
  | .minute => ["m", "min", "mins", "minute", "minutes"]
  | .hour => ["h", "hr", "hrs", "hour", "hours"]
  | .day => ["d", "day", "days"]
  | .month => ["mo", "month", "months"]
  | .year => ["y", "yr", "yrs", "year", "years"]

/-- The unit with this spelling, in any letter case and with white space around it. -/
def ofText? (s : String) : Option TimeUnit :=
  all.find? fun u => u.spellings.contains (lower (trim s))

/-- Seconds of a unit, a month counting thirty days and a year 365. -/
def nominalSeconds : TimeUnit → Nat
  | .second => 1
  | .minute => 60
  | .hour => 3600
  | .day => 86400
  | .month => 30 * 86400
  | .year => 365 * 86400

/-- The unit's field of the time of day, counted in full units. -/
def clockField : TimeUnit → Instant → Nat
  | .second, t => t.second
  | .minute, t => t.minute
  | .hour, t => t.hour
  | _, _ => 0

end TimeUnit

/-- The multipliers fit in 32 bits. -/
structure Interval where
  base : TimeUnit
  multiplier : Nat
  multiplier_pos : 0 < multiplier := by decide
  multiplier_lt : multiplier < wordSize 32 := by decide
  deriving DecidableEq, Repr

instance : Inhabited Interval := ⟨{ base := .second, multiplier := 1 }⟩

/-- Why a text is no interval. -/
inductive IntervalError
  | multiplierTooLarge (text : String)
  | multiplierZero (text : String)
  | unknownUnit (text : String)
  deriving DecidableEq, Repr

def IntervalError.message : IntervalError → String
  | .multiplierTooLarge text =>
    "bad interval multiplier in '" ++ text ++ "': number too large to fit in target type"
  | .multiplierZero text => "interval multiplier must be > 0: '" ++ text ++ "'"
  | .unknownUnit text => "unknown interval base: '" ++ text ++ "'"

namespace Interval

def oneDay : Interval := { base := .day, multiplier := 1 }

def parse (s : String) : Except IntervalError Interval :=
  let text := trimChars s.toList
  let digits := text.takeWhile isDigit
  let unitText := String.ofList (text.dropWhile isDigit)
  let n := if digits = [] then 1 else digitsValue digits
  if big : wordSize 32 ≤ n then .error (.multiplierTooLarge (trim s))
  else if zero : n = 0 then .error (.multiplierZero (trim s))
  else
    match TimeUnit.ofText? unitText with
    | some base =>
      .ok { base, multiplier := n, multiplier_pos := by omega, multiplier_lt := by omega }
    | none => .error (.unknownUnit unitText)

def text (i : Interval) : String := Nat.repr i.multiplier ++ i.base.name

/-- The most months that are shifted by at once. -/
def monthLimit : Nat := wordSize 31

/-- Shifts by a count of months taken modulo `2 ^ 32`; a result outside the calendar becomes its
first or last instant. -/
def shiftMonthsSaturating (t : Instant) (months : Int) : Instant :=
  let count := months.natAbs % wordSize 32
  let shifted :=
    if count = 0 then some t
    else if monthLimit ≤ count then none
    else t.shiftMonths? (if 0 ≤ months then (count : Int) else -(count : Int))
  shifted.getD (if 0 ≤ months then Instant.last else Instant.first)

/-- The instant `times` intervals later, or earlier for a negative count. Nothing when a unit up to
a day leaves the calendar or a count of months leaves 64 bits. -/
def add? (i : Interval) (t : Instant) (times : Int) : Option Instant :=
  let n := i.multiplier * times
  match i.base with
  | .second => t.shift n
  | .minute => t.shift (60 * n)
  | .hour => t.shift (3600 * n)
  | .day => t.shift (86400 * n)
  | .month => some (shiftMonthsSaturating t n)
  | .year =>
    if fitsSigned 64 (12 * n) then some (shiftMonthsSaturating t (12 * n)) else none

def next? (i : Interval) (t : Instant) : Option Instant := i.add? t 1

def back? (i : Interval) (t : Instant) : Option Instant := i.add? t (-1)

end Interval

namespace Instant

def truncate (t : Instant) (u : TimeUnit) : Instant :=
  match u with
  | .second => ⟨t.nanos - t.nanos % nanosPerSecond⟩
  | .minute => ⟨t.nanos - t.nanos % (60 * nanosPerSecond)⟩
  | .hour => ⟨t.nanos - t.nanos % (3600 * nanosPerSecond)⟩
  | .day => ⟨t.nanos - t.nanos % nanosPerDay⟩
  | .month => ofDate ⟨t.year, t.month, 1⟩ 0
  | .year => ofDate ⟨t.year, 1, 1⟩ 0

end Instant

namespace Interval

/-- The last instant at or before `t` whose field of the interval's unit is a multiple of the
multiplier, within the next coarser unit; days, months and years are only truncated. -/
def align (i : Interval) (t : Instant) : Instant :=
  let u := t.truncate i.base
  let offset := i.base.clockField u % i.multiplier
  ⟨u.nanos - offset * i.base.nominalSeconds * nanosPerSecond⟩

/-- The nominal length in seconds, the multiplier read as a signed number of 32 bits. -/
def nominalSeconds (i : Interval) : Int := i.base.nominalSeconds * Int.bmod i.multiplier (wordSize 32)

end Interval
end SeriesAlarm
