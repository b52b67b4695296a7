import SeriesAlarm.Calendar.Interval

/-!
# Partial dates

A `TimePattern` fixes some fields of a date and time, as in `06:00` under the format `HH:mm` or
`10-01` under `MM-dd`. It is read by a format, moves an instant onto its phase, and is placed in a
year.
-/

namespace SeriesAlarm

open Text

structure TimePattern where
  format : String
  year : Option Nat := none
  month : Option Nat := none
  day : Option Nat := none
  hour : Option Nat := none
  minute : Option Nat := none
  second : Option Nat := none
  deriving DecidableEq, Repr

/-- Why a value does not fit a format. -/
inductive PatternError
  | mismatch (value format : String)
  | outOfRange (token value : String)
  | noFields (format : String)
  deriving DecidableEq, Repr

def PatternError.message : PatternError → String
  | .mismatch value format => "'" ++ value ++ "' does not match format '" ++ format ++ "'"
  | .outOfRange token value => "field '" ++ token ++ "' out of range in '" ++ value ++ "'"
  | .noFields format => "format '" ++ format ++ "' has no date/time fields"

namespace TimePattern

def token : TimeUnit → List Char
  | .year => ['y', 'y', 'y', 'y']
  | .month => ['M', 'M']
  | .day => ['d', 'd']
  | .hour => ['H', 'H']
  | .minute => ['m', 'm']
  | .second => ['s', 's']

def lowest : TimeUnit → Nat
  | .month | .day => 1
  | _ => 0

def highest : TimeUnit → Nat
  | .year => 9999
  | .month => 12
  | .day => 31
  | .hour => 23
  | .minute | .second => 59

def get (p : TimePattern) : TimeUnit → Option Nat
  | .year => p.year
  | .month => p.month
  | .day => p.day
  | .hour => p.hour
  | .minute => p.minute
  | .second => p.second

def set (p : TimePattern) (u : TimeUnit) (n : Nat) : TimePattern :=
  match u with
  | .year => { p with year := some n }
  | .month => { p with month := some n }
  | .day => { p with day := some n }
  | .hour => { p with hour := some n }
  | .minute => { p with minute := some n }
  | .second => { p with second := some n }

@[simp] theorem get_set_self (p : TimePattern) (u : TimeUnit) (n : Nat) :
    (p.set u n).get u = some n := by
  cases u <;> rfl

theorem get_set_of_ne (p : TimePattern) {u v : TimeUnit} (n : Nat) (h : v ≠ u) :
    (p.set u n).get v = p.get v := by
  cases u <;> cases v <;> first | rfl | exact absurd rfl h

/-- A step of a format: a field, or a character that stands for itself. -/
inductive Piece
  | field (u : TimeUnit)
  | literal (c : Char)
  deriving DecidableEq, Repr

/-- Splits a format, recognising the tokens first. -/
def pieces : List Char → List Piece
  | 'y' :: 'y' :: 'y' :: 'y' :: r => .field .year :: pieces r
  | 'M' :: 'M' :: r => .field .month :: pieces r
  | 'd' :: 'd' :: r => .field .day :: pieces r
  | 'H' :: 'H' :: r => .field .hour :: pieces r
  | 'm' :: 'm' :: r => .field .minute :: pieces r
  | 's' :: 's' :: r => .field .second :: pieces r
  | c :: r => .literal c :: pieces r
  | [] => []

/-- How reading a value can stop short of its end. -/
inductive ReadError
  | mismatch
  | outOfRange (u : TimeUnit)
  deriving DecidableEq, Repr

/-- Reads the pieces off a value in order; a later field of the same unit replaces an earlier. -/
def readPieces : List Piece → TimePattern → List Char → Except ReadError TimePattern
  | [], p, [] => .ok p
  | [], _, _ :: _ => .error .mismatch
  | .literal c :: ps, p, v =>
    match v with
    | d :: r => if c = d then readPieces ps p r else .error .mismatch
    | [] => .error .mismatch
  | .field u :: ps, p, v =>
    let width := (token u).length
    if v.length < width then .error .mismatch
    else
      match plusDigits? (v.take width) with
      | none => .error .mismatch
      | some n =>
        if lowest u ≤ n ∧ n ≤ highest u then readPieces ps (p.set u n) (v.drop width)
        else .error (.outOfRange u)

def parse (value format : String) : Except PatternError TimePattern :=
  match readPieces (pieces format.toList) { format } (trimChars value.toList) with
  | .error .mismatch => .error (.mismatch (trim value) format)
  | .error (.outOfRange u) => .error (.outOfRange (String.ofList (token u)) (trim value))
  | .ok p =>
    if TimeUnit.all.all fun u => (p.get u).isNone then .error (.noFields format) else .ok p

def hasTime (p : TimePattern) : Bool := p.hour.isSome || p.minute.isSome || p.second.isSome

/-- The value of a field after realigning: a field finer than the unit takes the pattern's value or
its least, a coarser one keeps its own. -/
def realignedField (p : TimePattern) (base u : TimeUnit) (current : Nat) : Nat :=
  if u.rank < base.rank then (p.get u).getD (lowest u) else current

/-- How many units back the grid of the pattern's field has its last slot. -/
def gridOffset (p : TimePattern) (i : Interval) (t : Instant) : Nat :=
  match p.get i.base with
  | some phase => ((((i.base.clockField t : Nat) : Int) - phase) % i.multiplier).toNat
  | none => 0

/-- Moves an instant onto the pattern's phase in its cycle of the interval. Nothing when the grid
slot lies before the calendar. -/
def realign? (p : TimePattern) (t : Instant) (i : Interval) : Option Instant :=
  let field u current := p.realignedField i.base u current
  match Instant.ofFields? t.year (field .month t.month) (field .day t.day) (field .hour t.hour)
      (field .minute t.minute) (field .second t.second) with
  | none => some t
  | some aligned =>
    match i.base with
    | .second | .minute | .hour =>
      aligned.shift (-(p.gridOffset i t * i.base.nominalSeconds : Nat))
    | _ => some aligned

/-- The instant of the pattern in a year: the first of the month and midnight where it is silent,
the day cut to the length of the month. -/
def inYear? (p : TimePattern) (year : Int) : Option Instant :=
  p.month.bind fun month =>
    Instant.ofFields? year month (p.day.getD 1) (p.hour.getD 0) (p.minute.getD 0) (p.second.getD 0)

end TimePattern
end SeriesAlarm
