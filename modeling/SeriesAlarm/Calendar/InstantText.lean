import SeriesAlarm.Calendar.Instant
import SeriesAlarm.Text.Blank
import SeriesAlarm.Text.Digits

/-!
# Written instants

Three spellings of an instant, alike but for the separator and the fraction, and the reader of
texts such as `2006-05-20T06:00:00.5`.
-/

namespace SeriesAlarm
namespace Instant

open Text

/-- Four digits within the years 0 to 9999, a sign and at least four digits outside. -/
def yearText (year : Int) : String :=
  if 0 ≤ year ∧ year ≤ 9999 then zeroPad 4 year.toNat
  else (if year < 0 then "-" else "+") ++ zeroPad 4 year.natAbs

def dateText (d : Date) : String :=
  yearText d.year ++ "-" ++ zeroPad 2 d.month ++ "-" ++ zeroPad 2 d.day

def clockText (t : Instant) : String :=
  zeroPad 2 t.hour ++ ":" ++ zeroPad 2 t.minute ++ ":" ++ zeroPad 2 t.second

/-- Nothing, or a point and three, six or nine digits. -/
def fractionText (nanos : Nat) : String :=
  if nanos = 0 then ""
  else if nanos % 1000000 = 0 then "." ++ zeroPad 3 (nanos / 1000000)
  else if nanos % 1000 = 0 then "." ++ zeroPad 6 (nanos / 1000)
  else "." ++ zeroPad 9 nanos

/-- To the second, as messages show it: `2006-05-20 06:00:00`. -/
def stamp (t : Instant) : String := dateText t.date ++ " " ++ t.clockText

/-- With the fraction, as notifications show it: `2006-05-20 06:00:00.500`. -/
def spaced (t : Instant) : String := t.stamp ++ fractionText t.fraction

/-- With the fraction and a `T` between date and time: `2006-05-20T06:00:00.500`. -/
def isoText (t : Instant) : String :=
  dateText t.date ++ "T" ++ t.clockText ++ fractionText t.fraction

/-- One item of a layout: a field, white space of any length, a fraction that may be absent, or a
character that must follow. -/
inductive LayoutItem
  | year | month | day | hour | minute | second | fraction | blank
  | char (c : Char)
  deriving DecidableEq, Repr

/-- The fields read so far. -/
structure ReadFields where
  year : Int := 0
  month : Nat := 1
  day : Nat := 1
  hour : Nat := 0
  minute : Nat := 0
  second : Nat := 0
  nanos : Nat := 0

/-- A number of at most `width` digits after white space, within the bounds. -/
def field? (width low high : Nat) (cs : List Char) : Option (Nat × List Char) :=
  let (ds, rest) := takeDigits width (trimStart cs)
  if ds ≠ [] ∧ low ≤ digitsValue ds ∧ digitsValue ds ≤ high then some (digitsValue ds, rest)
  else none

def yearField? (cs : List Char) : Option (Int × List Char) :=
  match trimStart cs with
  | '-' :: r =>
    let ds := r.takeWhile isDigit
    if ds = [] then none else some (-(digitsValue ds : Int), r.dropWhile isDigit)
  | '+' :: r =>
    let ds := r.takeWhile isDigit
    if ds = [] then none else some ((digitsValue ds : Int), r.dropWhile isDigit)
  | r => (field? 4 0 9999 r).map fun (n, rest) => ((n : Int), rest)

/-- Nine digits of a fraction, the missing ones being zeros; digits beyond the ninth are dropped. -/
def fractionField? (cs : List Char) : Option (Nat × List Char) :=
  let ds := cs.takeWhile isDigit
  if ds = [] then none
  else
    let nine := ds.take 9
    some (digitsValue nine * Nat.pow 10 (9 - nine.length), cs.dropWhile isDigit)

def LayoutItem.read? (item : LayoutItem) (f : ReadFields) (cs : List Char) :
    Option (ReadFields × List Char) :=
  match item with
  | .year => (yearField? cs).map fun (n, r) => ({ f with year := n }, r)
  | .month => (field? 2 1 12 cs).map fun (n, r) => ({ f with month := n }, r)
  | .day => (field? 2 1 31 cs).map fun (n, r) => ({ f with day := n }, r)
  | .hour => (field? 2 0 23 cs).map fun (n, r) => ({ f with hour := n }, r)
  | .minute => (field? 2 0 59 cs).map fun (n, r) => ({ f with minute := n }, r)
  | .second => (field? 2 0 60 cs).map fun (n, r) => ({ f with second := n }, r)
  | .fraction =>
    match cs with
    | '.' :: r => (fractionField? r).map fun (n, rest) => ({ f with nanos := n }, rest)
    | _ => some (f, cs)
  | .blank => some (f, trimStart cs)
  | .char c =>
    match cs with
    | d :: r => if c = d then some (f, r) else none
    | [] => none

def readItems? : List LayoutItem → ReadFields → List Char → Option (ReadFields × List Char)
  | [], f, cs => some (f, cs)
  | item :: items, f, cs =>
    match item.read? f cs with
    | some (g, rest) => readItems? items g rest
    | none => none

/-- The instant of the fields, unless the month has no such day or the calendar no such year. A
sixtieth second counts into the next minute. -/
def ReadFields.instant? (f : ReadFields) : Option Instant :=
  if firstYear ≤ f.year ∧ f.year ≤ lastYear ∧ f.day ≤ daysInMonth f.year f.month then
    some ⟨(ofDate ⟨f.year, f.month, f.day⟩ (f.hour * 3600 + f.minute * 60 + f.second)).nanos
      + f.nanos⟩
  else none

def readAs? (layout : List LayoutItem) (s : String) : Option Instant :=
  match readItems? layout {} s.toList with
  | some (f, []) => f.instant?
  | _ => none

/-- `2006-05-20T06:00:00.5`, blanks allowed around the separators. -/
def isoLayout : List LayoutItem :=
  [.year, .blank, .char '-', .month, .blank, .char '-', .day, .blank, .char 'T', .hour, .blank,
    .char ':', .minute, .blank, .char ':', .second, .fraction, .blank]

def stampLayout : List LayoutItem :=
  [.year, .char '-', .month, .char '-', .day, .blank, .hour, .char ':', .minute, .char ':', .second]

def stampLayoutT : List LayoutItem :=
  [.year, .char '-', .month, .char '-', .day, .char 'T', .hour, .char ':', .minute, .char ':',
    .second]

def minuteLayout : List LayoutItem :=
  [.year, .char '-', .month, .char '-', .day, .blank, .hour, .char ':', .minute]

def spacedLayout : List LayoutItem := stampLayout ++ [.fraction]

end Instant
end SeriesAlarm
