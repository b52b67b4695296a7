import SeriesAlarm.Decimal.Shortest
import SeriesAlarm.Text.Digits

/-!
# Written floats

Floats in positional notation, with a fixed count of places, and in the mixed notation of data
files; and the float nearest to a written decimal.
-/

namespace SeriesAlarm
namespace Decimal

open Text

def zeros (n : Nat) : String := String.ofList (List.replicate n '0')

def pointAt (digits : String) (place : Int) : String :=
  let n := digits.length
  if place ≤ 0 then "0." ++ zeros (-place).toNat ++ digits
  else if (n : Int) ≤ place then digits ++ zeros (place - n).toNat
  else
    let cs := digits.toList
    String.ofList (cs.take place.toNat) ++ "." ++ String.ofList (cs.drop place.toNat)

def Numeral.digitText (d : Numeral) : String := Nat.repr d.digits

def Numeral.place (d : Numeral) : Int := d.digitText.length + d.exponent

def Numeral.positional (d : Numeral) : String :=
  if d.digits = 0 then "0" else pointAt d.digitText d.place

/-- Positional with a point for places -4 to 16, otherwise one digit, a point and an exponent. -/
def Numeral.mixed (d : Numeral) : String :=
  let ds := d.digitText
  let p := d.place
  if d.digits = 0 then "0.0"
  else if (ds.length : Int) ≤ p ∧ p ≤ 16 then pointAt ds p ++ ".0"
  else if -5 < p ∧ p ≤ 16 then pointAt ds p
  else
    let exponent := "e" ++ toString (p - 1)
    match ds.toList with
    | [c] => String.ofList [c] ++ exponent
    | c :: rest => String.ofList [c] ++ "." ++ String.ofList rest ++ exponent
    | [] => exponent

/-- Writes a finite float by its decimal, with a sign also for a negative zero. -/
def signed (x : Float) (body : String) : String := if isNegative x then "-" ++ body else body

/-- The fewest digits that read back, never with an exponent: `0.1`, `75`, `-0`, `inf`, `NaN`. -/
def plain (x : Float) : String :=
  if x.isNaN then "NaN"
  else if x.isInf then signed x "inf"
  else signed x (shortest x).positional

/-- Exactly so many places after the point, a half going to the even neighbour. -/
def fixed (places : Nat) (x : Float) : String :=
  if x.isNaN then "NaN"
  else if x.isInf then signed x "inf"
  else
    let b := Binary.ofFloat x
    let n := ((Ratio.scaled b.mantissa 2 b.exponent).shiftDown (-(places : Int))).roundHalfEven
    let digits := zeroPad (places + 1) n
    signed x (if places = 0 then digits else pointAt digits ((digits.length : Int) - places))

/-- A finite float as data files hold it: `75.0`, `1e16`, `0.1`. -/
def dataText (x : Float) : String := signed x (shortest x).mixed

def nearest (digits : Nat) (exponent : Int) : Float :=
  let size := digitCount digits + exponent
  if digits = 0 ∨ size < -400 then 0.0
  else if 400 < size then 1.0 / 0.0
  else if 0 ≤ exponent then Float.ofScientific digits false exponent.toNat
  else Float.ofScientific digits true (-exponent).toNat

/-- An exponent with its sign, after the letter; clipped far outside the range of floats. -/
def exponent? (cs : List Char) : Option Int :=
  match cs with
  | '-' :: r => (digits? r).map fun n => -(min n 100000000 : Int)
  | r => (plusDigits? r).map fun n => (min n 100000000 : Int)

/-- Digits with at most one point among or beside them, at least one digit: their number and how
many stand after the point. -/
def pointed? (cs : List Char) : Option (Nat × Nat) :=
  let whole := cs.takeWhile isDigit
  match cs.dropWhile isDigit with
  | [] => if whole = [] then none else some (digitsValue whole, 0)
  | '.' :: frac =>
    if (whole = [] ∧ frac = []) ∨ ¬frac.all isDigit then none
    else some (digitsValue (whole ++ frac), frac.length)
  | _ => none

def unsigned? (cs : List Char) : Option Float :=
  let mantissa := cs.takeWhile fun c => c != 'e' && c != 'E'
  match cs.dropWhile fun c => c != 'e' && c != 'E' with
  | [] => (pointed? mantissa).map fun (n, places) => nearest n (-(places : Int))
  | _ :: tail => do
    let (n, places) ← pointed? mantissa
    let e ← exponent? tail
    return nearest n (e - places)

/-- A float written in decimal, or an infinity or NaN in any letter case. -/
def float? (s : String) : Option Float :=
  let body (cs : List Char) : Option Float :=
    let word := String.ofList (cs.map Char.toLower)
    if word = "inf" ∨ word = "infinity" then some (1.0 / 0.0)
    else if word = "nan" then some (0.0 / 0.0)
    else unsigned? cs
  match s.toList with
  | '-' :: cs => (body cs).map fun x => -x
  | '+' :: cs => body cs
  | cs => body cs

end Decimal
end SeriesAlarm
