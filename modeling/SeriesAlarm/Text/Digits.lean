/-!
# Decimal digits

Runs of the digits `0` to `9`: their value, how they are taken off the front of a text, and how a
number is written with leading zeros.
-/

namespace SeriesAlarm
namespace Text

def isDigit (c : Char) : Bool := '0' ≤ c && c ≤ '9'

def digitValue (c : Char) : Nat := c.toNat - '0'.toNat

def digitsValue (cs : List Char) : Nat := cs.foldl (fun n c => 10 * n + digitValue c) 0

def digits? (cs : List Char) : Option Nat :=
  if cs ≠ [] ∧ cs.all isDigit then some (digitsValue cs) else none

/-- The value of digits after an optional plus sign. -/
def plusDigits? : List Char → Option Nat
  | '+' :: cs => digits? cs
  | cs => digits? cs

/-- At most `limit` digits from the front, and what follows them. -/
def takeDigits : Nat → List Char → List Char × List Char
  | 0, cs => ([], cs)
  | _ + 1, [] => ([], [])
  | limit + 1, c :: cs =>
    if isDigit c then
      let (ds, rest) := takeDigits limit cs
      (c :: ds, rest)
    else ([], c :: cs)

def zeroPad (width n : Nat) : String :=
  let digits := Nat.repr n
  String.ofList (List.replicate (width - digits.length) '0') ++ digits

def int? : List Char → Option Int
  | '-' :: cs => (digits? cs).map fun n => -(n : Int)
  | cs => (plusDigits? cs).map fun n => (n : Int)

end Text
end SeriesAlarm
