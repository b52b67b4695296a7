import SeriesAlarm.Json.Value
import SeriesAlarm.Width

/-!
# Reading JSON

A strict reader: no trailing commas, no control characters in strings, arrays and objects nested at
most 127 deep. A number with a point or an exponent is a significand of 64 bits that is multiplied
or divided by a power of ten.
-/

namespace SeriesAlarm
namespace Json

open Text

def isJsonBlank (c : Char) : Bool := c == ' ' || c == '\n' || c == '\t' || c == '\r'

def skipBlank (cs : List Char) : List Char := cs.dropWhile isJsonBlank

/-- Takes digits into a significand as long as it fits in 64 bits, and counts them. -/
def absorb : Nat → List Char → Nat × Nat
  | significand, [] => (significand, 0)
  | significand, c :: cs =>
    let next := 10 * significand + digitValue c
    if next < wordSize 64 then
      let (s, n) := absorb next cs
      (s, n + 1)
    else (significand, 0)

def powerOfTen (n : Nat) : Float := Float.ofScientific 1 false n

/-- The significand scaled by a power of ten. Far below one it is divided in steps. -/
def scaleFloat : Nat → Float → Int → Option Float
  | 0, f, _ => some f
  | fuel + 1, f, e =>
    if e.natAbs ≤ 308 then
      if 0 ≤ e then
        let g := f * powerOfTen e.natAbs
        if g.isInf then none else some g
      else some (f / powerOfTen e.natAbs)
    else if f == 0.0 then some f
    else if 0 ≤ e then none
    else scaleFloat fuel (f / powerOfTen 308) (e + 308)

def floatOfParts (negative : Bool) (significand : Nat) (e : Int) : Option Json :=
  (scaleFloat 8 (UInt64.ofNat significand).toFloat e).map fun f =>
    .float (if negative then -f else f)

def wholeNumber (negative : Bool) (n : Nat) : Json :=
  if negative then
    if n = 0 ∨ wordSize 63 < n then .float (-(UInt64.ofNat n).toFloat) else .int (-(n : Int))
  else .int n

/-- The exponent after its letter: a sign and digits. Beyond 31 bits the number is zero, or too
large. -/
def readExponent (negative : Bool) (significand : Nat) (start : Int) (cs : List Char) :
    Option (Json × List Char) :=
  let (down, cs) := match cs with
    | '-' :: r => (true, r)
    | '+' :: r => (false, r)
    | r => (false, r)
  let ds := cs.takeWhile isDigit
  let rest := cs.dropWhile isDigit
  if ds = [] then none
  else if wordSize 31 ≤ digitsValue ds then
    if significand ≠ 0 ∧ ¬down then none
    else some (.float (if negative then -0.0 else 0.0), rest)
  else
    let e : Int := if down then start - digitsValue ds else start + digitsValue ds
    (floatOfParts negative significand e).map (·, rest)

def readNumber (negative : Bool) (cs : List Char) : Option (Json × List Char) :=
  let whole := cs.takeWhile isDigit
  let rest := cs.dropWhile isDigit
  match whole with
  | [] => none
  | '0' :: _ :: _ => none
  | _ =>
    let (significand, used) := absorb 0 whole
    let dropped : Int := (whole.length : Int) - used
    match rest with
    | '.' :: r =>
      let frac := r.takeWhile isDigit
      let rest := r.dropWhile isDigit
      if frac = [] then none
      else
        let (significand, used) := absorb significand frac
        match rest with
        | 'e' :: r | 'E' :: r => readExponent negative significand (dropped - used) r
        | _ => (floatOfParts negative significand (dropped - used)).map (·, rest)
    | 'e' :: r | 'E' :: r => readExponent negative significand dropped r
    | _ =>
      if dropped = 0 then some (wholeNumber negative significand, rest)
      else (floatOfParts negative significand dropped).map (·, rest)

def hexValue? (c : Char) : Option Nat :=
  if isDigit c then some (digitValue c)
  else if 'a' ≤ c ∧ c ≤ 'f' then some (c.toNat - 87)
  else if 'A' ≤ c ∧ c ≤ 'F' then some (c.toNat - 55)
  else none

def hex4? : List Char → Option (Nat × List Char)
  | a :: b :: c :: d :: r => do
    let a ← hexValue? a
    let b ← hexValue? b
    let c ← hexValue? c
    let d ← hexValue? d
    return (((a * 16 + b) * 16 + c) * 16 + d, r)
  | _ => none

/-- The character of a `\u` escape; one above 16 bits is a pair of escapes. -/
def unicodeEscape? (cs : List Char) : Option (Char × List Char) := do
  let (high, r) ← hex4? cs
  if 0xD800 ≤ high ∧ high < 0xDC00 then
    match r with
    | '\\' :: 'u' :: r =>
      let (low, r) ← hex4? r
      if 0xDC00 ≤ low ∧ low < 0xE000 then
        some (Char.ofNat (0x10000 + (high - 0xD800) * 0x400 + (low - 0xDC00)), r)
      else none
    | _ => none
  else if 0xDC00 ≤ high ∧ high < 0xE000 then none
  else some (Char.ofNat high, r)

def simpleEscape? : Char → Option Char
  | '"' => some '"'
  | '\\' => some '\\'
  | '/' => some '/'
  | 'b' => some (Char.ofNat 8)
  | 'f' => some (Char.ofNat 12)
  | 'n' => some '\n'
  | 'r' => some '\r'
  | 't' => some '\t'
  | _ => none

/-- The characters up to the closing quote, collected in reverse. -/
def readString : Nat → List Char → List Char → Option (String × List Char)
  | 0, _, _ => none
  | fuel + 1, acc, cs =>
    match cs with
    | '"' :: r => some (String.ofList acc.reverse, r)
    | '\\' :: 'u' :: r =>
      match unicodeEscape? r with
      | some (c, r) => readString fuel (c :: acc) r
      | none => none
    | '\\' :: c :: r =>
      match simpleEscape? c with
      | some c => readString fuel (c :: acc) r
      | none => none
    | c :: r => if c.toNat < 32 then none else readString fuel (c :: acc) r
    | [] => none

mutual

def readValue (depth : Nat) : Nat → List Char → Option (Json × List Char)
  | 0, _ => none
  | fuel + 1, cs =>
    match skipBlank cs with
    | 'n' :: 'u' :: 'l' :: 'l' :: r => some (.null, r)
    | 't' :: 'r' :: 'u' :: 'e' :: r => some (.bool true, r)
    | 'f' :: 'a' :: 'l' :: 's' :: 'e' :: r => some (.bool false, r)
    | '"' :: r => (readString (fuel + 1) [] r).map fun (s, r) => (.string s, r)
    | '-' :: r => readNumber true r
    | '[' :: r =>
      if depth = 0 then none
      else
        match skipBlank r with
        | ']' :: r => some (.array [], r)
        | _ => (readItems (depth - 1) fuel [] r).map fun (vs, r) => (.array vs, r)
    | '{' :: r =>
      if depth = 0 then none
      else
        match skipBlank r with
        | '}' :: r => some (.object [], r)
        | _ => (readMembers (depth - 1) fuel [] r).map fun (ms, r) => (.object ms, r)
    | r => readNumber false r

def readItems (depth : Nat) : Nat → List Json → List Char → Option (List Json × List Char)
  | 0, _, _ => none
  | fuel + 1, acc, cs =>
    match readValue depth fuel cs with
    | none => none
    | some (v, r) =>
      match skipBlank r with
      | ',' :: r => readItems depth fuel (v :: acc) r
      | ']' :: r => some ((v :: acc).reverse, r)
      | _ => none

def readMembers (depth : Nat) :
    Nat → List (String × Json) → List Char → Option (List (String × Json) × List Char)
  | 0, _, _ => none
  | fuel + 1, acc, cs =>
    match skipBlank cs with
    | '"' :: r =>
      match readString (fuel + 1) [] r with
      | none => none
      | some (name, r) =>
        match skipBlank r with
        | ':' :: r =>
          match readValue depth fuel r with
          | none => none
          | some (v, r) =>
            match skipBlank r with
            | ',' :: r => readMembers depth fuel ((name, v) :: acc) r
            | '}' :: r => some (((name, v) :: acc).reverse, r)
            | _ => none
        | _ => none
    | _ => none

end

def ofText? (s : String) : Option Json :=
  let cs := s.toList
  match readValue 127 (2 * cs.length + 2) cs with
  | some (v, r) => if skipBlank r = [] then some v else none
  | none => none

end Json
end SeriesAlarm
