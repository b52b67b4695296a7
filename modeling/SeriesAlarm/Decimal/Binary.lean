import SeriesAlarm.Width

/-!
# Floats as binary fractions

A finite float is a sign and a mantissa times a power of two. Ratios of natural numbers carry such
values exactly.
-/

namespace SeriesAlarm

def notANumber : Float := 0.0 / 0.0

namespace Decimal

def isNegative (x : Float) : Bool := wordSize 63 ≤ x.toBits.toNat

/-- The absolute value of a finite float is `mantissa * 2 ^ exponent`. -/
structure Binary where
  mantissa : Nat
  exponent : Int
  deriving DecidableEq, Repr

def Binary.ofFloat (x : Float) : Binary :=
  let bits := x.toBits.toNat % wordSize 63
  let e : Nat := bits / wordSize 52
  let f := bits % wordSize 52
  if e = 0 then ⟨f, -1074⟩ else ⟨wordSize 52 + f, (e : Int) - 1075⟩

/-- A ratio of natural numbers. -/
structure Ratio where
  num : Nat
  den : Nat
  deriving DecidableEq, Repr

def Ratio.scaled (n base : Nat) (e : Int) : Ratio :=
  if 0 ≤ e then ⟨n * base.pow e.toNat, 1⟩ else ⟨n, base.pow (-e).toNat⟩

def Ratio.shiftDown (r : Ratio) (k : Int) : Ratio :=
  if 0 ≤ k then ⟨r.num, r.den * Nat.pow 10 k.toNat⟩ else ⟨r.num * Nat.pow 10 (-k).toNat, r.den⟩

def digitCount (n : Nat) : Nat := (Nat.repr n).length

def Ratio.leadingPlace (r : Ratio) : Int :=
  if r.den ≤ r.num then (digitCount (r.num / r.den) : Int) - 1
  else -(digitCount ((r.den + r.num - 1) / r.num - 1) : Int)

/-- The quotient rounded to the nearest whole number, a half to the even neighbour. -/
def Ratio.roundHalfEven (r : Ratio) : Nat :=
  let q := r.num / r.den
  let twice := 2 * (r.num % r.den)
  if twice < r.den then q
  else if r.den < twice then q + 1
  else q + q % 2

end Decimal
end SeriesAlarm
