import SeriesAlarm.Decimal.Binary

/-!
# Shortest decimals

Of the decimals that read back as a given float, `shortest` takes one with the fewest digits and,
among those, the one nearest to the float.
-/

namespace SeriesAlarm
namespace Decimal

/-- The number `digits * 10 ^ exponent`. -/
structure Numeral where
  digits : Nat
  exponent : Int
  deriving DecidableEq, Repr

/-- The reals that round to a float, with the float itself, over one denominator. The ends belong
to it when `closed` holds. -/
structure Neighbourhood where
  low : Nat
  value : Nat
  high : Nat
  den : Nat
  closed : Bool

/-- Half the way to both neighbours; the lower one is nearer at a power of two. -/
def Neighbourhood.ofBinary (b : Binary) : Neighbourhood :=
  let low := 4 * b.mantissa - (if b.mantissa = wordSize 52 ∧ -1074 < b.exponent then 1 else 2)
  let scale (n : Nat) := Ratio.scaled n 2 (b.exponent - 2)
  { low := (scale low).num
    value := (scale (4 * b.mantissa)).num
    high := (scale (4 * b.mantissa + 2)).num
    den := (scale 1).den
    closed := b.mantissa % 2 = 0 }

/-- The number `n` of the grid of tenths `10 ^ k` reads back as the float. -/
def Neighbourhood.holds (h : Neighbourhood) (k : Int) (n : Nat) : Bool :=
  let at10 (m : Nat) := Ratio.shiftDown ⟨m, h.den⟩ k
  let x := n * (at10 0).den
  if h.closed then (at10 h.low).num ≤ x && x ≤ (at10 h.high).num
  else (at10 h.low).num < x && x < (at10 h.high).num

/-- The point of the grid `10 ^ k` that reads back as the float, the nearer one if both neighbours
do; a tie goes up. -/
def Neighbourhood.onGrid? (h : Neighbourhood) (k : Int) : Option Nat :=
  let v := Ratio.shiftDown ⟨h.value, h.den⟩ k
  let below := v.num / v.den
  let above := below + 1
  match h.holds k below, h.holds k above with
  | true, true => some (if 2 * (v.num % v.den) < v.den then below else above)
  | true, false => some below
  | false, true => some above
  | false, false => none

def Neighbourhood.search (h : Neighbourhood) (k : Int) : Nat → Numeral
  | 0 => ⟨(Ratio.shiftDown ⟨h.value, h.den⟩ k).roundHalfEven, k⟩
  | fuel + 1 =>
    match h.onGrid? k with
    | some n => ⟨n, k⟩
    | none => h.search (k - 1) fuel

def Numeral.strip (d : Numeral) : Nat → Numeral
  | 0 => d
  | fuel + 1 =>
    if d.digits % 10 = 0 ∧ d.digits ≠ 0 then
      Numeral.strip ⟨d.digits / 10, d.exponent + 1⟩ fuel
    else d

/-- The shortest decimal of the absolute value of a finite float; seventeen digits always do. -/
def shortest (x : Float) : Numeral :=
  let b := Binary.ofFloat x
  if b.mantissa = 0 then ⟨0, 0⟩
  else
    let h := Neighbourhood.ofBinary b
    (h.search (Ratio.leadingPlace ⟨h.value, h.den⟩) 17).strip 2

end Decimal
end SeriesAlarm
