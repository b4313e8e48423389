import Autodiff.Binary.Format
import Autodiff.Decimal.Digits

set_option autoImplicit false

namespace Autodiff.Decimal

open Binary (Datum Format twoPow)

/-- A value with the ends of the interval of numbers that round to it, all over one denominator. -/
structure RoundingInterval where
  value : Nat
  low : Nat
  high : Nat
  den : Nat
  closed : Bool

/-- Neighbours of `significand * 2 ^ exponent` lie one unit away, half a unit below a power of
two; the midpoints belong to the even significand. -/
def RoundingInterval.of (f : Format) (significand : Nat) (exponent : Int) : RoundingInterval :=
  let unit := twoPow (exponent - 2).toNat
  let below := if significand = twoPow (f.precision - 1) ∧ f.minExponent < exponent then 1 else 2
  { value := 4 * significand * unit
    low := (4 * significand - below) * unit
    high := (4 * significand + 2) * unit
    den := twoPow (2 - exponent).toNat
    closed := significand % 2 = 0 }

def RoundingInterval.contains (i : RoundingInterval) (num den : Nat) : Bool :=
  if i.closed then i.low * den ≤ num * i.den && num * i.den ≤ i.high * den
  else i.low * den < num * i.den && num * i.den < i.high * den

def RoundingInterval.onGrid? (i : RoundingInterval) (e : Int) : Option Expansion :=
  let up := tenPow e.toNat
  let down := tenPow (-e).toNat
  let q := i.value * down / (i.den * up)
  let r := i.value * down % (i.den * up)
  match i.contains (q * up) down, i.contains ((q + 1) * up) down with
  | true, true => some ⟨if 2 * r ≤ i.den * up then q else q + 1, e⟩
  | true, false => some ⟨q, e⟩
  | false, true => some ⟨q + 1, e⟩
  | false, false => none

/-- Seventeen digits always suffice, so the search never falls through. -/
def shortest (f : Format) (significand : Nat) (exponent : Int) : Expansion :=
  let i := RoundingInterval.of f significand exponent
  let leading := floorLog10 i.value i.den
  match (List.range 17).findSome? (fun (k : Nat) => i.onGrid? (leading - k)) with
  | some x => x.trim
  | none => ⟨significand, exponent⟩

def plainText (f : Format) : Datum → String
  | .nan => "NaN"
  | .infinite negative => if negative then "-inf" else "inf"
  | .finite negative significand exponent =>
    let sign := if negative then "-" else ""
    if significand = 0 then sign ++ "0"
    else sign ++ (shortest f significand exponent).positional

end Autodiff.Decimal
