import Autodiff.Binary.Format
import Autodiff.Decimal.Digits

set_option autoImplicit false

namespace Autodiff.Decimal

open Binary (twoPow)

def roundToDigits (count num den : Nat) : Expansion :=
  let e := floorLog10 num den - (count - 1 : Nat)
  ⟨Binary.roundDiv (num * tenPow (-e).toNat) (den * tenPow e.toNat), e⟩

def Expansion.scientific (x : Expansion) : String :=
  let ds := digits x.significand
  let exponent := x.exponent + (ds.length - 1 : Nat)
  let fraction := dropTrailingZeros ds.tail
  let mantissa := ds.take 1 ++ (if fraction.isEmpty then [] else '.' :: fraction)
  String.ofList mantissa ++ "e" ++ toString exponent

/-- A datum with `count` significant digits; zero is `0e0` and a NaN shows no sign. -/
def scientific (count : Nat) : Binary.Datum → String
  | .nan => "NaN"
  | .infinite negative => if negative then "-inf" else "inf"
  | .finite negative significand exponent =>
    let sign := if negative then "-" else ""
    if significand = 0 then sign ++ "0e0"
    else sign ++ (roundToDigits count (significand * twoPow exponent.toNat)
      (twoPow (-exponent).toNat)).scientific

end Autodiff.Decimal
