set_option autoImplicit false

namespace Autodiff.Decimal

def tenPow (n : Nat) : Nat := Nat.pow 10 n

def digits (n : Nat) : List Char := Nat.toDigits 10 n

def floorLog10 (num den : Nat) : Int :=
  let e : Int := ((digits num).length : Int) - ((digits den).length : Int)
  if den * tenPow e.toNat ≤ num * tenPow (-e).toNat then e else e - 1

def dropTrailingZeros (ds : List Char) : List Char :=
  (ds.reverse.dropWhile (· == '0')).reverse

/-- The number is `significand * 10 ^ exponent`. -/
structure Expansion where
  significand : Nat
  exponent : Int
deriving DecidableEq

def Expansion.trim (x : Expansion) : Expansion :=
  let ds := digits x.significand
  let kept := dropTrailingZeros ds
  ⟨x.significand / tenPow (ds.length - kept.length), x.exponent + (ds.length - kept.length : Nat)⟩

/-- Positional notation without an exponent, and without a point for an integer. -/
def Expansion.positional (x : Expansion) : String :=
  let ds := digits x.significand
  if 0 ≤ x.exponent then String.ofList (ds ++ List.replicate x.exponent.toNat '0')
  else
    let places := (-x.exponent).toNat
    let padded := List.replicate (places + 1 - ds.length) '0' ++ ds
    let whole := padded.length - places
    String.ofList (padded.take whole ++ '.' :: padded.drop whole)

end Autodiff.Decimal
