/-!
# Binary floating-point formats

A datum of a binary format is a NaN, a signed infinity, or a signed significand times a power of
two. `unpack` and `pack` move between words and data, and `nearest` rounds a quotient of natural
numbers to the format, ties to the even significand.
-/

set_option autoImplicit false

namespace Autodiff.Binary

def twoPow (n : Nat) : Nat := Nat.pow 2 n

def roundDiv (num den : Nat) : Nat :=
  let q := num / den
  let r := num % den
  if den < 2 * r ∨ (2 * r = den ∧ q % 2 = 1) then q + 1 else q

def floorLog2 (num den : Nat) : Int :=
  let e : Int := (num.log2 : Int) - (den.log2 : Int)
  if den * twoPow e.toNat ≤ num * twoPow (-e).toNat then e else e - 1

/-- All NaNs are one datum; a zero is a finite datum with significand zero. -/
inductive Datum where
  | nan
  | infinite (negative : Bool)
  | finite (negative : Bool) (significand : Nat) (exponent : Int)
deriving DecidableEq

/-- `precision` counts the leading significand bit, which a word leaves out. -/
structure Format where
  precision : Nat
  exponentBits : Nat
deriving DecidableEq

def binary32 : Format := ⟨24, 8⟩

def binary64 : Format := ⟨53, 11⟩

namespace Format

def bias (f : Format) : Nat := twoPow (f.exponentBits - 1) - 1

def minExponent (f : Format) : Int := 2 - (f.bias : Int) - f.precision

def maxExponent (f : Format) : Int := (f.bias : Int) + 1 - f.precision

def signBit (f : Format) : Nat := twoPow (f.exponentBits + f.precision - 1)

def unpack (f : Format) (word : Nat) : Datum :=
  let negative := decide (f.signBit ≤ word)
  let fraction := word % twoPow (f.precision - 1)
  let field := word / twoPow (f.precision - 1) % twoPow f.exponentBits
  if field = twoPow f.exponentBits - 1 then
    if fraction = 0 then .infinite negative else .nan
  else if field = 0 then .finite negative fraction f.minExponent
  else .finite negative (twoPow (f.precision - 1) + fraction) (f.minExponent + field - 1)

/-- Inverse of `unpack` on the data it gives; the NaN written is the quiet one with a clear sign. -/
def pack (f : Format) : Datum → Nat
  | .nan => (twoPow f.exponentBits - 1) * twoPow (f.precision - 1) + twoPow (f.precision - 2)
  | .infinite negative =>
    (if negative then f.signBit else 0) + (twoPow f.exponentBits - 1) * twoPow (f.precision - 1)
  | .finite negative significand exponent =>
    let sign := if negative then f.signBit else 0
    let leading := twoPow (f.precision - 1)
    if significand < leading then sign + significand
    else sign + ((exponent - f.minExponent).toNat + 1) * leading + (significand - leading)

/-- The datum nearest to `± num / den`, ties to the even significand; values beyond the largest
finite number by half a unit of its last place or more become infinite. -/
def nearest (f : Format) (negative : Bool) (num den : Nat) : Datum :=
  if num = 0 then .finite negative 0 f.minExponent
  else
    let e := max (floorLog2 num den - (f.precision - 1 : Nat)) f.minExponent
    let m := roundDiv (num * twoPow (-e).toNat) (den * twoPow e.toNat)
    let (m, e) := if m = twoPow f.precision then (twoPow (f.precision - 1), e + 1) else (m, e)
    if f.maxExponent < e then .infinite negative else .finite negative m e

def nearestDyadic (f : Format) (negative : Bool) (significand : Nat) (exponent : Int) : Datum :=
  f.nearest negative (significand * twoPow exponent.toNat) (twoPow (-exponent).toNat)

def largest (f : Format) : Datum := .finite false (twoPow f.precision - 1) f.maxExponent

def leastNormal (f : Format) : Datum := .finite false (twoPow (f.precision - 1)) f.minExponent

def epsilon (f : Format) : Datum := f.nearest false 1 (twoPow (f.precision - 1))

end Format

end Autodiff.Binary
