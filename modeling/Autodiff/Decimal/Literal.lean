import Autodiff.Binary.Format
import Autodiff.Decimal.Digits

set_option autoImplicit false

namespace Autodiff.Decimal

open Binary (Datum Format twoPow)

/-- The datum nearest to `± significand * 10 ^ exponent`. Exponents far outside the format's range
are cut short, which changes no result. -/
def nearest (f : Format) (negative : Bool) (significand : Nat) (exponent : Int) : Datum :=
  let reach : Int := twoPow f.exponentBits
  if significand = 0 then f.nearest negative 0 1
  else if reach < exponent then .infinite negative
  else if exponent < -(reach + significand.log2) then f.nearest negative 0 1
  else f.nearest negative (significand * tenPow exponent.toNat) (tenPow (-exponent).toNat)

private def readDigits (cs : List Char) : List Char × List Char :=
  (cs.takeWhile Char.isDigit, cs.dropWhile Char.isDigit)

private def natOfDigits (ds : List Char) : Nat :=
  ds.foldl (fun n c => 10 * n + (c.toNat - '0'.toNat)) 0

private def readSign : List Char → Bool × List Char
  | '-' :: cs => (true, cs)
  | '+' :: cs => (false, cs)
  | cs => (false, cs)

private def readExponent? : List Char → Option Int
  | [] => some 0
  | c :: cs =>
    if c = 'e' ∨ c = 'E' then
      let (negative, cs) := readSign cs
      let (ds, rest) := readDigits cs
      if ds.isEmpty || !rest.isEmpty then none
      else some (if negative then -(natOfDigits ds : Int) else natOfDigits ds)
    else none

private def readNumber? (cs : List Char) : Option (Nat × Int) :=
  let (whole, rest) := readDigits cs
  let (fraction, rest) := match rest with
    | '.' :: rest => readDigits rest
    | rest => ([], rest)
  if whole.isEmpty && fraction.isEmpty then none
  else (readExponent? rest).map fun e => (natOfDigits (whole ++ fraction), e - fraction.length)

def read? (f : Format) (text : String) : Option Datum :=
  let (negative, cs) := readSign text.toList
  match readNumber? cs with
  | some (significand, exponent) => some (nearest f negative significand exponent)
  | none =>
    let word := String.ofList (cs.map Char.toLower)
    if word = "nan" then some .nan
    else if word = "inf" ∨ word = "infinity" then some (.infinite negative)
    else none

end Autodiff.Decimal
