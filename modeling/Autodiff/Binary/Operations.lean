import Autodiff.Binary.Format

set_option autoImplicit false

namespace Autodiff.Binary

/-- How a value with a fractional part goes to an integer; `nearestAway` takes a half away from
zero. -/
inductive IntegerRounding where
  | towardZero
  | down
  | up
  | nearestAway
deriving DecidableEq

def IntegerRounding.magnitude (mode : IntegerRounding) (negative : Bool) (num den : Nat) : Nat :=
  let q := num / den
  let r := num % den
  let away := match mode with
    | .towardZero => false
    | .down => negative && r != 0
    | .up => !negative && r != 0
    | .nearestAway => decide (den ≤ 2 * r)
  if away then q + 1 else q

namespace Datum

def isNegative : Datum → Bool
  | .nan => false
  | .infinite negative => negative
  | .finite negative _ _ => negative

def isNaN : Datum → Bool
  | .nan => true
  | _ => false

def isInfinite : Datum → Bool
  | .infinite _ => true
  | _ => false

def isFinite : Datum → Bool
  | .finite _ _ _ => true
  | _ => false

def isNormal (f : Format) : Datum → Bool
  | .finite _ m _ => twoPow (f.precision - 1) ≤ m
  | _ => false

/-- Nearest integers keep the sign of the operand, so a small negative value gives `-0`. -/
def toIntegral (f : Format) (mode : IntegerRounding) : Datum → Datum
  | .finite negative m e =>
    if 0 ≤ e then .finite negative m e
    else f.nearest negative (mode.magnitude negative m (twoPow (-e).toNat)) 1
  | d => d

def truncated? : Datum → Option Int
  | .finite negative m e =>
    let n := m * twoPow e.toNat / twoPow (-e).toNat
    some (if negative then -(n : Int) else n)
  | _ => none

def remainder (f : Format) : Datum → Datum → Datum
  | .finite negative m e, .finite _ n d =>
    if n = 0 then .nan
    else
      let low := min e d
      f.nearestDyadic negative (m * twoPow (e - low).toNat % (n * twoPow (d - low).toNat)) low
  | .finite negative m e, .infinite _ => .finite negative m e
  | _, _ => .nan

private def signedInt (negative : Bool) (n : Nat) : Int := if negative then -(n : Int) else n

/-- `x * y + z` with a single rounding. An exact zero is negative only when product and addend
both are. -/
def mulAdd (f : Format) : Datum → Datum → Datum → Datum
  | .nan, _, _ => .nan
  | _, .nan, _ => .nan
  | _, _, .nan => .nan
  | .finite s m e, .finite t n d, .finite u k c =>
    let low := min (e + d) c
    let product := signedInt (s != t) (m * n * twoPow (e + d - low).toNat)
    let addend := signedInt u (k * twoPow (c - low).toNat)
    let total := product + addend
    let negative := if total = 0 then (s != t) && u else decide (total < 0)
    f.nearestDyadic negative total.natAbs low
  | .finite _ _ _, .finite _ _ _, .infinite u => .infinite u
  | x, y, z =>
    let negative := x.isNegative != y.isNegative
    let zeroFactor := match x, y with
      | .finite _ m _, _ => m = 0
      | _, .finite _ n _ => n = 0
      | _, _ => false
    match z with
    | .infinite u => if zeroFactor || negative != u then .nan else .infinite u
    | _ => if zeroFactor then .nan else .infinite negative

end Datum

end Autodiff.Binary
