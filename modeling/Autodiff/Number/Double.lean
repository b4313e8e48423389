import Autodiff.Number.Machine

set_option autoImplicit false

namespace Autodiff

namespace Double

/-- `ln (1 + x)`; the rounding error of `1 + x` is undone by the factor `x / ((1 + x) - 1)`. -/
def ln1p (x : Float) : Float :=
  let u := 1 + x
  if u == 1 then x
  else if u.isInf && 0 < u then u
  else u.log * (x / (u - 1))

def expm1 (x : Float) : Float :=
  let u := x.exp
  if u == 1 then x
  else if u.isInf then u
  else if u - 1 == -1 then -1
  else (u - 1) * (x / u.log)

/-- Length of the hypotenuse, scaled so that no square overflows. -/
def hypot (x y : Float) : Float :=
  if x.isInf then x.abs
  else if y.isInf then y.abs
  else
    let big := if x.abs < y.abs then y.abs else x.abs
    let small := if x.abs < y.abs then x.abs else y.abs
    if big == 0 then big + small
    else
      let r := small / big
      big * (1 + r * r).sqrt

end Double

instance : MachineFloat Float where
  zero := Float.ofNat 0
  one := Float.ofNat 1
  add := Float.add
  sub := Float.sub
  mul := Float.mul
  div := Float.div
  neg := Float.neg
  intCast n := Float.ofBits (UInt64.ofNat
    (Binary.binary64.pack (Binary.binary64.nearest (decide (n < 0)) n.natAbs 1)))
  format := Binary.binary64
  toWord x := x.toBits.toNat
  ofWord w := Float.ofBits (UInt64.ofNat w)
  lt := Float.lt
  le := Float.le
  eq := Float.beq
  sqrt := Float.sqrt
  cbrt := Float.cbrt
  exp := Float.exp
  exp2 := Float.exp2
  expm1 := Double.expm1
  ln := Float.log
  ln1p := Double.ln1p
  log2 := Float.log2
  log10 := Float.log10
  sin := Float.sin
  cos := Float.cos
  tan := Float.tan
  asin := Float.asin
  acos := Float.acos
  atan := Float.atan
  sinh := Float.sinh
  cosh := Float.cosh
  tanh := Float.tanh
  pow := Float.pow
  atan2 := Float.atan2
  hypot := Double.hypot
  toDouble x := x
  ofDouble x := x

end Autodiff
