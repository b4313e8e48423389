import Autodiff.Number.Double

set_option autoImplicit false

namespace Autodiff

instance : MachineFloat Float32 where
  zero := Float32.ofNat 0
  one := Float32.ofNat 1
  add := Float32.add
  sub := Float32.sub
  mul := Float32.mul
  div := Float32.div
  neg := Float32.neg
  intCast n := Float32.ofBits (UInt32.ofNat
    (Binary.binary32.pack (Binary.binary32.nearest (decide (n < 0)) n.natAbs 1)))
  format := Binary.binary32
  toWord x := x.toBits.toNat
  ofWord w := Float32.ofBits (UInt32.ofNat w)
  lt := Float32.lt
  le := Float32.le
  eq := Float32.beq
  sqrt := Float32.sqrt
  cbrt := Float32.cbrt
  exp := Float32.exp
  exp2 := Float32.exp2
  expm1 x := (Double.expm1 x.toFloat).toFloat32
  ln := Float32.log
  ln1p x := (Double.ln1p x.toFloat).toFloat32
  log2 := Float32.log2
  log10 := Float32.log10
  sin := Float32.sin
  cos := Float32.cos
  tan := Float32.tan
  asin := Float32.asin
  acos := Float32.acos
  atan := Float32.atan
  sinh := Float32.sinh
  cosh := Float32.cosh
  tanh := Float32.tanh
  pow := Float32.pow
  atan2 := Float32.atan2
  hypot x y := (Double.hypot x.toFloat y.toFloat).toFloat32
  toDouble := Float32.toFloat
  ofDouble := Float.toFloat32

end Autodiff
