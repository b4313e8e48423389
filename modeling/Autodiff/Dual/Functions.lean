import Autodiff.Dual.Basic

set_option autoImplicit false

namespace Autodiff

open Functions (unary binary powInt)

variable {α : Type} [Arith α] [Functions α]

/-- Derivative of `f` at `x`, where `y` is the value of `f` at `x`. The absolute value has
derivative zero at zero, and functions with jumps have derivative zero everywhere. -/
def UnaryFn.derivative (f : UnaryFn) (x y : α) : α :=
  match f with
  | .exp => y
  | .exp2 => y * Functions.constant .ln2
  | .expm1 => y + 1
  | .ln => unary .reciprocal x
  | .ln1p => unary .reciprocal (x + 1)
  | .log2 => unary .reciprocal (x * Functions.constant .ln2)
  | .log10 => unary .reciprocal (x * Functions.constant .ln10)
  | .sqrt => unary .reciprocal (y + y)
  | .cbrt => unary .reciprocal (y * y * ((3 : Int) : α))
  | .reciprocal => -y * y
  | .sin => unary .cos x
  | .cos => -unary .sin x
  | .tan => 1 + y * y
  | .asin => unary .reciprocal (unary .sqrt (1 - x * x))
  | .acos => -unary .reciprocal (unary .sqrt (1 - x * x))
  | .atan => unary .reciprocal (1 + x * x)
  | .sinh => unary .cosh x
  | .cosh => unary .sinh x
  | .tanh => 1 - y * y
  | .asinh => unary .reciprocal (unary .sqrt (x * x + 1))
  | .acosh => unary .reciprocal (unary .sqrt (x * x - 1))
  | .atanh => unary .reciprocal (1 - x * x)
  | .abs => if Functions.eq x 0 then 0 else unary .sign x
  | .fraction => 1
  | .toDegrees => unary .toDegrees 1
  | .toRadians => unary .toRadians 1
  | .sign | .floor | .ceil | .round | .trunc => 0

namespace Dual

def unary (f : UnaryFn) (x : Dual α) : Dual α :=
  let y := Functions.unary f x.value
  match f with
  | .sign | .floor | .ceil | .round | .trunc => constant y
  | .toDegrees | .toRadians => ⟨y, x.tangent * f.derivative x.value y⟩
  | f => x.map y (f.derivative x.value y)

/-- The exponent zero has derivative zero, also at zero. -/
def powInt (x : Dual α) (n : Int) : Dual α :=
  x.map (Functions.powInt x.value n)
    (if n = 0 then 0 else (n : α) * Functions.powInt x.value (n - 1))

def rem (x y : Dual α) : Dual α :=
  ⟨Functions.binary .rem x.value y.value,
    x.tangent - Functions.unary .trunc (x.value / y.value) * y.tangent⟩

/-- The tangent of the exponent enters only when it is not zero, so a constant exponent also works
for a negative base. -/
def pow (x p : Dual α) : Dual α :=
  let y := Functions.binary .pow x.value p.value
  let tangent := p.value * Functions.binary .pow x.value (p.value - 1) * x.tangent
  ⟨y, if Functions.eq p.tangent 0 then tangent
    else tangent + y * Functions.unary .ln x.value * p.tangent⟩

def atan2 (y x : Dual α) : Dual α :=
  ⟨Functions.binary .atan2 y.value x.value,
    (x.value * y.tangent - y.value * x.tangent) / (y.value * y.value + x.value * x.value)⟩

def hypot (x y : Dual α) : Dual α :=
  let h := Functions.binary .hypot x.value y.value
  ⟨h, (x.value * x.tangent + y.value * y.tangent) / h⟩

/-- A tie keeps the first operand, tangent included. -/
def max (x y : Dual α) : Dual α := if Functions.lt x.value y.value then y else x

def min (x y : Dual α) : Dual α := if Functions.lt y.value x.value then y else x

def excess (x y : Dual α) : Dual α := if Functions.lt y.value x.value then x - y else 0

def binary : BinaryFn → Dual α → Dual α → Dual α
  | .rem, x, y => rem x y
  | .pow, x, y => pow x y
  | .log, x, base => unary .ln x / unary .ln base
  | .atan2, y, x => atan2 y x
  | .hypot, x, y => hypot x y
  | .max, x, y => max x y
  | .min, x, y => min x y
  | .excess, x, y => excess x y

def mulAdd (x y z : Dual α) : Dual α :=
  ⟨Functions.mulAdd x.value y.value z.value, x.tangent * y.value + x.value * y.tangent + z.tangent⟩

instance : Functions (Dual α) where
  lt x y := Functions.lt x.value y.value
  le x y := Functions.le x.value y.value
  eq x y := Functions.eq x.value y.value
  constant c := constant (Functions.constant c)
  unary := unary
  binary := binary
  powInt := powInt
  mulAdd := mulAdd
  test t x := Functions.test t x.value

instance [Representation α] : Representation (Dual α) where
  kind x := Representation.kind x.value
  decode x := Representation.decode x.value
  truncated? x := Representation.truncated? x.value
  toDouble x := Representation.toDouble x.value
  ofDouble x := constant (Representation.ofDouble x)
  read? text := (Representation.read? text).map constant
  text x := Representation.text x.value ++ " + " ++ Representation.text x.tangent ++ "ε"

end Dual

end Autodiff
