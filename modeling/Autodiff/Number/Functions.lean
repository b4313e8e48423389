/-!
# Numbers

What a number type offers to the differentiation code: arithmetic, comparisons and named functions.
Neither class carries a law, so machine floats, nested dual numbers and exact fields are all
instances.
-/

set_option autoImplicit false

namespace Autodiff

class Arith (α : Type) extends Zero α, One α, Add α, Sub α, Mul α, Div α, Neg α, IntCast α

inductive UnaryFn where
  | exp | exp2 | expm1 | ln | ln1p | log2 | log10
  | sqrt | cbrt | reciprocal
  | sin | cos | tan | asin | acos | atan
  | sinh | cosh | tanh | asinh | acosh | atanh
  | abs | sign | fraction | floor | ceil | round | trunc
  | toDegrees | toRadians
deriving DecidableEq

/-- Functions of two numbers. `log x b` has base `b`, `atan2 y x` has the ordinate first, and
`excess x y` is the part by which `x` exceeds `y`. -/
inductive BinaryFn where
  | rem | pow | log | atan2 | hypot | max | min | excess
deriving DecidableEq

inductive Constant where
  | nan | infinity | negInfinity | negZero | minValue | minPositive | maxValue | epsilon
  | e | log2E | log10E | ln2 | ln10 | log2Ten | log10Two
  | pi | tau | piHalf | piThird | piQuarter | piSixth | piEighth
  | invPi | twoInvPi | twoInvSqrtPi | sqrt2 | invSqrt2
deriving DecidableEq

inductive Test where
  | nan | infinite | finite | normal | signPositive | signNegative
deriving DecidableEq

/-- Comparisons answer false on an unordered pair. `powInt` takes an integer exponent and
`mulAdd x y z` is `x * y + z`. -/
class Functions (α : Type) where
  lt : α → α → Bool
  le : α → α → Bool
  eq : α → α → Bool
  constant : Constant → α
  unary : UnaryFn → α → α
  binary : BinaryFn → α → α → α
  powInt : α → Int → α
  mulAdd : α → α → α → α
  test : Test → α → Bool

namespace Functions

variable {α : Type} [Functions α]

def gt (x y : α) : Bool := lt y x

def ge (x y : α) : Bool := le y x

def compare? (x y : α) : Option Ordering :=
  if lt x y then some .lt else if eq x y then some .eq else if lt y x then some .gt else none

def sinCos (x : α) : α × α := (unary .sin x, unary .cos x)

end Functions

inductive FloatKind where
  | nan | infinite | zero | subnormal | normal
deriving DecidableEq

/-- Reading, writing and converting numbers. `truncated?` is the integer left when the fractional
part is dropped, and `decode` gives significand, exponent of its last place, and sign. -/
class Representation (α : Type) where
  kind : α → FloatKind
  decode : α → Nat × Int × Int
  truncated? : α → Option Int
  toDouble : α → Float
  ofDouble : Float → α
  read? : String → Option α
  text : α → String

namespace Representation

variable {α : Type} [Representation α]

def toIntWithin? (low high : Int) (x : α) : Option Int :=
  (truncated? x).filter fun n => low ≤ n && n ≤ high

end Representation

end Autodiff
