import Autodiff.Binary.Operations
import Autodiff.Decimal.Literal
import Autodiff.Decimal.Shortest
import Autodiff.Number.Functions

set_option autoImplicit false

namespace Autodiff

open Binary (Datum twoPow)

/-- Storage, comparisons and the functions computed outside: the last digit of all but `sqrt` is
left to the platform. -/
class MachineFloat (α : Type) extends Arith α where
  format : Binary.Format
  toWord : α → Nat
  ofWord : Nat → α
  lt : α → α → Bool
  le : α → α → Bool
  eq : α → α → Bool
  sqrt : α → α
  cbrt : α → α
  exp : α → α
  exp2 : α → α
  expm1 : α → α
  ln : α → α
  ln1p : α → α
  log2 : α → α
  log10 : α → α
  sin : α → α
  cos : α → α
  tan : α → α
  asin : α → α
  acos : α → α
  atan : α → α
  sinh : α → α
  cosh : α → α
  tanh : α → α
  pow : α → α → α
  atan2 : α → α → α
  hypot : α → α → α
  toDouble : α → Float
  ofDouble : Float → α

namespace MachineFloat

variable {α : Type} [MachineFloat α]

def datum (x : α) : Datum := (format α).unpack (toWord x)

def ofDatum (d : Datum) : α := ofWord ((format α).pack d)

def ofRatio (num den : Nat) : α := ofDatum ((format α).nearest false num den)

def fixedPoint (f : Binary.Format) (n : Nat) : Datum := f.nearest false n (Decimal.tenPow 36)

def constantDatum (f : Binary.Format) : Constant → Datum
  | .nan => .nan
  | .infinity => .infinite false
  | .negInfinity => .infinite true
  | .negZero => .finite true 0 f.minExponent
  | .minValue => match f.largest with
    | .finite _ m e => .finite true m e
    | d => d
  | .minPositive => f.leastNormal
  | .maxValue => f.largest
  | .epsilon => f.epsilon
  | .e => fixedPoint f 2718281828459045235360287471352662498
  | .log2E => fixedPoint f 1442695040888963407359924681001892137
  | .log10E => fixedPoint f 434294481903251827651128918916605082
  | .ln2 => fixedPoint f 693147180559945309417232121458176568
  | .ln10 => fixedPoint f 2302585092994045684017991454684364208
  | .log2Ten => fixedPoint f 3321928094887362347870319429489390176
  | .log10Two => fixedPoint f 301029995663981195213738894724493027
  | .pi => fixedPoint f 3141592653589793238462643383279502884
  | .tau => fixedPoint f 6283185307179586476925286766559005768
  | .piHalf => fixedPoint f 1570796326794896619231321691639751442
  | .piThird => fixedPoint f 1047197551196597746154214461093167628
  | .piQuarter => fixedPoint f 785398163397448309615660845819875721
  | .piSixth => fixedPoint f 523598775598298873077107230546583814
  | .piEighth => fixedPoint f 392699081698724154807830422909937861
  | .invPi => fixedPoint f 318309886183790671537767526745028724
  | .twoInvPi => fixedPoint f 636619772367581343075535053490057448
  | .twoInvSqrtPi => fixedPoint f 1128379167095512573896158903121545172
  | .sqrt2 => fixedPoint f 1414213562373095048801688724209698079
  | .invSqrt2 => fixedPoint f 707106781186547524400844362104849039

def constant (c : Constant) : α := ofDatum (constantDatum (format α) c)

def abs (x : α) : α :=
  match datum x with
  | .finite _ m e => ofDatum (.finite false m e)
  | .infinite _ => ofDatum (.infinite false)
  | .nan => x

def copySign (x y : α) : α := if (datum y).isNegative then -(abs x) else abs x

def toIntegral (mode : Binary.IntegerRounding) (x : α) : α :=
  ofDatum ((datum x).toIntegral (format α) mode)

def powNat (base acc : α) (n : Nat) : α :=
  let acc := if n % 2 = 1 then acc * base else acc
  if h : n / 2 = 0 then acc
  else powNat (base * base) acc (n / 2)
termination_by n
decreasing_by omega

/-- A negative exponent inverts the finished power. -/
def powInt (x : α) (n : Int) : α :=
  let power := powNat x 1 n.natAbs
  if n < 0 then 1 / power else power

def isNaN (x : α) : Bool := (datum x).isNaN

def asinh (x : α) : α :=
  let a := abs x
  let i := 1 / a
  copySign (ln1p (a + a / (hypot 1 i + i))) x

def acosh (x : α) : α :=
  if lt x 1 then constant .nan
  else ln (x + sqrt (x - 1) * sqrt (x + 1))

def atanh (x : α) : α := ofRatio 1 2 * ln1p ((1 + 1) * x / (1 - x))

def sign (x : α) : α := if isNaN x then x else copySign 1 x

def unary : UnaryFn → α → α
  | .reciprocal, x => 1 / x
  | .sqrt, x => sqrt x
  | .abs, x => abs x
  | .sign, x => sign x
  | .fraction, x => x - toIntegral .towardZero x
  | .floor, x => toIntegral .down x
  | .ceil, x => toIntegral .up x
  | .round, x => toIntegral .nearestAway x
  | .trunc, x => toIntegral .towardZero x
  | .toDegrees, x => x * ofDatum (fixedPoint (format α) 57295779513082320876798154814105170332)
  | .toRadians, x => x * (constant .pi / ((180 : Int) : α))
  | .ln1p, x => ln1p x
  | .expm1, x => expm1 x
  | .asinh, x => asinh x
  | .acosh, x => acosh x
  | .atanh, x => atanh x
  | .cbrt, x => cbrt x
  | .exp, x => exp x
  | .exp2, x => exp2 x
  | .ln, x => ln x
  | .log2, x => log2 x
  | .log10, x => log10 x
  | .sin, x => sin x
  | .cos, x => cos x
  | .tan, x => tan x
  | .asin, x => asin x
  | .acos, x => acos x
  | .atan, x => atan x
  | .sinh, x => sinh x
  | .cosh, x => cosh x
  | .tanh, x => tanh x

/-- `max` and `min` return the other operand when one is a NaN. -/
def binary : BinaryFn → α → α → α
  | .rem, x, y => ofDatum ((datum x).remainder (format α) (datum y))
  | .pow, x, y => pow x y
  | .log, x, y => ln x / ln y
  | .atan2, y, x => atan2 y x
  | .hypot, x, y => hypot x y
  | .max, x, y => if isNaN x then y else if lt x y then y else x
  | .min, x, y => if isNaN x then y else if lt y x then y else x
  | .excess, x, y => if isNaN x then x else if isNaN y then y else if lt y x then x - y else 0

def test : Test → α → Bool
  | .nan, x => isNaN x
  | .infinite, x => (datum x).isInfinite
  | .finite, x => (datum x).isFinite
  | .normal, x => (datum x).isNormal (format α)
  | .signPositive, x => !(datum x).isNegative
  | .signNegative, x => (datum x).isNegative

instance : Functions α where
  lt := lt
  le := le
  eq := eq
  constant := constant
  unary := unary
  binary := binary
  powInt := powInt
  mulAdd x y z := ofDatum ((datum x).mulAdd (format α) (datum y) (datum z))
  test := test

def kind (x : α) : FloatKind :=
  match datum x with
  | .nan => .nan
  | .infinite _ => .infinite
  | .finite negative m e =>
    if m = 0 then .zero
    else if (Datum.finite negative m e).isNormal (format α) then .normal else .subnormal

/-- Subnormal significands are doubled, so that the exponent field alone gives the exponent. -/
def decode (x : α) : Nat × Int × Int :=
  let f := format α
  let word := toWord x
  let fraction := word % twoPow (f.precision - 1)
  let field := word / twoPow (f.precision - 1) % twoPow f.exponentBits
  let significand := if field = 0 then 2 * fraction else twoPow (f.precision - 1) + fraction
  (significand, field - (f.bias + (f.precision - 1) : Nat), if f.signBit ≤ word then -1 else 1)

instance : Representation α where
  kind := kind
  decode := decode
  truncated? x := (datum x).truncated?
  toDouble := toDouble
  ofDouble := ofDouble
  read? text := (Decimal.read? (format α) text).map ofDatum
  text x := Decimal.plainText (format α) (datum x)

end MachineFloat

end Autodiff
