import Mathlib
import Autodiff.Proofs.Number.Exact

set_option autoImplicit false

namespace Autodiff

/-- The exponential turns sums into products, the logarithm undoes it on positive numbers, and
powers with a positive base are made of the two. -/
class ExactExponential (F : Type) [Field F] [LinearOrder F] [Functions F] : Prop
    extends ExactField F where
  exp_add : ∀ x y : F,
    Functions.unary .exp (x + y) = Functions.unary .exp x * Functions.unary .exp y
  exp_ln : ∀ x : F, 0 < x → Functions.unary .exp (Functions.unary .ln x) = x
  pow : ∀ x y : F, 0 < x →
    Functions.binary .pow x y = Functions.unary .exp (y * Functions.unary .ln x)

noncomputable section

def truncation (x : ℝ) : ℤ := if 0 ≤ x then ⌊x⌋ else ⌈x⌉

def realConstant : Constant → ℝ
  | .e => Real.exp 1
  | .log2E => Real.logb (2 : ℕ) (Real.exp 1)
  | .log10E => Real.logb (10 : ℕ) (Real.exp 1)
  | .ln2 => Real.log (2 : ℕ)
  | .ln10 => Real.log (10 : ℕ)
  | .log2Ten => Real.logb (2 : ℕ) (10 : ℕ)
  | .log10Two => Real.logb (10 : ℕ) (2 : ℕ)
  | .pi => Real.pi
  | .tau => (2 : ℕ) * Real.pi
  | .piHalf => Real.pi / (2 : ℕ)
  | .piThird => Real.pi / (3 : ℕ)
  | .piQuarter => Real.pi / (4 : ℕ)
  | .piSixth => Real.pi / (6 : ℕ)
  | .piEighth => Real.pi / (8 : ℕ)
  | .invPi => 1 / Real.pi
  | .twoInvPi => (2 : ℕ) / Real.pi
  | .twoInvSqrtPi => (2 : ℕ) / √Real.pi
  | .sqrt2 => √(2 : ℕ)
  | .invSqrt2 => 1 / √(2 : ℕ)
  -- What belongs to a machine format has no real value.
  | .nan | .infinity | .negInfinity | .negZero | .minValue | .minPositive | .maxValue
  | .epsilon => 0

def realUnary (x : ℝ) : UnaryFn → ℝ
  | .exp => Real.exp x
  | .exp2 => Real.exp (x * Real.log (2 : ℕ))
  | .expm1 => Real.exp x - 1
  | .ln => Real.log x
  | .ln1p => Real.log (1 + x)
  | .log2 => Real.logb (2 : ℕ) x
  | .log10 => Real.logb (10 : ℕ) x
  | .sqrt => √x
  | .cbrt => if 0 ≤ x then x ^ (1 / (3 : ℕ) : ℝ) else -(-x) ^ (1 / (3 : ℕ) : ℝ)
  | .reciprocal => x⁻¹
  | .sin => Real.sin x
  | .cos => Real.cos x
  | .tan => Real.tan x
  | .asin => Real.arcsin x
  | .acos => Real.arccos x
  | .atan => Real.arctan x
  | .sinh => Real.sinh x
  | .cosh => Real.cosh x
  | .tanh => Real.tanh x
  | .asinh => Real.arsinh x
  | .acosh => Real.arcosh x
  | .atanh => Real.artanh x
  | .abs => |x|
  | .sign => if 0 ≤ x then 1 else -1
  | .fraction => x - truncation x
  | .floor => ⌊x⌋
  | .ceil => ⌈x⌉
  | .round => if 0 ≤ x then ⌊x + 1 / (2 : ℕ)⌋ else ⌈x - 1 / (2 : ℕ)⌉
  | .trunc => truncation x
  | .toDegrees => x * ((180 : ℕ) / Real.pi)
  | .toRadians => x * (Real.pi / (180 : ℕ))

def realBinary (x y : ℝ) : BinaryFn → ℝ
  | .rem => x - truncation (x / y) * y
  | .pow => x ^ y
  | .log => Real.logb y x
  | .atan2 => Complex.arg ⟨y, x⟩
  | .hypot => √(x ^ 2 + y ^ 2)
  | .max => max x y
  | .min => min x y
  | .excess => max (x - y) 0

instance : Functions ℝ where
  lt x y := decide (x < y)
  le x y := decide (x ≤ y)
  eq x y := decide (x = y)
  constant := realConstant
  unary f x := realUnary x f
  binary f x y := realBinary x y f
  powInt x n := x ^ n
  mulAdd x y z := x * y + z
  test t x := match t with
    | .nan | .infinite => false
    | .finite => true
    | .normal => decide (x ≠ 0)
    | .signPositive => decide (0 ≤ x)
    | .signNegative => decide (x < 0)

instance : ExactOrderedField ℝ where
  eq_iff _ _ := decide_eq_true_iff
  reciprocal _ := rfl
  lt_iff _ _ := decide_eq_true_iff
  le_iff _ _ := decide_eq_true_iff
  abs _ := rfl
  finite _ := rfl
  notNan _ := rfl

instance : ExactPowers ℝ where
  powInt _ _ _ := rfl
  mulAdd _ _ _ := rfl

instance : ExactExponential ℝ where
  exp_add := Real.exp_add
  exp_ln _ := Real.exp_log
  pow _ y h := (Real.rpow_def_of_pos h y).trans (congrArg Real.exp (mul_comm _ _))

end

end Autodiff
