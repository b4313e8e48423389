import Mathlib
import Autodiff.Proofs.Number.Exact

set_option autoImplicit false

namespace Autodiff

open Functions (unary binary)

section Slopes

variable {K : Type} [Field K] [LinearOrder K] [Functions K]

def UnaryFn.slope (f : UnaryFn) (x : K) : K :=
  match f with
  | .exp | .expm1 => unary .exp x
  | .exp2 => Functions.constant .ln2 * unary .exp2 x
  | .ln => 1 / x
  | .ln1p => 1 / (1 + x)
  | .log2 => 1 / (x * Functions.constant .ln2)
  | .log10 => 1 / (x * Functions.constant .ln10)
  | .sqrt => 1 / ((2 : ℕ) * unary .sqrt x)
  | .cbrt => 1 / ((3 : ℕ) * unary .cbrt x ^ 2)
  | .reciprocal => -1 / x ^ 2
  | .sin => unary .cos x
  | .cos => -unary .sin x
  | .tan => 1 / unary .cos x ^ 2
  | .asin => 1 / unary .sqrt (1 - x ^ 2)
  | .acos => -(1 / unary .sqrt (1 - x ^ 2))
  | .atan => 1 / (1 + x ^ 2)
  | .sinh => unary .cosh x
  | .cosh => unary .sinh x
  | .tanh => 1 / unary .cosh x ^ 2
  | .asinh => 1 / unary .sqrt (1 + x ^ 2)
  | .acosh => 1 / unary .sqrt (x ^ 2 - 1)
  | .atanh => 1 / (1 - x ^ 2)
  | .abs => if 0 < x then 1 else -1
  | .fraction => 1
  | .toDegrees => (180 : ℕ) / Functions.constant .pi
  | .toRadians => Functions.constant .pi / (180 : ℕ)
  | .sign | .floor | .ceil | .round | .trunc => 0

def UnaryFn.Regular (f : UnaryFn) (x : K) : Prop :=
  match f with
  | .ln | .log2 | .log10 | .sqrt => 0 < x
  | .ln1p => -1 < x
  | .cbrt | .reciprocal | .abs => x ≠ 0
  | .tan => unary .cos x ≠ 0
  | .asin | .acos | .atanh => -1 < x ∧ x < 1
  | .acosh => 1 < x
  | .exp | .exp2 | .expm1 | .sin | .cos | .atan | .sinh | .cosh | .tanh | .asinh | .sign
  | .fraction | .floor | .ceil | .round | .trunc | .toDegrees | .toRadians => True

/-- The open domain of a function of two numbers. A power with a constant exponent has a larger
one than other powers, and the angle is cut along the half-line where `x` is not positive. -/
def BinaryFn.Regular (D : Derivation ℤ K K) (f : BinaryFn) (x y : K) : Prop :=
  match f with
  | .rem => y ≠ 0
  | .pow => 0 < x ∨ D y = 0 ∧ (x ≠ 0 ∨ 1 ≤ y ∨ y = 0)
  | .log => 0 < x ∧ 0 < y ∧ unary .ln y ≠ 0
  | .atan2 => x ≠ 0 ∨ 0 < y
  | .hypot => x ≠ 0 ∨ y ≠ 0
  | .max | .min | .excess => True

end Slopes

class Identities (K : Type) [Field K] [LinearOrder K] [Functions K] : Prop where
  expm1 : ∀ x : K, unary .expm1 x = unary .exp x - 1
  tan : ∀ x : K, unary .tan x = unary .sin x / unary .cos x
  sin_cos : ∀ x : K, unary .sin x ^ 2 + unary .cos x ^ 2 = 1
  tanh : ∀ x : K, unary .tanh x = unary .sinh x / unary .cosh x
  cosh_sinh : ∀ x : K, unary .cosh x ^ 2 - unary .sinh x ^ 2 = 1
  sign_pos : ∀ x : K, 0 < x → unary .sign x = 1
  sign_neg : ∀ x : K, x < 0 → unary .sign x = -1
  toDegrees : ∀ x : K, unary .toDegrees x = x * ((180 : ℕ) / Functions.constant .pi)
  toRadians : ∀ x : K, unary .toRadians x = x * (Functions.constant .pi / (180 : ℕ))
  rem : ∀ x y : K, y ≠ 0 → binary .rem x y = x - unary .trunc (x / y) * y
  log : ∀ x b : K, binary .log x b = unary .ln x / unary .ln b
  max : ∀ x y : K, binary .max x y = Max.max x y
  min : ∀ x y : K, binary .min x y = Min.min x y
  excess : ∀ x y : K, binary .excess x y = if y < x then x - y else 0

/-- The derivation follows the rules for the named functions. A constant is a number with
derivative zero. -/
structure Calculus {K : Type} [Field K] [LinearOrder K] [Functions K]
    (D : Derivation ℤ K K) : Prop where
  unary : ∀ (f : UnaryFn) (x : K), f.Regular x →
    D (Functions.unary f x) = f.slope x * D x
  pow : ∀ x p : K, 0 < x →
    D (binary .pow x p) = p * binary .pow x (p - 1) * D x +
      binary .pow x p * Functions.unary .ln x * D p
  pow_constant : ∀ x p : K, D p = 0 → x ≠ 0 ∨ 1 ≤ p ∨ p = 0 →
    D (binary .pow x p) = p * binary .pow x (p - 1) * D x
  atan2 : ∀ y x : K, y ≠ 0 ∨ 0 < x →
    D (binary .atan2 y x) = (x * D y - y * D x) / (x ^ 2 + y ^ 2)
  hypot : ∀ x y : K, x ≠ 0 ∨ y ≠ 0 →
    D (binary .hypot x y) = (x * D x + y * D y) / binary .hypot x y

end Autodiff
