import Mathlib
import Autodiff.Proofs.Number.Real

/-!
# Checked real numbers

Real numbers that keep account of illegal operands: a quotient by zero, or a function outside its
domain, is undefined, and nothing computed from an undefined number is defined again. Of the
infinite numbers there is only the one below all others, and no arithmetic with it.
-/

set_option autoImplicit false

namespace Autodiff

inductive Checked where
  | real (x : ℝ)
  | negInfinity
  | undefined

noncomputable section

namespace Checked

open Classical in
def guard (legal : Prop) (x : ℝ) : Checked := if legal then real x else undefined

/-- Real operands are legal as told, and no others. -/
def map (legal : ℝ → Prop) (f : ℝ → ℝ) : Checked → Checked
  | real x => guard (legal x) (f x)
  | _ => undefined

def map₂ (legal : ℝ → ℝ → Prop) (f : ℝ → ℝ → ℝ) : Checked → Checked → Checked
  | real x, real y => guard (legal x y) (f x y)
  | _, _ => undefined

instance : Arith Checked where
  zero := real 0
  one := real 1
  add := map₂ (fun _ _ => True) (· + ·)
  sub := map₂ (fun _ _ => True) (· - ·)
  mul := map₂ (fun _ _ => True) (· * ·)
  div := map₂ (fun _ y => y ≠ 0) (· / ·)
  neg := map (fun _ => True) (- ·)
  intCast n := real n

def Legal (f : UnaryFn) (x : ℝ) : Prop :=
  match f with
  | .ln | .log2 | .log10 => 0 < x
  | .ln1p => -1 < x
  | .sqrt => 0 ≤ x
  | .reciprocal => x ≠ 0
  | .tan => Real.cos x ≠ 0
  | .asin | .acos => -1 ≤ x ∧ x ≤ 1
  | .acosh => 1 ≤ x
  | .atanh => -1 < x ∧ x < 1
  | .exp | .exp2 | .expm1 | .cbrt | .sin | .cos | .atan | .sinh | .cosh | .tanh | .asinh | .abs
  | .sign | .fraction | .floor | .ceil | .round | .trunc | .toDegrees | .toRadians => True

def Legal₂ (f : BinaryFn) (x y : ℝ) : Prop :=
  match f with
  | .rem => y ≠ 0
  | .pow => 0 < x
  | .log => 0 < x ∧ 0 < y ∧ y ≠ 1
  | .atan2 => x ≠ 0 ∨ y ≠ 0
  | .hypot | .max | .min | .excess => True

/-- The larger number, also when the other one is infinite. -/
def maximum : Checked → Checked → Checked
  | real x, real y => real (max x y)
  | negInfinity, y => y
  | x, negInfinity => x
  | _, _ => undefined

def constant : Constant → Checked
  | .negInfinity => negInfinity
  | .nan | .infinity | .negZero | .minValue | .minPositive | .maxValue | .epsilon => undefined
  | c => real (realConstant c)

instance : Functions Checked where
  lt
    | real x, real y => decide (x < y)
    | negInfinity, real _ => true
    | _, _ => false
  le
    | real x, real y => decide (x ≤ y)
    | negInfinity, real _ | negInfinity, negInfinity => true
    | _, _ => false
  eq
    | real x, real y => decide (x = y)
    | negInfinity, negInfinity => true
    | _, _ => false
  constant := constant
  unary f := map (Legal f) (realUnary · f)
  binary
    | .max => maximum
    | f => map₂ (Legal₂ f) (realBinary · · f)
  powInt x n := x.map (fun x => x ≠ 0 ∨ 0 ≤ n) (· ^ n)
  mulAdd x y z := x * y + z
  test
    | .nan, undefined | .infinite, negInfinity | .signNegative, negInfinity => true
    | .finite, real _ => true
    | .normal, real x => decide (x ≠ 0)
    | .signPositive, real x => decide (0 ≤ x)
    | .signNegative, real x => decide (x < 0)
    | _, _ => false

variable {x y : ℝ}

theorem guard_of {legal : Prop} (h : legal) (x : ℝ) : guard legal x = real x := if_pos h

@[simp]
theorem real_zero : (0 : Checked) = real 0 := rfl

@[simp]
theorem real_one : (1 : Checked) = real 1 := rfl

@[simp]
theorem real_add (x y : ℝ) : real x + real y = real (x + y) := guard_of trivial _

@[simp]
theorem real_sub (x y : ℝ) : real x - real y = real (x - y) := guard_of trivial _

@[simp]
theorem real_mul (x y : ℝ) : real x * real y = real (x * y) := guard_of trivial _

@[simp]
theorem real_neg (x : ℝ) : -real x = real (-x) := guard_of trivial _

theorem real_div (x : ℝ) (h : y ≠ 0) : real x / real y = real (x / y) := guard_of h _

theorem unary_real {f : UnaryFn} (h : Legal f x) :
    Functions.unary f (real x) = real (realUnary x f) := guard_of h _

theorem pow_real (h : 0 < x) (y : ℝ) :
    Functions.binary .pow (real x) (real y) = real (x ^ y) := guard_of h _

@[simp]
theorem le_real (x y : ℝ) : Functions.le (real x) (real y) = decide (x ≤ y) := rfl

@[simp]
theorem lt_real (x y : ℝ) : Functions.lt (real x) (real y) = decide (x < y) := rfl

@[simp]
theorem eq_real (x y : ℝ) : Functions.eq (real x) (real y) = decide (x = y) := rfl

@[simp]
theorem eq_negInfinity (x : ℝ) :
    Functions.eq (real x) (Functions.constant .negInfinity) = false := rfl

@[simp]
theorem max_real (x y : ℝ) :
    Functions.binary .max (real x) (real y) = real (max x y) := rfl

@[simp]
theorem max_negInfinity (x : Checked) :
    Functions.binary .max (Functions.constant .negInfinity) x = x := by
  cases x <;> rfl

@[simp]
theorem not_nan_real (x : ℝ) : Functions.test .nan (real x) = false := rfl

@[simp]
theorem not_infinite_real (x : ℝ) : Functions.test .infinite (real x) = false := rfl

@[simp]
theorem finite_real (x : ℝ) : Functions.test .finite (real x) = true := rfl

end Checked

end

end Autodiff
