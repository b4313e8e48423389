import Mathlib
import Autodiff.Proofs.Number.Real

set_option autoImplicit false

namespace Autodiff

/-- The exponential is positive and turns sums into products, and the logarithm undoes it. -/
class ExponentialLaws (K : Type) [Field K] [LinearOrder K] [Functions K] : Prop where
  exp_add : ∀ x y : K,
    Functions.unary .exp (x + y) = Functions.unary .exp x * Functions.unary .exp y
  exp_ln : ∀ x : K, 0 < x → Functions.unary .exp (Functions.unary .ln x) = x
  exp_pos : ∀ x : K, 0 < Functions.unary .exp x

instance : ExponentialLaws ℝ where
  exp_add := Real.exp_add
  exp_ln _ := Real.exp_log
  exp_pos := Real.exp_pos

inductive Extended (K : Type) where
  | real (x : K)
  | infinite (negative : Bool)
  | nan

namespace Extended

variable {K : Type} [Field K] [LinearOrder K]

def add : Extended K → Extended K → Extended K
  | real x, real y => real (x + y)
  | infinite a, infinite b => if a = b then infinite a else nan
  | infinite a, real _ | real _, infinite a => infinite a
  | nan, _ | _, nan => nan

def neg : Extended K → Extended K
  | real x => real (-x)
  | infinite a => infinite !a
  | nan => nan

def mul : Extended K → Extended K → Extended K
  | real x, real y => real (x * y)
  | infinite a, infinite b => infinite (a != b)
  | infinite a, real x | real x, infinite a =>
    if x = 0 then nan else infinite (a != decide (x < 0))
  | nan, _ | _, nan => nan

def div : Extended K → Extended K → Extended K
  | real x, real y =>
    if y ≠ 0 then real (x / y) else if x = 0 then nan else infinite (decide (x < 0))
  | infinite a, real y => infinite (a != decide (y < 0))
  | real _, infinite _ => real 0
  | infinite _, infinite _ | nan, _ | _, nan => nan

instance : Arith (Extended K) where
  zero := real 0
  one := real 1
  add := add
  sub x y := add x (neg y)
  mul := mul
  div := div
  neg := neg
  intCast n := real n

def lt : Extended K → Extended K → Bool
  | real x, real y => decide (x < y)
  | infinite a, infinite b => a && !b
  | infinite a, real _ => a
  | real _, infinite b => !b
  | nan, _ | _, nan => false

def eq : Extended K → Extended K → Bool
  | real x, real y => decide (x = y)
  | infinite a, infinite b => a == b
  | _, _ => false

def maximum : Extended K → Extended K → Extended K
  | nan, y => y
  | x, nan => x
  | real x, real y => real (max x y)
  | infinite a, infinite b => infinite (a && b)
  | infinite a, real x | real x, infinite a => if a then real x else infinite false

def minimum : Extended K → Extended K → Extended K
  | nan, y => y
  | x, nan => x
  | real x, real y => real (min x y)
  | infinite a, infinite b => infinite (a || b)
  | infinite a, real x | real x, infinite a => if a then infinite true else real x

def constant [Functions K] : Constant → Extended K
  | .nan => nan
  | .infinity => infinite false
  | .negInfinity => infinite true
  | c => real (Functions.constant c)

/-- Only the exponential, the logarithm and what comes with the order have values at infinity here;
the others are undefined there. -/
def image [Functions K] : UnaryFn → Extended K → Extended K
  | .exp, infinite negative => if negative then real 0 else infinite false
  | .ln, infinite negative => if negative then nan else infinite false
  | .ln, real x =>
    if 0 < x then real (Functions.unary .ln x) else if x = 0 then infinite true else nan
  | .reciprocal, x => div (real 1) x
  | .abs, infinite _ => infinite false
  | .sign, infinite negative => if negative then real (-1) else real 1
  | f, real x => real (Functions.unary f x)
  | _, _ => nan

def image₂ [Functions K] : BinaryFn → Extended K → Extended K → Extended K
  | .max, x, y => maximum x y
  | .min, x, y => minimum x y
  | f, real x, real y => real (Functions.binary f x y)
  | _, _, _ => nan

def test : Test → Extended K → Bool
  | .nan, nan => true
  | .infinite, infinite _ => true
  | .finite, real _ => true
  | .normal, real x => decide (x ≠ 0)
  | .signPositive, real x => decide (0 ≤ x)
  | .signNegative, real x => decide (x < 0)
  | .signPositive, infinite negative => !negative
  | .signNegative, infinite negative => negative
  | _, _ => false

instance [Functions K] : Functions (Extended K) where
  lt := lt
  le x y := lt x y || eq x y
  eq := eq
  constant := constant
  unary := image
  binary := image₂
  powInt
    | real x, n => real (Functions.powInt x n)
    | _, _ => nan
  mulAdd x y z := x * y + z
  test := test

variable {x y : K} {a : Bool}

@[simp]
theorem real_zero : (0 : Extended K) = real 0 := rfl

@[simp]
theorem real_one : (1 : Extended K) = real 1 := rfl

@[simp]
theorem real_add (x y : K) : real x + real y = real (x + y) := rfl

@[simp]
theorem real_sub (x y : K) : real x - real y = real (x - y) :=
  congrArg real (sub_eq_add_neg x y).symm

theorem real_div (x : K) (h : y ≠ 0) : real x / real y = real (x / y) := if_pos h

variable [Functions K]

@[simp]
theorem exp_real (x : K) :
    Functions.unary .exp (real x) = real (Functions.unary .exp x) := rfl

@[simp]
theorem exp_negInfinity : Functions.unary .exp (infinite true : Extended K) = real 0 := rfl

theorem ln_real (h : 0 < x) : Functions.unary .ln (real x) = real (Functions.unary .ln x) :=
  if_pos h

@[simp]
theorem constant_negInfinity :
    (Functions.constant .negInfinity : Extended K) = infinite true := rfl

theorem isNan_iff (x : Extended K) : Functions.test .nan x = true ↔ x = nan := by
  cases x with
  | real | infinite => exact iff_of_false Bool.false_ne_true nofun
  | nan => exact iff_of_true rfl rfl

theorem le_real (x y : K) : Functions.le (real x) (real y) = true ↔ x ≤ y := by
  change (decide (x < y) || decide (x = y)) = true ↔ x ≤ y
  rw [Bool.or_eq_true, decide_eq_true_iff, decide_eq_true_iff, le_iff_lt_or_eq]

end Extended

end Autodiff
