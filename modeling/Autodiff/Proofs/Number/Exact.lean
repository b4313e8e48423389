import Mathlib
import Autodiff.Number.Functions

set_option autoImplicit false

namespace Autodiff

instance (priority := 10) Arith.ofCommRing {F : Type} [CommRing F] [Div F] : Arith F where

instance (priority := low) Arith.ofField {F : Type} [Field F] : Arith F where

/-- Equality decides. -/
class ExactRing (F : Type) [CommRing F] [Functions F] : Prop where
  eq_iff : ∀ x y : F, Functions.eq x y = true ↔ x = y

class ExactField (F : Type) [Field F] [Functions F] : Prop where
  eq_iff : ∀ x y : F, Functions.eq x y = true ↔ x = y
  reciprocal : ∀ x : F, Functions.unary .reciprocal x = x⁻¹

instance (priority := low) ExactField.toExactRing {F : Type} [Field F] [Functions F]
    [ExactField F] : ExactRing F where
  eq_iff := ExactField.eq_iff

/-- Integer powers are exact where they are defined, and so is the fused product. -/
class ExactPowers (F : Type) [Field F] [Functions F] : Prop extends ExactField F where
  powInt : ∀ (x : F) (n : ℤ), x ≠ 0 ∨ 0 ≤ n → Functions.powInt x n = x ^ n
  mulAdd : ∀ x y z : F, Functions.mulAdd x y z = x * y + z

/-- Comparisons decide the order, magnitudes are exact and every number is finite. -/
class ExactOrderedField (F : Type) [Field F] [LinearOrder F] [Functions F] : Prop
    extends ExactField F where
  lt_iff : ∀ x y : F, Functions.lt x y = true ↔ x < y
  le_iff : ∀ x y : F, Functions.le x y = true ↔ x ≤ y
  abs : ∀ x : F, Functions.unary .abs x = |x|
  finite : ∀ x : F, Functions.test .finite x = true
  notNan : ∀ x : F, Functions.test .nan x = false

instance : Functions ℚ where
  lt x y := decide (x < y)
  le x y := decide (x ≤ y)
  eq x y := decide (x = y)
  constant _ := 0
  unary f x := match f with
    | .reciprocal => x⁻¹
    | .abs => |x|
    | _ => 0
  binary _ _ _ := 0
  powInt x n := x ^ n
  mulAdd x y z := x * y + z
  test t x := match t with
    | .nan | .infinite => false
    | .finite => true
    | .normal => decide (x ≠ 0)
    | .signPositive => decide (0 ≤ x)
    | .signNegative => decide (x < 0)

instance : ExactOrderedField ℚ where
  eq_iff _ _ := decide_eq_true_iff
  reciprocal _ := rfl
  lt_iff _ _ := decide_eq_true_iff
  le_iff _ _ := decide_eq_true_iff
  abs _ := rfl
  finite _ := rfl
  notNan _ := rfl

instance : ExactPowers ℚ where
  powInt _ _ _ := rfl
  mulAdd _ _ _ := rfl

variable {F : Type} [Field F]

def dot (a b : List F) : F := (List.zipWith (· * ·) a b).sum

@[simp]
theorem dot_nil (b : List F) : dot [] b = 0 := rfl

@[simp]
theorem dot_cons (x y : F) (a b : List F) : dot (x :: a) (y :: b) = x * y + dot a b :=
  List.sum_cons

theorem foldl_products {α : Type} (g : α → F) (a : List F) (b : List α) (c : F) :
    (a.zip b).foldl (fun acc (p, d) => acc + p * g d) c = c + dot a (b.map g) := by
  induction a generalizing b c with
  | nil => exact (add_zero c).symm
  | cons x a ih =>
    cases b with
    | nil => exact (add_zero c).symm
    | cons y b =>
      rw [List.zip_cons_cons, List.foldl_cons, ih, List.map_cons, dot_cons]
      ring

theorem dot_eq_sum (a b : List F) :
    dot a b = ∑ j ∈ Finset.range a.length, a.getD j 0 * b.getD j 0 := by
  induction a generalizing b with
  | nil => rfl
  | cons x a ih =>
    rw [List.length_cons, Finset.sum_range_succ']
    cases b with
    | nil => simp [dot]
    | cons y b =>
      simp only [dot_cons, ih, List.getD_cons_succ, List.getD_cons_zero]
      ring

theorem dot_eq_zero (a : List F) {b : List F} (h : ∀ y ∈ b, y = 0) : dot a b = 0 := by
  induction a generalizing b with
  | nil => rfl
  | cons x a ih =>
    cases b with
    | nil => rfl
    | cons y b =>
      rw [dot_cons, ih fun z hz => h z (List.mem_cons_of_mem y hz), h y List.mem_cons_self]
      ring

theorem dot_replicate (n : ℕ) (x y : F) :
    dot (.replicate n x) (.replicate n y) = n * (x * y) := by
  induction n with
  | zero => simp
  | succ n ih =>
    rw [List.replicate_succ, List.replicate_succ, dot_cons, ih]
    push_cast
    ring

end Autodiff
