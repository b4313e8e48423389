import Mathlib
import Autodiff.Dual.Nested
import Autodiff.Proofs.Number.Exact

set_option autoImplicit false

namespace Autodiff

/-- The operations form a commutative ring that holds the integers. -/
class RingLaws (A : Type) [Arith A] : Prop where
  add_assoc : ∀ x y z : A, x + y + z = x + (y + z)
  add_comm : ∀ x y : A, x + y = y + x
  zero_add : ∀ x : A, 0 + x = x
  neg_add_cancel : ∀ x : A, -x + x = 0
  sub_eq_add_neg : ∀ x y : A, x - y = x + -y
  mul_assoc : ∀ x y z : A, x * y * z = x * (y * z)
  mul_comm : ∀ x y : A, x * y = y * x
  one_mul : ∀ x : A, 1 * x = x
  mul_add : ∀ x y z : A, x * (y + z) = x * y + x * z
  intCast_one : ((1 : ℤ) : A) = 1
  intCast_add : ∀ m n : ℤ, ((m + n : ℤ) : A) = m + n

instance {F : Type} [Field F] : RingLaws F where
  add_assoc := add_assoc
  add_comm := add_comm
  zero_add := zero_add
  neg_add_cancel := neg_add_cancel
  sub_eq_add_neg := sub_eq_add_neg
  mul_assoc := mul_assoc
  mul_comm := mul_comm
  one_mul := one_mul
  mul_add := mul_add
  intCast_one := Int.cast_one
  intCast_add := Int.cast_add

namespace RingLaws

variable {A : Type} [Arith A] [RingLaws A]

theorem intCast_zero : ((0 : ℤ) : A) = 0 := by
  let _ := CommRing.ofMinimalAxioms (add_assoc (A := A)) zero_add neg_add_cancel mul_assoc mul_comm
    one_mul mul_add
  exact left_eq_add.mp ((congrArg _ (Int.zero_add 0)).symm.trans (intCast_add (A := A) 0 0))

theorem intCast_neg (n : ℤ) : ((-n : ℤ) : A) = -(n : A) := by
  let _ := CommRing.ofMinimalAxioms (add_assoc (A := A)) zero_add neg_add_cancel mul_assoc mul_comm
    one_mul mul_add
  refine eq_neg_of_add_eq_zero_left ?_
  exact (intCast_add (-n) n).symm.trans ((congrArg _ (Int.add_left_neg n)).trans intCast_zero)

abbrev commRing (A : Type) [Arith A] [RingLaws A] : CommRing A where
  __ := CommRing.ofMinimalAxioms (add_assoc (A := A)) zero_add neg_add_cancel mul_assoc mul_comm
    one_mul mul_add
  toSub := Arith.toSub
  sub_eq_add_neg := sub_eq_add_neg
  zsmul := zsmulRec
  natCast n := ((n : ℤ) : A)
  natCast_zero := intCast_zero
  natCast_succ n := by
    rw [Nat.cast_succ, intCast_add, intCast_one]
  toIntCast := Arith.toIntCast
  intCast_ofNat _ := rfl
  intCast_negSucc n := intCast_neg (n + 1)

end RingLaws

/-- Division, powers and fused products agree with the ring wherever the inverses they need are
there. -/
class ExactArith (A : Type) [Arith A] [Functions A] : Prop extends RingLaws A where
  reciprocal : ∀ x y : A, x * y = 1 → Functions.unary .reciprocal x = y
  div : ∀ x y z : A, y * z = 1 → x / y = x * z
  mulAdd : ∀ x y z : A, Functions.mulAdd x y z = x * y + z
  powInt_natCast : ∀ (x : A) (n : ℕ), Functions.powInt x n = (List.replicate n x).prod
  powInt_neg : ∀ (x y : A) (n : ℕ), x * y = 1 →
    Functions.powInt x (-n) = (List.replicate n y).prod

instance {F : Type} [Field F] [Functions F] [ExactPowers F] :
    ExactArith F where
  reciprocal x y h := by
    rw [ExactField.reciprocal, inv_eq_of_mul_eq_one_right h]
  div x y z h := by
    rw [div_eq_mul_inv, inv_eq_of_mul_eq_one_right h]
  mulAdd := ExactPowers.mulAdd
  powInt_natCast x n := by
    rw [ExactPowers.powInt x n (.inr n.cast_nonneg), zpow_natCast, List.prod_replicate]
  powInt_neg x y n h := by
    have hx : x ≠ 0 := left_ne_zero_of_mul_eq_one h
    rw [ExactPowers.powInt x _ (.inl hx), zpow_neg, zpow_natCast, ← inv_pow,
      inv_eq_of_mul_eq_one_right h, List.prod_replicate]

attribute [local instance] RingLaws.commRing

namespace Dual

variable {A : Type} [Arith A]

instance instRingLaws [RingLaws A] : RingLaws (Dual A) where
  add_assoc _ _ _ := Dual.ext (add_assoc _ _ _) (add_assoc _ _ _)
  add_comm _ _ := Dual.ext (add_comm _ _) (add_comm _ _)
  zero_add _ := Dual.ext (zero_add _) (zero_add _)
  neg_add_cancel _ := Dual.ext (neg_add_cancel _) (neg_add_cancel _)
  sub_eq_add_neg _ _ := Dual.ext (sub_eq_add_neg _ _) (sub_eq_add_neg _ _)
  mul_assoc x y z := by
    ext
    · exact mul_assoc _ _ _
    · simp only [tangent_mul, value_mul]
      ring
  mul_comm x y := by
    ext
    · exact mul_comm _ _
    · simp only [tangent_mul]
      ring
  one_mul x := by
    ext
    · exact one_mul _
    · simp only [tangent_mul, tangent_one, value_one]
      ring
  mul_add x y z := by
    ext
    · exact mul_add _ _ _
    · simp only [tangent_mul, tangent_add, value_add]
      ring
  intCast_one := Dual.ext RingLaws.intCast_one rfl
  intCast_add _ _ := Dual.ext (RingLaws.intCast_add _ _) (zero_add _).symm

section Power

variable [RingLaws A]

@[simp]
theorem value_pow (x : Dual A) (n : ℕ) : (x ^ n).value = x.value ^ n := by
  induction n with
  | zero => rfl
  | succ n ih => rw [pow_succ, value_mul, ih, pow_succ]

theorem tangent_pow_succ (x : Dual A) (n : ℕ) :
    (x ^ (n + 1)).tangent = ((n + 1 : ℕ) : A) * x.value ^ n * x.tangent := by
  induction n with
  | zero => simp
  | succ n ih =>
    rw [pow_succ, tangent_mul, ih, value_pow]
    push_cast
    ring

theorem tangent_eq_of_mul_eq_one {x y : Dual A} (h : x * y = 1) :
    y.tangent = -(y.value * y.value * x.tangent) := by
  have hvalue : x.value * y.value = 1 := congrArg value h
  have htangent : x.tangent * y.value + x.value * y.tangent = 0 := congrArg tangent h
  linear_combination y.value * htangent - y.tangent * hvalue

theorem exists_mul_eq_one_iff (x : Dual A) : (∃ y, x * y = 1) ↔ ∃ y, x.value * y = 1 := by
  constructor
  · rintro ⟨y, h⟩
    exact ⟨y.value, congrArg value h⟩
  · rintro ⟨y, h⟩
    refine ⟨⟨y, -(y * y * x.tangent)⟩, Dual.ext h ?_⟩
    simp only [tangent_mul, tangent_one]
    linear_combination (-(y * x.tangent)) * h

end Power

variable [Functions A]

theorem powInt_eq (x : Dual A) {n : ℤ} (hn : n ≠ 0) :
    Functions.powInt x n =
      ⟨Functions.powInt x.value n, (n : A) * Functions.powInt x.value (n - 1) * x.tangent⟩ := by
  change x.map _ _ = _
  rw [if_neg hn]
  rfl

theorem powInt_zero [RingLaws A] (x : Dual A) :
    Functions.powInt x 0 = ⟨Functions.powInt x.value 0, 0⟩ :=
  Dual.ext rfl (zero_mul x.tangent)

theorem mul_reciprocal [RingLaws A] {x : Dual A}
    (h : x.value * Functions.unary .reciprocal x.value = 1) :
    x * Functions.unary .reciprocal x = 1 := by
  refine Dual.ext h ?_
  change x.tangent * Functions.unary .reciprocal x.value + x.value *
    (-Functions.unary .reciprocal x.value * Functions.unary .reciprocal x.value * x.tangent) = 0
  linear_combination (-(x.tangent * Functions.unary .reciprocal x.value)) * h

instance instExactArith [ExactArith A] : ExactArith (Dual A) where
  reciprocal x y h := by
    have hvalue : x.value * Functions.unary .reciprocal x.value = 1 := by
      rw [ExactArith.reciprocal x.value y.value (congrArg value h)]
      exact congrArg value h
    exact (left_inv_eq_right_inv ((mul_comm y x).trans h) (mul_reciprocal hvalue)).symm
  div x y z h := by
    have hvalue : ∀ a : A, a / y.value = a * z.value :=
      fun a => ExactArith.div a _ _ (congrArg value h)
    ext
    · exact hvalue x.value
    · rw [tangent_div, hvalue, hvalue, tangent_mul, tangent_eq_of_mul_eq_one h]
      ring
  mulAdd x y z := Dual.ext (ExactArith.mulAdd _ _ _) rfl
  powInt_natCast x n := by
    rw [List.prod_replicate]
    cases n with
    | zero => exact (powInt_zero x).trans (Dual.ext (ExactArith.powInt_natCast x.value 0) rfl)
    | succ n =>
      have hvalue : ∀ m : ℕ, Functions.powInt x.value m = x.value ^ m := fun m => by
        rw [ExactArith.powInt_natCast, List.prod_replicate]
      have hpred : ((n + 1 : ℕ) : ℤ) - 1 = n := by omega
      rw [powInt_eq x (by omega), hpred, hvalue, hvalue]
      exact Dual.ext (value_pow x _).symm (tangent_pow_succ x n).symm
  powInt_neg x y n h := by
    rw [List.prod_replicate]
    cases n with
    | zero => exact (powInt_zero x).trans (Dual.ext (ExactArith.powInt_natCast x.value 0) rfl)
    | succ n =>
      have hvalue : ∀ m : ℕ, Functions.powInt x.value (-m) = y.value ^ m := fun m => by
        rw [ExactArith.powInt_neg x.value y.value m (congrArg value h), List.prod_replicate]
      have hpred : -((n + 1 : ℕ) : ℤ) - 1 = -((n + 2 : ℕ) : ℤ) := by omega
      rw [powInt_eq x (by omega), hpred, hvalue, hvalue]
      refine Dual.ext (value_pow y _).symm ?_
      rw [tangent_pow_succ, tangent_eq_of_mul_eq_one h]
      have hcast : ((-((n + 1 : ℕ) : ℤ) : ℤ) : A) = -((n + 1 : ℕ) : A) := RingLaws.intCast_neg _
      change ((-((n + 1 : ℕ) : ℤ) : ℤ) : A) * _ * _ = _
      rw [hcast]
      ring

end Dual

namespace Nested

variable {A : Type} [Arith A]

instance instRingLaws [RingLaws A] : (k : ℕ) → RingLaws (Nested A k)
  | 0 => inferInstanceAs (RingLaws A)
  | k + 1 =>
    have := instRingLaws k
    inferInstanceAs (RingLaws (Dual (Nested A k)))

instance instExactArith [Functions A] [ExactArith A] : (k : ℕ) → ExactArith (Nested A k)
  | 0 => inferInstanceAs (ExactArith A)
  | k + 1 =>
    have := instExactArith k
    inferInstanceAs (ExactArith (Dual (Nested A k)))

theorem exists_mul_eq_one_iff {F : Type} [Field F] {k : ℕ} (x : Nested F k) :
    (∃ y, x * y = 1) ↔ x.primal ≠ 0 := by
  induction k with
  | zero =>
    constructor
    · rintro ⟨y, h⟩
      exact left_ne_zero_of_mul_eq_one (a := x.primal) h
    · intro h
      have hinv : (x.primal : F) * x.primal⁻¹ = 1 := mul_inv_cancel₀ h
      exact ⟨(x.primal⁻¹ : F), hinv⟩
  | succ k ih => exact (Dual.exists_mul_eq_one_iff (A := Nested F k) x).trans (ih (Dual.value x))

theorem mul_reciprocal {F : Type} [Field F] [Functions F] [ExactField F] {k : ℕ} {x : Nested F k}
    (h : x.primal ≠ 0) : x * Functions.unary .reciprocal x = 1 := by
  induction k with
  | zero =>
    have hinv : (x.primal : F) * Functions.unary .reciprocal x.primal = 1 := by
      rw [ExactField.reciprocal, mul_inv_cancel₀ h]
    exact hinv
  | succ k ih => exact Dual.mul_reciprocal (A := Nested F k) (ih h)

end Nested

end Autodiff
