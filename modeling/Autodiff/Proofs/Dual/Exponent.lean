import Mathlib
import Autodiff.Proofs.Dual.Ring
import Autodiff.Proofs.Number.Real

/-!
# Powers with dual exponents

On numbers with `x ^ p = exp (p ln x)` a power of dual numbers differentiates by the same formula,
but it leaves out a tangent of the exponent that equals zero, and equality looks at innermost values
alone. Deeper down a tangent with innermost value zero is therefore left out with all that it
carries. `ExponentKept` says when this loses nothing, and exactly then the power is `exp (p ln x)`.
-/

set_option autoImplicit false

namespace Autodiff

namespace Dual

attribute [local instance] RingLaws.commRing

variable {A : Type} [Arith A] [Functions A]

theorem exp_eq (x : Dual A) :
    Functions.unary .exp x =
      ⟨Functions.unary .exp x.value, Functions.unary .exp x.value * x.tangent⟩ :=
  rfl

theorem ln_eq (x : Dual A) :
    Functions.unary .ln x =
      ⟨Functions.unary .ln x.value, Functions.unary .reciprocal x.value * x.tangent⟩ :=
  rfl

theorem pow_eq (x p : Dual A) :
    Functions.binary .pow x p =
      ⟨Functions.binary .pow x.value p.value,
        if Functions.eq p.tangent 0 then
          p.value * Functions.binary .pow x.value (p.value - 1) * x.tangent
        else
          p.value * Functions.binary .pow x.value (p.value - 1) * x.tangent +
            Functions.binary .pow x.value p.value * Functions.unary .ln x.value * p.tangent⟩ :=
  rfl

variable [RingLaws A] {x p : Dual A}

theorem exp_add
    (h : ∀ u v : A, Functions.unary .exp (u + v) =
      Functions.unary .exp u * Functions.unary .exp v) (x y : Dual A) :
    Functions.unary .exp (x + y) = Functions.unary .exp x * Functions.unary .exp y := by
  rw [exp_eq, exp_eq, exp_eq]
  refine Dual.ext (h _ _) ?_
  simp only [value_add, tangent_add, tangent_mul, h]
  ring

theorem exp_ln (hinv : x.value * Functions.unary .reciprocal x.value = 1)
    (h : Functions.unary .exp (Functions.unary .ln x.value) = x.value) :
    Functions.unary .exp (Functions.unary .ln x) = x := by
  rw [ln_eq, exp_eq]
  refine Dual.ext h ?_
  simp only [h]
  linear_combination x.tangent * hinv

/-- If the components have the powers they should, the dual power differs from `exp (p ln x)` by
what it leaves out of the tangent. -/
theorem pow_eq_exp_iff_tangent {e : A} (hunit : ∃ z, e * z = 1)
    (hexp : Functions.unary .exp (p.value * Functions.unary .ln x.value) = e)
    (hpow : Functions.binary .pow x.value p.value = e)
    (hpred : Functions.binary .pow x.value (p.value - 1) =
      e * Functions.unary .reciprocal x.value) :
    Functions.binary .pow x p = Functions.unary .exp (p * Functions.unary .ln x) ↔
      (Functions.eq p.tangent 0 = true → Functions.unary .ln x.value * p.tangent = 0) := by
  have htangent : (Functions.unary .exp (p * Functions.unary .ln x)).tangent =
      p.value * (e * Functions.unary .reciprocal x.value) * x.tangent +
        e * Functions.unary .ln x.value * p.tangent := by
    rw [ln_eq, exp_eq]
    simp only [value_mul, tangent_mul, hexp]
    ring
  have hvalue : (Functions.unary .exp (p * Functions.unary .ln x)).value = e := hexp
  have hcancel : e * Functions.unary .ln x.value * p.tangent = 0 ↔
      Functions.unary .ln x.value * p.tangent = 0 := by
    obtain ⟨z, hz⟩ := hunit
    refine ⟨fun h => ?_, fun h => by rw [mul_assoc, h, mul_zero]⟩
    linear_combination z * h - (Functions.unary .ln x.value * p.tangent) * hz
  rw [Dual.ext_iff, hvalue, htangent, pow_eq, hpow, hpred]
  refine (and_iff_right rfl).trans ?_
  dsimp only
  by_cases hzero : Functions.eq p.tangent 0 = true
  · rw [if_pos hzero, left_eq_add, hcancel]
    exact ⟨fun h _ => h, fun h => h hzero⟩
  · rw [if_neg hzero]
    exact iff_of_true rfl fun h => absurd h hzero

end Dual

namespace Nested

open Functions (unary binary)

variable {F : Type} [Field F] [LinearOrder F] [Functions F] {k : ℕ}

/-- At no level does the exponent have a tangent with innermost value zero that, times the logarithm
of the base, is not zero. -/
def ExponentKept : {k : ℕ} → Nested F k → Nested F k → Prop
  | 0, _, _ => True
  | k + 1, x, p =>
    ExponentKept (Dual.value x) (Dual.value p) ∧
      (primal (Dual.tangent p) = 0 →
        unary .ln (Dual.value x) * Dual.tangent p = (0 : Nested F k))

omit [LinearOrder F] in
theorem exponentKept_sub_one {x p : Nested F k} :
    ExponentKept x (p - 1) ↔ ExponentKept x p := by
  induction k with
  | zero => rfl
  | succ k ih =>
    have htangent : Dual.tangent (p - 1) = Dual.tangent p := by
      let _ := RingLaws.commRing (Nested F k)
      exact sub_zero (Dual.tangent p)
    exact and_congr ih (iff_of_eq (congrArg (fun t : Nested F k =>
      primal t = 0 → unary .ln (Dual.value x) * t = 0) htangent))

variable [ExactExponential F]

theorem eq_zero_iff (x : Nested F k) : Functions.eq x 0 = true ↔ x.primal = 0 := by
  induction k with
  | zero => exact ExactField.eq_iff (x.primal : F) 0
  | succ k ih => exact ih (Dual.value x)

theorem exp_add (x y : Nested F k) :
    unary .exp (x + y) = unary .exp x * unary .exp y := by
  induction k with
  | zero => exact ExactExponential.exp_add (F := F) x y
  | succ k ih => exact Dual.exp_add (A := Nested F k) ih x y

theorem exp_ln {x : Nested F k} (h : 0 < x.primal) : unary .exp (unary .ln x) = x := by
  induction k with
  | zero => exact ExactExponential.exp_ln (F := F) x h
  | succ k ih => exact Dual.exp_ln (A := Nested F k) (mul_reciprocal h.ne') (ih h)

theorem exp_invertible [IsStrictOrderedRing F] (x : Nested F k) :
    ∃ y, unary .exp x * y = 1 := by
  let _ := RingLaws.commRing (Nested F k)
  have hprimal : ((1 : Nested F k)).primal = 1 := by
    induction k with
    | zero => rfl
    | succ k ih => exact ih 1
  have hone : unary .exp (unary .ln (1 : Nested F k)) = 1 := exp_ln (hprimal ▸ zero_lt_one)
  have hzero : unary .exp (0 : Nested F k) = 1 := by
    have hsum := exp_add (unary .ln (1 : Nested F k)) 0
    rw [add_zero, hone, one_mul] at hsum
    exact hsum.symm
  refine ⟨unary .exp (-x), ?_⟩
  rw [← exp_add, add_neg_cancel, hzero]

theorem exp_pred {x : Nested F k} (p : Nested F k) (h : 0 < x.primal) :
    unary .exp ((p - 1) * unary .ln x) =
      unary .exp (p * unary .ln x) * unary .reciprocal x := by
  let _ := RingLaws.commRing (Nested F k)
  have hsplit : p * unary .ln x = (p - 1) * unary .ln x + unary .ln x := by ring
  rw [hsplit, exp_add, exp_ln h, mul_assoc, mul_reciprocal h.ne', mul_one]

/-- The power is `exp (p ln x)` exactly if no tangent of the exponent is lost. -/
theorem pow_eq_exp_iff [IsStrictOrderedRing F] (x p : Nested F k) (h : 0 < x.primal) :
    binary .pow x p = unary .exp (p * unary .ln x) ↔ ExponentKept x p := by
  induction k with
  | zero => exact iff_of_true (ExactExponential.pow (F := F) x p h) trivial
  | succ k ih =>
    have hlevel (hkept : ExponentKept (Dual.value x) (Dual.value p)) :=
      Dual.pow_eq_exp_iff_tangent (A := Nested F k) (x := x) (p := p) (exp_invertible _) rfl
        ((ih _ _ h).mpr hkept)
        (((ih _ _ h).mpr (exponentKept_sub_one.mpr hkept)).trans (exp_pred _ h))
    constructor
    · intro hpow
      have hkept : ExponentKept (Dual.value x) (Dual.value p) :=
        (ih _ _ h).mp (congrArg Dual.value hpow)
      exact ⟨hkept, fun hzero => (hlevel hkept).mp hpow ((eq_zero_iff _).mpr hzero)⟩
    · rintro ⟨hkept, hlast⟩
      exact (hlevel hkept).mpr fun hzero => hlast ((eq_zero_iff _).mp hzero)

noncomputable section

def movingBase : Dual (Dual ℝ) := ⟨⟨3, 1⟩, ⟨4, 5⟩⟩

def movingExponent : Dual (Dual ℝ) := ⟨⟨5, 0⟩, ⟨1, 7⟩⟩

theorem pow_eq_exp_iff_moving :
    0 < primal (k := 2) movingBase ∧
      binary .pow movingBase movingExponent =
        unary .exp (movingExponent * unary .ln movingBase) := by
  have hpos : 0 < primal (k := 2) movingBase := (three_pos : (0 : ℝ) < 3)
  have hinner : ExponentKept (k := 1) movingBase.value movingExponent.value :=
    ⟨trivial, fun _ => mul_zero (Real.log 3)⟩
  have houter : primal (k := 1) movingExponent.tangent ≠ 0 := (one_ne_zero : (1 : ℝ) ≠ 0)
  exact ⟨hpos, (pow_eq_exp_iff (k := 2) movingBase movingExponent hpos).mpr
    ⟨hinner, fun h => absurd h houter⟩⟩

def steadyBase : Dual (Dual ℝ) := (2 : ℤ)

def mixedExponent : Dual (Dual ℝ) := ⟨⟨1, 0⟩, ⟨0, 1⟩⟩

/-- The mixed derivative of `2 ^ (1 + εδ)` is lost. -/
theorem mixed_exponent_dropped :
    0 < primal (k := 2) steadyBase ∧
      (binary .pow steadyBase mixedExponent).tangent.tangent = 0 ∧
      (unary .exp (mixedExponent * unary .ln steadyBase)).tangent.tangent = 2 * Real.log 2 ∧
      binary .pow steadyBase mixedExponent ≠
        unary .exp (mixedExponent * unary .ln steadyBase) := by
  have hpos : 0 < primal (k := 2) steadyBase := Int.cast_pos.mpr two_pos
  have hpow : (binary .pow steadyBase mixedExponent).tangent.tangent = 0 := by
    have hzero : Functions.eq mixedExponent.tangent 0 = true := decide_eq_true (rfl : (0 : ℝ) = 0)
    rw [Dual.pow_eq, if_pos hzero]
    simp [steadyBase]
  have hexp : (unary .exp (mixedExponent * unary .ln steadyBase)).tangent.tangent =
      2 * Real.log 2 := by
    have htwo : unary .exp (unary .ln (2 : ℝ)) = 2 := Real.exp_log two_pos
    have htangent : (unary .exp (mixedExponent * unary .ln steadyBase)).tangent.tangent =
        unary .exp (unary .ln (2 : ℝ)) * unary .ln 2 := by
      simp [Dual.exp_eq, Dual.ln_eq, steadyBase, mixedExponent]
    rw [htangent, htwo]
    rfl
  refine ⟨hpos, hpow, hexp, fun heq => ?_⟩
  have hzero : 2 * Real.log 2 = 0 := by
    rw [← hexp, ← heq, hpow]
  have hlog : 0 < Real.log 2 := Real.log_pos one_lt_two
  linarith

end

end Nested

end Autodiff
