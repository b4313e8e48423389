import Mathlib
import Autodiff.Proofs.Dual.Ring

set_option autoImplicit false

namespace Autodiff

/-- Rational expressions in `n` inputs with constants in `K`. -/
inductive Formula (K : Type) (n : ℕ) where
  | input (i : Fin n)
  | constant (c : K)
  | zero
  | one
  | add (a b : Formula K n)
  | sub (a b : Formula K n)
  | mul (a b : Formula K n)
  | div (a b : Formula K n)
  | neg (a : Formula K n)
  | reciprocal (a : Formula K n)
  | mulAdd (a b c : Formula K n)
  | powInt (a : Formula K n) (m : ℤ)

namespace Formula

variable {K : Type} {n : ℕ}

def eval {A : Type} [Arith A] [Functions A] (lift : K → A) (x : Fin n → A) : Formula K n → A
  | input i => x i
  | constant c => lift c
  | zero => 0
  | one => 1
  | add a b => a.eval lift x + b.eval lift x
  | sub a b => a.eval lift x - b.eval lift x
  | mul a b => a.eval lift x * b.eval lift x
  | div a b => a.eval lift x / b.eval lift x
  | neg a => -a.eval lift x
  | reciprocal a => Functions.unary .reciprocal (a.eval lift x)
  | mulAdd a b c => Functions.mulAdd (a.eval lift x) (b.eval lift x) (c.eval lift x)
  | powInt a m => Functions.powInt (a.eval lift x) m

/-- The formulas that the formula divides by. -/
def divisors : Formula K n → List (Formula K n)
  | input _ | constant _ | zero | one => []
  | add a b | sub a b | mul a b => a.divisors ++ b.divisors
  | div a b => b :: (a.divisors ++ b.divisors)
  | neg a => a.divisors
  | reciprocal a => a :: a.divisors
  | mulAdd a b c => a.divisors ++ (b.divisors ++ c.divisors)
  | powInt a m => if m < 0 then a :: a.divisors else a.divisors

def exponents : Formula K n → List ℤ
  | input _ | constant _ | zero | one => []
  | add a b | sub a b | mul a b | div a b => a.exponents ++ b.exponents
  | neg a | reciprocal a => a.exponents
  | mulAdd a b c => a.exponents ++ (b.exponents ++ c.exponents)
  | powInt a m => m :: a.exponents

def run [Arith K] [Functions K] {k : ℕ} (x : Fin n → Nested K k) :
    Formula K n → Except Fault (Nested K k)
  | input i => return x i
  | constant c => return Nested.constant c
  | zero => return 0
  | one => return 1
  | add a b => return (← a.run x) + (← b.run x)
  | sub a b => return (← a.run x) - (← b.run x)
  | mul a b => return (← a.run x) * (← b.run x)
  | div a b => return (← a.run x) / (← b.run x)
  | neg a => return -(← a.run x)
  | reciprocal a => return Functions.unary .reciprocal (← a.run x)
  | mulAdd a b c => return Functions.mulAdd (← a.run x) (← b.run x) (← c.run x)
  | powInt a m => do Nested.powInt (← a.run x) m

theorem run_eq [Arith K] [Functions K] {k : ℕ} {x : Fin n → Nested K k} {e : Formula K n}
    (h : ∀ m ∈ e.exponents, Nested.exponentFits k m = true) :
    e.run x = .ok (e.eval Nested.constant x) := by
  induction e with
  | input i => rfl
  | constant c => rfl
  | zero => rfl
  | one => rfl
  | add a b iha ihb | sub a b iha ihb | mul a b iha ihb | div a b iha ihb =>
    obtain ⟨ha, hb⟩ := List.forall_mem_append.mp h
    rw [run, iha ha, ihb hb]
    rfl
  | neg a iha | reciprocal a iha =>
    rw [run, iha h]
    rfl
  | mulAdd a b c iha ihb ihc =>
    obtain ⟨ha, hbc⟩ := List.forall_mem_append.mp h
    obtain ⟨hb, hc⟩ := List.forall_mem_append.mp hbc
    rw [run, iha ha, ihb hb, ihc hc]
    rfl
  | powInt a m iha =>
    obtain ⟨hm, ha⟩ := List.forall_mem_cons.mp h
    rw [run, iha ha]
    exact if_pos hm

def DefinedAt {A : Type} [Arith A] [Functions A] (lift : K → A) (x : Fin n → A)
    (e : Formula K n) : Prop :=
  ∀ b ∈ e.divisors, ∃ z, b.eval lift x * z = 1

section Derivative

variable [IntCast K]

def derivative (i : Fin n) : Formula K n → Formula K n
  | input j => if j = i then one else zero
  | constant _ | zero | one => zero
  | add a b => add (a.derivative i) (b.derivative i)
  | sub a b => sub (a.derivative i) (b.derivative i)
  | mul a b => add (mul (a.derivative i) b) (mul a (b.derivative i))
  | div a b => div (sub (mul (a.derivative i) b) (mul a (b.derivative i))) (mul b b)
  | neg a => neg (a.derivative i)
  | reciprocal a => neg (div (a.derivative i) (mul a a))
  | mulAdd a b c =>
    add (add (mul (a.derivative i) b) (mul a (b.derivative i))) (c.derivative i)
  | powInt a m =>
    if m = 0 then zero else mul (mul (constant (m : K)) (powInt a (m - 1))) (a.derivative i)

variable {A : Type} [Arith A] [Functions A]

def slope (lift : K → A) (x t : Fin n → A) (e : Formula K n) : A :=
  ((List.finRange n).map fun i => (e.derivative i).eval lift x * t i).sum

variable {lift : K → A} {x t : Fin n → A}

omit [IntCast K] in
theorem definedAt_of_powInt {a : Formula K n} {m : ℤ} (h : (powInt a m).DefinedAt lift x) :
    a.DefinedAt lift x := by
  intro b hb
  refine h b ?_
  rw [divisors]
  split
  · exact List.mem_cons_of_mem a hb
  · exact hb

section Rules

attribute [local instance] RingLaws.commRing

variable [ExactArith A]

omit [IntCast K] in
theorem eval_div {a b : Formula K n} {z : A} (h : b.eval lift x * z = 1) :
    (div a b).eval lift x = a.eval lift x * z :=
  ExactArith.div _ _ _ h

omit [IntCast K] in
theorem eval_mul_self {b : Formula K n} {z : A} (h : b.eval lift x * z = 1) :
    (mul b b).eval lift x * (z * z) = 1 := by
  change b.eval lift x * b.eval lift x * (z * z) = 1
  linear_combination (b.eval lift x * z + 1) * h

theorem slope_eq_sum (e : Formula K n) :
    slope lift x t e = ∑ i, (e.derivative i).eval lift x * t i := by
  rw [slope, ← List.ofFn_eq_map, List.sum_ofFn]

theorem slope_combination (e a b : Formula K n) (p q : A)
    (h : ∀ i, (e.derivative i).eval lift x =
      p * (a.derivative i).eval lift x + q * (b.derivative i).eval lift x) :
    slope lift x t e = p * slope lift x t a + q * slope lift x t b := by
  simp only [slope_eq_sum, Finset.mul_sum]
  rw [← Finset.sum_add_distrib]
  refine Finset.sum_congr rfl fun i _ => ?_
  rw [h i]
  ring

theorem slope_multiple (e a : Formula K n) (p : A)
    (h : ∀ i, (e.derivative i).eval lift x = p * (a.derivative i).eval lift x) :
    slope lift x t e = p * slope lift x t a := by
  have hzero : ∀ i, (e.derivative i).eval lift x =
      p * (a.derivative i).eval lift x + 0 * (a.derivative i).eval lift x := by
    intro i
    rw [h i]
    ring
  rw [slope_combination e a a p 0 hzero]
  ring

theorem slope_input (j : Fin n) : slope lift x t (input j : Formula K n) = t j := by
  rw [slope_eq_sum]
  change ∑ i, (if j = i then one else zero : Formula K n).eval lift x * t i = t j
  rw [Finset.sum_eq_single_of_mem j (Finset.mem_univ j), if_pos rfl]
  · exact one_mul (t j)
  · intro i _ hij
    rw [if_neg (Ne.symm hij)]
    exact zero_mul _

theorem slope_eq_zero {e : Formula K n} (h : ∀ i, e.derivative i = zero) :
    slope lift x t e = 0 := by
  rw [slope_eq_sum]
  refine Finset.sum_eq_zero fun i _ => ?_
  rw [h i]
  exact zero_mul _

theorem slope_add (a b : Formula K n) :
    slope lift x t (add a b) = slope lift x t a + slope lift x t b := by
  have hrule : ∀ i, ((add a b).derivative i).eval lift x =
      1 * (a.derivative i).eval lift x + 1 * (b.derivative i).eval lift x := by
    intro i
    change (a.derivative i).eval lift x + (b.derivative i).eval lift x = _
    ring
  rw [slope_combination _ a b 1 1 hrule]
  ring

theorem slope_sub (a b : Formula K n) :
    slope lift x t (sub a b) = slope lift x t a - slope lift x t b := by
  have hrule : ∀ i, ((sub a b).derivative i).eval lift x =
      1 * (a.derivative i).eval lift x + -1 * (b.derivative i).eval lift x := by
    intro i
    change (a.derivative i).eval lift x - (b.derivative i).eval lift x = _
    ring
  rw [slope_combination _ a b 1 (-1) hrule]
  ring

theorem slope_mul (a b : Formula K n) :
    slope lift x t (mul a b) =
      slope lift x t a * b.eval lift x + a.eval lift x * slope lift x t b := by
  have hrule : ∀ i, ((mul a b).derivative i).eval lift x =
      b.eval lift x * (a.derivative i).eval lift x +
        a.eval lift x * (b.derivative i).eval lift x := by
    intro i
    change (a.derivative i).eval lift x * b.eval lift x +
      a.eval lift x * (b.derivative i).eval lift x = _
    ring
  rw [slope_combination _ a b _ _ hrule]
  ring

theorem slope_div (a : Formula K n) {b : Formula K n} {z : A} (h : b.eval lift x * z = 1) :
    slope lift x t (div a b) =
      (slope lift x t a - a.eval lift x * z * slope lift x t b) * z := by
  have hrule : ∀ i, ((div a b).derivative i).eval lift x =
      z * (a.derivative i).eval lift x +
        -(a.eval lift x * z * z) * (b.derivative i).eval lift x := by
    intro i
    refine (eval_div (eval_mul_self h)).trans ?_
    change ((a.derivative i).eval lift x * b.eval lift x -
      a.eval lift x * (b.derivative i).eval lift x) * (z * z) = _
    linear_combination ((a.derivative i).eval lift x * z) * h
  rw [slope_combination _ a b _ _ hrule]
  ring

theorem slope_neg (a : Formula K n) : slope lift x t (neg a) = -slope lift x t a := by
  have hrule : ∀ i, ((neg a).derivative i).eval lift x =
      -1 * (a.derivative i).eval lift x := by
    intro i
    change -(a.derivative i).eval lift x = _
    ring
  rw [slope_multiple _ a _ hrule]
  ring

theorem slope_reciprocal {a : Formula K n} {z : A} (h : a.eval lift x * z = 1) :
    slope lift x t (reciprocal a) = -z * z * slope lift x t a := by
  refine slope_multiple _ a _ fun i => ?_
  refine (congrArg Neg.neg (eval_div (eval_mul_self h))).trans ?_
  ring

theorem slope_mulAdd (a b c : Formula K n) :
    slope lift x t (mulAdd a b c) =
      slope lift x t a * b.eval lift x + a.eval lift x * slope lift x t b +
        slope lift x t c := by
  rw [← slope_mul, ← slope_add]
  rfl

theorem slope_powInt (hlift : ∀ m : ℤ, lift (m : K) = m) (a : Formula K n) {m : ℤ} (hm : m ≠ 0) :
    slope lift x t (powInt a m) =
      m * Functions.powInt (a.eval lift x) (m - 1) * slope lift x t a := by
  refine slope_multiple _ a _ fun i => ?_
  rw [derivative, if_neg hm, ← hlift]
  rfl

/-- A formula on dual numbers, in terms of the formula and its derivatives on the components. -/
theorem eval_dual (hlift : ∀ m : ℤ, lift (m : K) = m) (e : Formula K n)
    (h : e.DefinedAt lift x) :
    e.eval (fun c => Dual.constant (lift c)) (fun i => ⟨x i, t i⟩) =
      ⟨e.eval lift x, slope lift x t e⟩ := by
  induction e with
  | input j => exact Dual.ext rfl (slope_input j).symm
  | constant c => exact Dual.ext rfl (slope_eq_zero fun _ => rfl).symm
  | zero => exact Dual.ext rfl (slope_eq_zero fun _ => rfl).symm
  | one => exact Dual.ext rfl (slope_eq_zero fun _ => rfl).symm
  | add a b iha ihb =>
    obtain ⟨ha, hb⟩ := List.forall_mem_append.mp h
    rw [eval, iha ha, ihb hb, slope_add]
    rfl
  | sub a b iha ihb =>
    obtain ⟨ha, hb⟩ := List.forall_mem_append.mp h
    rw [eval, iha ha, ihb hb, slope_sub]
    rfl
  | mul a b iha ihb =>
    obtain ⟨ha, hb⟩ := List.forall_mem_append.mp h
    rw [eval, iha ha, ihb hb, slope_mul]
    rfl
  | div a b iha ihb =>
    obtain ⟨⟨z, hz⟩, hab⟩ := List.forall_mem_cons.mp h
    obtain ⟨ha, hb⟩ := List.forall_mem_append.mp hab
    have hdiv : ∀ y : A, y / b.eval lift x = y * z := fun y => ExactArith.div y _ z hz
    rw [eval, iha ha, ihb hb, slope_div a hz]
    refine Dual.ext rfl ?_
    rw [Dual.tangent_div, hdiv, hdiv]
  | neg a iha =>
    rw [eval, iha h, slope_neg]
    rfl
  | reciprocal a iha =>
    obtain ⟨⟨z, hz⟩, ha⟩ := List.forall_mem_cons.mp h
    rw [eval, iha ha, slope_reciprocal hz, ← ExactArith.reciprocal _ z hz]
    rfl
  | mulAdd a b c iha ihb ihc =>
    obtain ⟨ha, hbc⟩ := List.forall_mem_append.mp h
    obtain ⟨hb, hc⟩ := List.forall_mem_append.mp hbc
    rw [eval, iha ha, ihb hb, ihc hc, slope_mulAdd]
    rfl
  | powInt a m iha =>
    rw [eval, iha (definedAt_of_powInt h)]
    by_cases hm : m = 0
    · subst hm
      have hconst : ∀ i, (powInt a 0 : Formula K n).derivative i = zero := fun i => if_pos rfl
      exact (Dual.powInt_zero _).trans (Dual.ext rfl (slope_eq_zero hconst).symm)
    · rw [slope_powInt hlift a hm, Dual.powInt_eq _ hm]
      rfl

end Rules

section Domain

attribute [local instance] RingLaws.commRing

variable [ExactArith A]

theorem definedAt_derivative (i : Fin n) {e : Formula K n} (h : e.DefinedAt lift x) :
    (e.derivative i).DefinedAt lift x := by
  induction e with
  | input j =>
    change (if j = i then one else zero : Formula K n).DefinedAt lift x
    split <;> exact List.forall_mem_nil _
  | constant c => exact List.forall_mem_nil _
  | zero => exact List.forall_mem_nil _
  | one => exact List.forall_mem_nil _
  | add a b iha ihb =>
    obtain ⟨ha, hb⟩ := List.forall_mem_append.mp h
    exact List.forall_mem_append.mpr ⟨iha ha, ihb hb⟩
  | sub a b iha ihb =>
    obtain ⟨ha, hb⟩ := List.forall_mem_append.mp h
    exact List.forall_mem_append.mpr ⟨iha ha, ihb hb⟩
  | mul a b iha ihb =>
    obtain ⟨ha, hb⟩ := List.forall_mem_append.mp h
    exact List.forall_mem_append.mpr ⟨List.forall_mem_append.mpr ⟨iha ha, hb⟩,
      List.forall_mem_append.mpr ⟨ha, ihb hb⟩⟩
  | div a b iha ihb =>
    obtain ⟨⟨z, hz⟩, hab⟩ := List.forall_mem_cons.mp h
    obtain ⟨ha, hb⟩ := List.forall_mem_append.mp hab
    have hnum : ∀ c ∈ (sub (mul (a.derivative i) b) (mul a (b.derivative i))).divisors,
        ∃ z, c.eval lift x * z = 1 :=
      List.forall_mem_append.mpr ⟨List.forall_mem_append.mpr ⟨iha ha, hb⟩,
        List.forall_mem_append.mpr ⟨ha, ihb hb⟩⟩
    -- The new divisor is the square of the old one.
    exact List.forall_mem_cons.mpr ⟨⟨z * z, eval_mul_self hz⟩,
      List.forall_mem_append.mpr ⟨hnum, List.forall_mem_append.mpr ⟨hb, hb⟩⟩⟩
  | neg a iha => exact iha h
  | reciprocal a iha =>
    obtain ⟨⟨z, hz⟩, ha⟩ := List.forall_mem_cons.mp h
    exact List.forall_mem_cons.mpr ⟨⟨z * z, eval_mul_self hz⟩,
      List.forall_mem_append.mpr ⟨iha ha, List.forall_mem_append.mpr ⟨ha, ha⟩⟩⟩
  | mulAdd a b c iha ihb ihc =>
    obtain ⟨ha, hbc⟩ := List.forall_mem_append.mp h
    obtain ⟨hb, hc⟩ := List.forall_mem_append.mp hbc
    exact List.forall_mem_append.mpr ⟨List.forall_mem_append.mpr
      ⟨List.forall_mem_append.mpr ⟨iha ha, hb⟩, List.forall_mem_append.mpr ⟨ha, ihb hb⟩⟩, ihc hc⟩
  | powInt a m iha =>
    have ha : a.DefinedAt lift x := definedAt_of_powInt h
    rw [derivative]
    split
    · exact List.forall_mem_nil _
    · rename_i hm
      refine List.forall_mem_append.mpr ⟨?_, iha ha⟩
      intro b hb
      -- For a negative exponent the base is a divisor already.
      by_cases hneg : m < 0
      · have hmem : b ∈ (powInt a m).divisors := by
          rw [divisors, if_pos hneg]
          simpa [divisors, show m < 1 by omega] using hb
        exact h b hmem
      · have hmem : b ∈ a.divisors := by
          simpa [divisors, show ¬m < 1 by omega] using hb
        exact ha b hmem

theorem slope_along_one (e : Formula K 1) (x : Fin 1 → A) :
    slope lift x (fun _ => 1) e = (e.derivative 0).eval lift x := by
  rw [slope_eq_sum, Finset.univ_unique, Finset.sum_singleton]
  exact mul_one _

end Domain

end Derivative

theorem eval_value {A : Type} [Arith A] [Functions A] (lift : K → A) (x : Fin n → Dual A)
    (e : Formula K n) :
    (e.eval (fun c => Dual.constant (lift c)) x).value = e.eval lift fun i => (x i).value := by
  induction e with
  | input j => rfl
  | constant c => rfl
  | zero => rfl
  | one => rfl
  | add a b iha ihb => exact congrArg₂ (· + ·) iha ihb
  | sub a b iha ihb => exact congrArg₂ (· - ·) iha ihb
  | mul a b iha ihb => exact congrArg₂ (· * ·) iha ihb
  | div a b iha ihb => exact congrArg₂ (· / ·) iha ihb
  | neg a iha => exact congrArg Neg.neg iha
  | reciprocal a iha => exact congrArg (Functions.unary .reciprocal) iha
  | mulAdd a b c iha ihb ihc =>
    change Functions.mulAdd _ _ _ = Functions.mulAdd _ _ _
    rw [iha, ihb, ihc]
  | powInt a m iha => exact congrArg (Functions.powInt · m) iha

end Formula

namespace Nested

variable {K : Type} [Field K] [Functions K] {k n : ℕ}

omit [Functions K] in
theorem constant_intCast (m : ℤ) : (constant (m : K) : Nested K k) = m := by
  induction k with
  | zero => rfl
  | succ k ih => exact congrArg Dual.constant ih

theorem primal_eval (e : Formula K n) (x : Fin n → Nested K k) :
    (e.eval constant x).primal = e.eval (fun c => c) fun i => (x i).primal := by
  induction k with
  | zero => rfl
  | succ k ih =>
    exact (congrArg primal (e.eval_value (A := Nested K k) constant x)).trans (ih _)

theorem definedAt_iff {e : Formula K n} {x : Fin n → Nested K k} :
    e.DefinedAt constant x ↔ ∀ b ∈ e.divisors, (b.eval constant x).primal ≠ 0 :=
  forall₂_congr fun _ _ => exists_mul_eq_one_iff _

theorem exponentFits_iff {m : ℤ} :
    exponentFits k m = true ↔ m < 2 ^ 31 ∧ (0 ≤ m ∨ k - 2 ^ 31 ≤ m) := by
  induction k generalizing m with
  | zero =>
    have hmin : Int32.minValue.toInt = -2 ^ 31 := rfl
    have hmax : Int32.maxValue.toInt = 2 ^ 31 - 1 := rfl
    simp only [exponentFits, hmin, hmax, Bool.and_eq_true, decide_eq_true_eq]
    omega
  | succ k ih =>
    simp only [exponentFits, Bool.and_eq_true, Bool.or_eq_true, beq_iff_eq, ih]
    omega

end Nested

/-- Truncated Taylor arithmetic at depth `k + 1`. Numbers with a nonzero innermost value have an
inverse, and a formula without a zero divisor keeps its value and moves tangents by its formal
derivatives. -/
structure TaylorArithmetic (K : Type) [Field K] [Functions K] (k : ℕ) : Prop where
  ring : RingLaws (Nested K (k + 1))
  reciprocal : ∀ x : Nested K (k + 1), x.primal ≠ 0 → x * Functions.unary .reciprocal x = 1
  div : ∀ x y : Nested K (k + 1), y.primal ≠ 0 → x / y = x * Functions.unary .reciprocal y
  mulAdd : ∀ x y z : Nested K (k + 1), Functions.mulAdd x y z = x * y + z
  powInt : ∀ (x : Nested K (k + 1)) (m : ℕ), m < 2 ^ 31 →
    Nested.powInt x m = .ok (List.replicate m x).prod
  powInt_neg : ∀ (x : Nested K (k + 1)) (m : ℕ), x.primal ≠ 0 → m + (k + 1) ≤ 2 ^ 31 →
    ∃ y, Nested.powInt x (-m) = .ok y ∧ (List.replicate m x).prod * y = 1
  assign : ∀ (op : Nested K (k + 1) → Nested K (k + 1) → Nested K (k + 1))
    (x y : Nested K (k + 1)), ((Dual.assign op y).run x).2 = op x y
  eval : ∀ {n : ℕ} (e : Formula K n) (x t : Fin n → Nested K k),
    (∀ b ∈ e.divisors, (b.eval Nested.constant x).primal ≠ 0) →
    (∀ m ∈ e.exponents, m < 2 ^ 31 ∧ (0 ≤ m ∨ (k + 1 : ℕ) - 2 ^ 31 ≤ m)) →
    e.run (k := k + 1) (fun i => Dual.mk (x i) (t i)) =
      .ok (Dual.mk (e.eval Nested.constant x) (e.slope Nested.constant x t))

section Exact

variable {K : Type} [Field K] [Functions K] [ExactPowers K]

theorem taylorArithmetic (k : ℕ) : TaylorArithmetic K k where
  ring := inferInstance
  reciprocal _ h := Nested.mul_reciprocal h
  div x y h := ExactArith.div x y _ (Nested.mul_reciprocal h)
  mulAdd := ExactArith.mulAdd
  powInt x m hm := by
    have hfits : Nested.exponentFits (k + 1) m = true := Nested.exponentFits_iff.mpr (by omega)
    exact (if_pos hfits).trans (congrArg _ (ExactArith.powInt_natCast x m))
  powInt_neg x m h hm := by
    have hfits : Nested.exponentFits (k + 1) (-m) = true := Nested.exponentFits_iff.mpr (by omega)
    refine ⟨Functions.powInt x (-m), if_pos hfits, ?_⟩
    let _ := RingLaws.commRing (Nested K (k + 1))
    rw [ExactArith.powInt_neg x _ m (Nested.mul_reciprocal h), List.prod_replicate,
      List.prod_replicate, ← mul_pow, Nested.mul_reciprocal h, one_pow]
  assign _ _ _ := rfl
  eval e _ _ h hfits :=
    (e.run_eq fun m hm => Nested.exponentFits_iff.mpr (hfits m hm)).trans
      (congrArg _ (e.eval_dual Nested.constant_intCast (Nested.definedAt_iff.mpr h)))

/-- Nested dual numbers are truncated Taylor arithmetic at every depth, and the seed
`(x + ε) + δ` at depth two gives second derivatives. -/
theorem nested_taylor :
    (∀ k, TaylorArithmetic K k) ∧
      ∀ (e : Formula K 1) (x : K),
        (∀ b ∈ e.divisors, b.eval (fun c => c) (fun _ => x) ≠ 0) →
        (∀ m ∈ e.exponents, m < 2 ^ 31 ∧ (0 ≤ m ∨ 2 - 2 ^ 31 ≤ m)) →
        ∃ y : Dual (Dual K),
          e.run (k := 2) (fun _ => Dual.mk (Dual.mk x 1) (Dual.mk 1 0)) = .ok y ∧
            y.tangent.tangent =
              ((e.derivative 0).derivative 0).eval (fun c => c) fun _ => x := by
  refine ⟨taylorArithmetic, fun e x h hfits => ?_⟩
  let lift : K → Nested K 1 := Nested.constant
  let y : Fin 1 → Nested K 1 := fun _ => Dual.mk x 1
  have hdefined : ∀ b ∈ e.divisors, (b.eval lift y).primal ≠ 0 := by
    intro b hb
    rw [Nested.primal_eval]
    exact h b hb
  have hinner : e.DefinedAt (fun c => c) fun _ => x :=
    (Nested.definedAt_iff (k := 0)).mpr fun b hb => h b hb
  have hfirst : (e.derivative 0).eval lift y =
      Dual.mk ((e.derivative 0).eval (fun c => c) fun _ => x)
        ((e.derivative 0).slope (fun c => c) (fun _ => x) fun _ => 1) :=
    (e.derivative 0).eval_dual (fun _ => rfl) (Formula.definedAt_derivative 0 hinner)
  refine ⟨_, (taylorArithmetic 1).eval e y (fun _ => 1) hdefined hfits, ?_⟩
  dsimp only
  rw [e.slope_along_one y, hfirst]
  exact (e.derivative 0).slope_along_one fun _ => x

end Exact

def inverseSquare : Formula ℚ 1 := .powInt (.add (.input 0) .one) (-2)

theorem nested_taylor_inverseSquare :
    (∀ b ∈ inverseSquare.divisors, b.eval (fun c => c) (fun _ => 1) ≠ 0) ∧
      (∀ m ∈ inverseSquare.exponents, m < 2 ^ 31 ∧ (0 ≤ m ∨ 2 - 2 ^ 31 ≤ m)) ∧
      ∃ y : Dual (Dual ℚ),
        inverseSquare.run (k := 2) (fun _ => Dual.mk (Dual.mk 1 1) (Dual.mk 1 0)) = .ok y ∧
          y.tangent.tangent = 3 / 8 := by
  have hdivisor : ∀ b ∈ inverseSquare.divisors, b.eval (fun c => c) (fun _ => (1 : ℚ)) ≠ 0 := by
    intro b hb
    obtain rfl : b = .add (.input 0) .one := by simpa [inverseSquare, Formula.divisors] using hb
    decide +kernel
  have hexponent : ∀ m ∈ inverseSquare.exponents, m < 2 ^ 31 ∧ (0 ≤ m ∨ 2 - 2 ^ 31 ≤ m) := by
    intro m hm
    obtain rfl : m = -2 := by simpa [inverseSquare, Formula.exponents] using hm
    omega
  have hsecond : ((inverseSquare.derivative 0).derivative 0).eval (fun c => c)
      (fun _ => (1 : ℚ)) = 3 / 8 := by
    decide +kernel
  obtain ⟨y, hrun, hy⟩ := (nested_taylor (K := ℚ)).2 inverseSquare 1 hdivisor hexponent
  exact ⟨hdivisor, hexponent, y, hrun, hy.trans hsecond⟩

def movingOne : Nested ℚ 2 := Dual.mk (Dual.mk 1 1) (Dual.mk 1 0)

/-- The second derivative of a power takes the exponent lowered by two, which overflows. -/
theorem power_overflows :
    movingOne.primal ≠ 0 ∧ Int32.minValue.toInt < 1 - 2 ^ 31 ∧
      Nested.powInt movingOne (1 - 2 ^ 31) = .error .overflow := by
  have hprimal : movingOne.primal ≠ 0 := (one_ne_zero : (1 : ℚ) ≠ 0)
  refine ⟨hprimal, by decide, if_neg ?_⟩
  rw [Nested.exponentFits_iff]
  omega

end Autodiff
