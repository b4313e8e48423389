import Mathlib
import Autodiff.Proofs.Number.Exact

/-!
# Positive definite blocks

The leading block of size `n` of a table of entries, its quadratic form, and what a decomposition
`L D Lᵀ` of the block says about it. Since `Lᵀ` can be solved for every right-hand side, the block
is positive definite exactly when every entry of `D` is positive.
-/

set_option autoImplicit false

namespace Autodiff

open Finset (range sum_range_succ mem_range)

section Field

variable {F : Type} [Field F]

def quadratic (n : ℕ) (a : ℕ → ℕ → F) (x : ℕ → F) : F :=
  ∑ i ∈ range n, ∑ j ∈ range n, x i * a i j * x j

structure UnitLower (l : ℕ → ℕ → F) : Prop where
  diagonal : ∀ i, l i i = 1
  upper : ∀ i j, i < j → l i j = 0

structure Decomposition (n : ℕ) (a l : ℕ → ℕ → F) (d : ℕ → F) : Prop extends UnitLower l where
  product : ∀ i j, i < n → j < n → a i j = ∑ t ∈ range n, l i t * d t * l j t

namespace UnitLower

variable {l : ℕ → ℕ → F} {x : ℕ → F} {n : ℕ}

theorem sum_last (hl : UnitLower l) (n : ℕ) (x : ℕ → F) :
    ∑ i ∈ range (n + 1), l i n * x i = x n := by
  have hzero : ∑ i ∈ range n, l i n * x i = 0 := by
    refine Finset.sum_eq_zero fun i hi => ?_
    rw [hl.upper i n (mem_range.mp hi), zero_mul]
  rw [sum_range_succ, hzero, hl.diagonal, zero_add, one_mul]

theorem transpose_solvable (hl : UnitLower l) (n : ℕ) (b : ℕ → F) :
    ∃ x : ℕ → F, ∀ t < n, ∑ i ∈ range n, l i t * x i = b t := by
  induction n generalizing b with
  | zero => exact ⟨b, fun t ht => absurd ht (Nat.not_lt_zero t)⟩
  | succ n ih =>
    -- The last unknown is known at once, and moves to the right-hand side of the others.
    obtain ⟨x, hx⟩ := ih fun t => b t - l n t * b n
    refine ⟨Function.update x n (b n), fun t ht => ?_⟩
    have hlast : Function.update x n (b n) n = b n := Function.update_self n (b n) x
    by_cases htn : t = n
    · subst htn
      rw [hl.sum_last, hlast]
    · have hrest : ∑ i ∈ range n, l i t * Function.update x n (b n) i =
          ∑ i ∈ range n, l i t * x i := by
        refine Finset.sum_congr rfl fun i hi => ?_
        rw [Function.update_of_ne (Nat.ne_of_lt (mem_range.mp hi))]
      rw [sum_range_succ, hrest, hlast, hx t (by omega), sub_add_cancel]

theorem transpose_injective (hl : UnitLower l)
    (h : ∀ t < n, ∑ i ∈ range n, l i t * x i = 0) : ∀ i < n, x i = 0 := by
  induction n with
  | zero => exact fun i hi => absurd hi (Nat.not_lt_zero i)
  | succ n ih =>
    have hlast : x n = 0 := by
      rw [← hl.sum_last n x]
      exact h n (Nat.lt_succ_self n)
    have hrest : ∀ i < n, x i = 0 := by
      refine ih fun t ht => ?_
      have hsum := h t (Nat.lt_succ_of_lt ht)
      rwa [sum_range_succ, hlast, mul_zero, add_zero] at hsum
    intro i hi
    obtain hi | rfl := Nat.lt_succ_iff_lt_or_eq.mp hi
    · exact hrest i hi
    · exact hlast

end UnitLower

namespace Decomposition

variable {a l : ℕ → ℕ → F} {d : ℕ → F} {n : ℕ}

theorem ofLower (hl : UnitLower l) (hsymm : ∀ i j, i < n → j < n → a i j = a j i)
    (h : ∀ i j, j ≤ i → i < n → a i j = ∑ t ∈ range (j + 1), l i t * d t * l j t) :
    Decomposition n a l d where
  toUnitLower := hl
  product := by
    have hlower : ∀ i j, j ≤ i → i < n → a i j = ∑ t ∈ range n, l i t * d t * l j t := by
      intro i j hji hi
      rw [h i j hji hi]
      -- `L` has no entries above its diagonal, so the sum may run on to `n`.
      refine Finset.sum_subset (Finset.range_mono (by omega)) fun t _ ht => ?_
      rw [hl.upper j t (by simpa using ht), mul_zero]
    intro i j hi hj
    by_cases hji : j ≤ i
    · exact hlower i j hji hi
    · rw [hsymm i j hi hj, hlower j i (by omega) hj]
      exact Finset.sum_congr rfl fun t _ => by ring

theorem quadratic_eq (h : Decomposition n a l d) (x : ℕ → F) :
    quadratic n a x = ∑ t ∈ range n, d t * (∑ i ∈ range n, l i t * x i) ^ 2 := by
  calc
    quadratic n a x = ∑ i ∈ range n, ∑ j ∈ range n, ∑ t ∈ range n,
        d t * ((l i t * x i) * (l j t * x j)) := by
      refine Finset.sum_congr rfl fun i hi => Finset.sum_congr rfl fun j hj => ?_
      rw [h.product i j (mem_range.mp hi) (mem_range.mp hj), Finset.mul_sum, Finset.sum_mul]
      exact Finset.sum_congr rfl fun t _ => by ring
    _ = ∑ i ∈ range n, ∑ t ∈ range n, ∑ j ∈ range n, d t * ((l i t * x i) * (l j t * x j)) :=
      Finset.sum_congr rfl fun i _ => Finset.sum_comm
    _ = ∑ t ∈ range n, ∑ i ∈ range n, ∑ j ∈ range n, d t * ((l i t * x i) * (l j t * x j)) :=
      Finset.sum_comm
    _ = ∑ t ∈ range n, d t * (∑ i ∈ range n, l i t * x i) ^ 2 := by
      refine Finset.sum_congr rfl fun t _ => ?_
      rw [sq, Finset.sum_mul_sum, Finset.mul_sum]
      exact Finset.sum_congr rfl fun i _ => (Finset.mul_sum _ _ _).symm

theorem solves (h : Decomposition n a l d) {b x y z : ℕ → F}
    (hy : ∀ i < n, ∑ t ∈ range n, l i t * y t = b i) (hz : ∀ t < n, d t * z t = y t)
    (hx : ∀ t < n, ∑ j ∈ range n, l j t * x j = z t) {i : ℕ} (hi : i < n) :
    ∑ j ∈ range n, a i j * x j = b i := by
  calc
    ∑ j ∈ range n, a i j * x j =
        ∑ j ∈ range n, ∑ t ∈ range n, l i t * (d t * (l j t * x j)) := by
      refine Finset.sum_congr rfl fun j hj => ?_
      rw [h.product i j hi (mem_range.mp hj), Finset.sum_mul]
      exact Finset.sum_congr rfl fun t _ => by ring
    _ = ∑ t ∈ range n, ∑ j ∈ range n, l i t * (d t * (l j t * x j)) := Finset.sum_comm
    _ = ∑ t ∈ range n, l i t * y t := by
      refine Finset.sum_congr rfl fun t ht => ?_
      have ht : t < n := mem_range.mp ht
      rw [← Finset.mul_sum, ← Finset.mul_sum, hx t ht, hz t ht]
    _ = b i := hy i hi

end Decomposition

theorem symmetric_of_inverse {n : ℕ} {a b : ℕ → ℕ → F}
    (hsymm : ∀ i j, i < n → j < n → a i j = a j i)
    (hab : ∀ i j, i < n → j < n → ∑ k ∈ range n, a i k * b k j = if i = j then 1 else 0)
    {p q : ℕ} (hp : p < n) (hq : q < n) : b p q = b q p := by
  have hpick : ∀ r s, r < n → s < n → ∑ i ∈ range n, (if i = r then 1 else 0) * b i s = b r s := by
    intro r s hr _
    rw [Finset.sum_eq_single_of_mem r (mem_range.mpr hr)]
    · rw [if_pos rfl, one_mul]
    · intro i _ hir
      rw [if_neg hir, zero_mul]
  calc
    b p q = ∑ k ∈ range n, (∑ i ∈ range n, a k i * b i p) * b k q := by
      rw [← hpick p q hp hq]
      refine Finset.sum_congr rfl fun k hk => ?_
      rw [hab k p (mem_range.mp hk) hp]
    _ = ∑ k ∈ range n, ∑ i ∈ range n, (a i k * b k q) * b i p := by
      refine Finset.sum_congr rfl fun k hk => ?_
      rw [Finset.sum_mul]
      refine Finset.sum_congr rfl fun i hi => ?_
      rw [hsymm k i (mem_range.mp hk) (mem_range.mp hi)]
      ring
    _ = ∑ i ∈ range n, (∑ k ∈ range n, a i k * b k q) * b i p := by
      rw [Finset.sum_comm]
      exact Finset.sum_congr rfl fun i _ => (Finset.sum_mul _ _ _).symm
    _ = b q p := by
      rw [← hpick q p hq hp]
      refine Finset.sum_congr rfl fun i hi => ?_
      rw [hab i q (mem_range.mp hi) hq]

end Field

section Order

variable {F : Type} [Field F] [LinearOrder F]

/-- The quadratic form is positive except where every coordinate vanishes. -/
def PositiveDefinite (n : ℕ) (a : ℕ → ℕ → F) : Prop :=
  ∀ x : ℕ → F, (∃ i < n, x i ≠ 0) → 0 < quadratic n a x

theorem PositiveDefinite.mono {n k : ℕ} {a : ℕ → ℕ → F} (h : PositiveDefinite n a)
    (hk : k ≤ n) : PositiveDefinite k a := by
  rintro x ⟨i, hi, hxi⟩
  -- A vector of the smaller block, continued by zeros.
  let y : ℕ → F := fun j => if j < k then x j else 0
  have hin : ∀ j < k, y j = x j := fun j hj => if_pos hj
  have hout : ∀ j, j ∉ range k → y j = 0 := fun j hj => if_neg (by simpa using hj)
  have hsub : range k ⊆ range n := Finset.range_mono hk
  have hy : quadratic n a y = quadratic k a x := by
    calc
      quadratic n a y = ∑ i ∈ range k, ∑ j ∈ range n, y i * a i j * y j := by
        refine (Finset.sum_subset hsub fun i _ hi => ?_).symm
        exact Finset.sum_eq_zero fun j _ => by rw [hout i hi, zero_mul, zero_mul]
      _ = ∑ i ∈ range k, ∑ j ∈ range k, y i * a i j * y j := by
        refine Finset.sum_congr rfl fun i _ => (Finset.sum_subset hsub fun j _ hj => ?_).symm
        rw [hout j hj, mul_zero]
      _ = quadratic k a x := by
        refine Finset.sum_congr rfl fun i hi => Finset.sum_congr rfl fun j hj => ?_
        rw [hin i (mem_range.mp hi), hin j (mem_range.mp hj)]
  rw [← hy]
  refine h y ⟨i, by omega, ?_⟩
  rw [hin i hi]
  exact hxi

theorem PositiveDefinite.solution_unique {n : ℕ} {a : ℕ → ℕ → F} (h : PositiveDefinite n a)
    {x y : ℕ → F} (hxy : ∀ i < n, ∑ k ∈ range n, a i k * x k = ∑ k ∈ range n, a i k * y k) :
    ∀ i < n, x i = y i := by
  intro i hi
  by_contra hne
  have hpos : 0 < quadratic n a fun k => x k - y k := h _ ⟨i, hi, sub_ne_zero.mpr hne⟩
  have hzero : quadratic n a (fun k => x k - y k) = 0 := by
    refine Finset.sum_eq_zero fun i hi => ?_
    have hrow : ∑ k ∈ range n, a i k * (x k - y k) = 0 := by
      simp only [mul_sub, Finset.sum_sub_distrib]
      exact sub_eq_zero.mpr (hxy i (mem_range.mp hi))
    simp only [mul_assoc, ← Finset.mul_sum, hrow, mul_zero]
  exact hpos.ne' hzero

/-- What is left of the last entry of the block of size `n + 1` after the unknowns before it are
eliminated. -/
structure SchurComplement (n : ℕ) (a : ℕ → ℕ → F) (d : F) : Prop where
  solvable : ∃ y : ℕ → F, ∀ i < n, ∑ k ∈ range n, a i k * y k = a i n
  value : ∀ y : ℕ → F, (∀ i < n, ∑ k ∈ range n, a i k * y k = a i n) →
    d = a n n - ∑ k ∈ range n, a n k * y k

namespace Decomposition

variable [IsStrictOrderedRing F] {a l : ℕ → ℕ → F} {d : ℕ → F} {n : ℕ}

theorem positiveDefinite (h : Decomposition n a l d) (hd : ∀ t < n, 0 < d t) :
    PositiveDefinite n a := by
  rintro x ⟨i, hi, hxi⟩
  rw [h.quadratic_eq]
  have hterm : ∀ t ∈ range n, 0 ≤ d t * (∑ i ∈ range n, l i t * x i) ^ 2 := by
    intro t ht
    exact mul_nonneg (hd t (mem_range.mp ht)).le (sq_nonneg _)
  refine Finset.sum_pos' hterm ?_
  by_contra hnone
  push Not at hnone
  refine hxi (h.transpose_injective (fun t ht => ?_) i hi)
  by_contra hne
  have hpos : 0 < d t * (∑ i ∈ range n, l i t * x i) ^ 2 :=
    mul_pos (hd t ht) (sq_pos_of_ne_zero hne)
  exact absurd hpos (not_lt.mpr (hnone t (mem_range.mpr ht)))

theorem not_positiveDefinite (h : Decomposition (n + 1) a l d) (hd : d n ≤ 0) :
    ¬PositiveDefinite (n + 1) a := by
  intro hdef
  -- `Lᵀ x` is the last unit vector, so the form takes the last entry of `D` as its value.
  obtain ⟨x, hx⟩ := h.transpose_solvable (n + 1) fun t => if t = n then 1 else 0
  have hvalue : quadratic (n + 1) a x = d n := by
    rw [h.quadratic_eq, sum_range_succ, hx n (Nat.lt_succ_self n)]
    have hzero : ∑ t ∈ range n, d t * (∑ i ∈ range (n + 1), l i t * x i) ^ 2 = 0 := by
      refine Finset.sum_eq_zero fun t ht => ?_
      have ht : t < n := mem_range.mp ht
      rw [hx t (by omega), if_neg (by omega)]
      ring
    rw [hzero, if_pos rfl]
    ring
  have hlast : x n = 1 := by
    rw [← h.sum_last n x, hx n (Nat.lt_succ_self n), if_pos rfl]
  have hpos : 0 < quadratic (n + 1) a x :=
    hdef x ⟨n, Nat.lt_succ_self n, by rw [hlast]; exact one_ne_zero⟩
  rw [hvalue] at hpos
  exact absurd hpos (not_lt.mpr hd)

/-- The pivot of the last column is what elimination leaves of the last entry. -/
theorem schurComplement (h : Decomposition (n + 1) a l d) (hdef : PositiveDefinite n a) :
    SchurComplement n a (d n) := by
  -- `Lᵀ x` is the last unit vector, so `A x` vanishes before the last coordinate.
  obtain ⟨x, hx⟩ := h.transpose_solvable (n + 1) fun t => if t = n then 1 else 0
  have hlast : x n = 1 := by
    rw [← h.sum_last n x, hx n (Nat.lt_succ_self n), if_pos rfl]
  have himage : ∀ i ≤ n, ∑ k ∈ range n, a i k * x k + a i n = l i n * d n := by
    intro i hi
    calc
      ∑ k ∈ range n, a i k * x k + a i n = ∑ k ∈ range (n + 1), a i k * x k := by
        rw [sum_range_succ, hlast, mul_one]
      _ = ∑ k ∈ range (n + 1), ∑ t ∈ range (n + 1), l i t * (d t * (l k t * x k)) := by
        refine Finset.sum_congr rfl fun k hk => ?_
        rw [h.product i k (by omega) (mem_range.mp hk), Finset.sum_mul]
        exact Finset.sum_congr rfl fun t _ => by ring
      _ = ∑ t ∈ range (n + 1), l i t * (d t * if t = n then 1 else 0) := by
        rw [Finset.sum_comm]
        refine Finset.sum_congr rfl fun t ht => ?_
        rw [← Finset.mul_sum, ← Finset.mul_sum, hx t (mem_range.mp ht)]
      _ = l i n * d n := by
        rw [Finset.sum_eq_single_of_mem n (Finset.self_mem_range_succ n)]
        · rw [if_pos rfl, mul_one]
        · intro t _ htn
          rw [if_neg htn, mul_zero, mul_zero]
  have hsolves : ∀ i < n, ∑ k ∈ range n, a i k * -x k = a i n := by
    intro i hi
    have hzero := himage i hi.le
    rw [h.upper i n hi, zero_mul] at hzero
    simp only [mul_neg, Finset.sum_neg_distrib]
    linarith
  refine ⟨⟨fun k => -x k, hsolves⟩, fun y hy => ?_⟩
  have hsame : ∀ k < n, y k = -x k :=
    hdef.solution_unique fun i hi => (hy i hi).trans (hsolves i hi).symm
  have hrow : ∑ k ∈ range n, a n k * y k = -∑ k ∈ range n, a n k * x k := by
    rw [← Finset.sum_neg_distrib]
    refine Finset.sum_congr rfl fun k hk => ?_
    rw [hsame k (mem_range.mp hk), mul_neg]
  have hcorner := himage n (le_refl n)
  rw [h.diagonal, one_mul] at hcorner
  rw [hrow, ← hcorner]
  ring

end Decomposition

end Order

end Autodiff
