import Mathlib
import Autodiff.Proofs.Matrix.Substitution

set_option autoImplicit false

namespace Autodiff.Matrix

open Finset (range mem_range)
open Interpretation (plain)

section Field

variable {F : Type} [Field F]

def symmetricPart (m : Matrix F) : Matrix F :=
  ofFn m.rows m.cols fun i j => (m.peek i j + m.peek j i) / 2

theorem symmetrized_eq (m : Matrix F) : m.symmetrized = m.symmetricPart := by
  unfold symmetrized symmetricPart
  congr 1
  funext i j
  rw [half, one_add_one_eq_two]
  ring

theorem symmetricPart_symm (m : Matrix F) (hsquare : m.rows = m.cols) {i j : ℕ} (hi : i < m.rows)
    (hj : j < m.rows) : m.symmetricPart.peek i j = m.symmetricPart.peek j i := by
  rw [symmetricPart, peek_ofFn _ hi (hsquare ▸ hj), peek_ofFn _ hj (hsquare ▸ hi), add_comm]

theorem inverseValue_square [Functions F] (tolerance : F) {m : Matrix F} (h : m.rows = m.cols) :
    inverseValue tolerance m =
      match (upperPairs m.rows).find? fun (i, j) => asymmetric tolerance m i j with
      | some (i, j) =>
        .error (.error (.notSymmetric inverseName i j (m.peek i j) (m.peek j i)))
      | none => Factorization.ofMatrix inverseName m.symmetricPart >>= fun factors =>
        factors.solveMatrix (identity m.rows) := by
  have hcond : (!m.isSquare) = false := by simpa [isSquare] using h
  rw [inverseValue, hcond, ← symmetrized_eq]
  rfl

structure SymmetricInverse [Functions F] (a b : Matrix F) : Prop where
  right : multiply plain a b = .ok (identity a.rows)
  left : multiply plain b a = .ok (identity a.rows)
  symmetric : b.transpose = b

theorem symmetricInverse_of_right [Functions F] {a b : Matrix F} (ha : a.rows = a.cols)
    (hrows : b.rows = a.rows) (hcols : b.cols = a.rows)
    (hsymm : ∀ i j, i < a.rows → j < a.rows → a.peek i j = a.peek j i)
    (hab : ∀ i j, i < a.rows → j < a.rows →
      ∑ k ∈ range a.rows, a.peek i k * b.peek k j = (identity a.rows : Matrix F).peek i j) :
    SymmetricInverse a b := by
  have hb : ∀ p q, p < a.rows → q < a.rows → b.peek p q = b.peek q p := by
    intro p q hp hq
    refine symmetric_of_inverse hsymm (fun i j hi hj => ?_) hp hq
    rw [hab i j hi hj, peek_identity hi hj]
  refine ⟨?_, ?_, ?_⟩
  · refine multiply_plain_eq (by rw [hrows, ha]) rfl hcols.symm fun i j hi hj => ?_
    rw [← hab i j hi (hcols ▸ hj), ← ha]
  · refine multiply_plain_eq hcols hrows.symm ha fun i j hi hj => ?_
    have hi : i < a.rows := hrows ▸ hi
    have hj : j < a.rows := ha ▸ hj
    have hswap : (identity a.rows : Matrix F).peek i j = (identity a.rows : Matrix F).peek j i := by
      rw [peek_identity hi hj, peek_identity hj hi]
      exact if_congr eq_comm rfl rfl
    rw [hswap, ← hab j i hj hi, hcols]
    refine Finset.sum_congr rfl fun k hk => ?_
    have hk : k < a.rows := mem_range.mp hk
    rw [hb i k hi hk, hsymm k j hk hj, mul_comm]
  · refine eq_of_peek (hcols.trans hrows.symm) (hrows.trans hcols.symm) fun i j hi hj => ?_
    rw [peek_transpose b hj hi]
    exact hb j i (hrows ▸ hj) (hcols ▸ hi)

end Field

theorem mem_upperPairs {n i j : ℕ} : (i, j) ∈ upperPairs n ↔ i < j ∧ j < n := by
  simp only [upperPairs, List.mem_flatMap, List.mem_range, List.mem_map, List.mem_range'_1,
    Prod.mk.injEq]
  constructor
  · rintro ⟨i, hi, j, hj, rfl, rfl⟩
    omega
  · intro hij
    exact ⟨i, by omega, j, by omega, rfl, rfl⟩

theorem pairwise_upperPairs (n : ℕ) :
    (upperPairs n).Pairwise fun p q => p.1 < q.1 ∨ p.1 = q.1 ∧ p.2 < q.2 := by
  refine List.pairwise_flatMap.mpr ⟨fun i _ => ?_, ?_⟩
  · refine List.pairwise_map.mpr ((List.pairwise_lt_range' 1).imp fun h => ?_)
    exact .inr ⟨rfl, h⟩
  · refine List.pairwise_lt_range.imp fun {i k} hik p hp q hq => ?_
    obtain ⟨_, -, rfl⟩ := List.mem_map.mp hp
    obtain ⟨_, -, rfl⟩ := List.mem_map.mp hq
    exact .inl hik

section Order

variable {F : Type} [Field F] [LinearOrder F]

def Mismatch (tolerance : F) (m : Matrix F) (i j : ℕ) : Prop :=
  i < j ∧ j < m.rows ∧ tolerance < |m.peek i j - m.peek j i|

def FirstMismatch (tolerance : F) (m : Matrix F) (i j : ℕ) : Prop :=
  Mismatch tolerance m i j ∧ ∀ k l, Mismatch tolerance m k l → i < k ∨ i = k ∧ j ≤ l

variable [Functions F] [ExactOrderedField F]

theorem asymmetric_iff (tolerance : F) (m : Matrix F) (i j : ℕ) :
    asymmetric tolerance m i j = true ↔ tolerance < |m.peek i j - m.peek j i| := by
  rw [asymmetric, ExactOrderedField.notNan, Bool.false_or, ExactOrderedField.abs, Functions.gt,
    ExactOrderedField.lt_iff]

theorem firstMismatch_of_find {tolerance : F} {m : Matrix F} {i j : ℕ}
    (h : ((upperPairs m.rows).find? fun (i, j) => asymmetric tolerance m i j) = some (i, j)) :
    FirstMismatch tolerance m i j := by
  obtain ⟨hij, as, bs, hsplit, has⟩ := List.find?_eq_some_iff_append.mp h
  have hmem : (i, j) ∈ upperPairs m.rows := List.mem_of_find?_eq_some h
  obtain ⟨hlt, hj⟩ := mem_upperPairs.mp hmem
  refine ⟨⟨hlt, hj, (asymmetric_iff tolerance m i j).mp hij⟩, ?_⟩
  rintro k l ⟨hkl, hl, hdiff⟩
  have hasym : asymmetric tolerance m k l = true := (asymmetric_iff tolerance m k l).mpr hdiff
  have hpair : (k, l) ∈ as ++ (i, j) :: bs := hsplit ▸ mem_upperPairs.mpr ⟨hkl, hl⟩
  obtain hbefore | hlater := List.mem_append.mp hpair
  · have hno : (!asymmetric tolerance m k l) = true := has (k, l) hbefore
    rw [hasym] at hno
    exact absurd hno Bool.false_ne_true
  · obtain heq | hafter := List.mem_cons.mp hlater
    · obtain ⟨rfl, rfl⟩ := Prod.mk.inj heq
      exact .inr ⟨rfl, le_refl l⟩
    · have hsorted := hsplit ▸ pairwise_upperPairs m.rows
      have hcons := (List.pairwise_append.mp hsorted).2.1
      obtain hrow | ⟨hrow, hcol⟩ := (List.pairwise_cons.mp hcons).1 (k, l) hafter
      · exact .inl hrow
      · exact .inr ⟨hrow, Nat.le_of_lt hcol⟩

theorem no_mismatch_of_find {tolerance : F} {m : Matrix F}
    (h : ((upperPairs m.rows).find? fun (i, j) => asymmetric tolerance m i j) = none) :
    ¬∃ i j, Mismatch tolerance m i j := by
  rintro ⟨i, j, hij, hj, hdiff⟩
  have hno := List.find?_eq_none.mp h (i, j) (mem_upperPairs.mpr ⟨hij, hj⟩)
  exact hno ((asymmetric_iff tolerance m i j).mpr hdiff)

theorem inverseValue_symmetric {tolerance : F} {m : Matrix F} (h : m.rows = m.cols)
    (hsymm : ¬∃ i j, Mismatch tolerance m i j) :
    inverseValue tolerance m =
      (Factorization.ofMatrix inverseName m.symmetricPart >>= fun factors =>
        factors.solveMatrix (identity m.rows)) := by
  rw [inverseValue_square tolerance h]
  cases hfind : (upperPairs m.rows).find? fun (i, j) => asymmetric tolerance m i j with
  | none => rfl
  | some p => exact absurd ⟨p.1, p.2, (firstMismatch_of_find hfind).1⟩ hsymm

end Order

inductive Verdict where
  | notSquare | notSymmetric | notDefinite | invertible

namespace Verdict

variable {F : Type} [Field F] [LinearOrder F]

/-- Which matrices get the verdict. -/
def Applies (tolerance : F) (m : Matrix F) : Verdict → Prop
  | notSquare => m.rows ≠ m.cols
  | notSymmetric => m.rows = m.cols ∧ ∃ i j, Mismatch tolerance m i j
  | notDefinite => m.rows = m.cols ∧ (¬∃ i j, Mismatch tolerance m i j) ∧
      ¬PositiveDefinite m.rows m.symmetricPart.peek
  | invertible => m.rows = m.cols ∧ (¬∃ i j, Mismatch tolerance m i j) ∧
      PositiveDefinite m.rows m.symmetricPart.peek

def Answers [Functions F] (tolerance : F) (m : Matrix F) (result : Outcome F (Matrix F)) :
    Verdict → Prop
  | notSquare => result = .error (.error (.notSquare "inverse_spd" m.rows m.cols))
  | notSymmetric => ∃ i j, FirstMismatch tolerance m i j ∧
      result = .error (.error (.notSymmetric "inverse_spd" i j (m.peek i j) (m.peek j i)))
  | notDefinite => ∃ j d,
      IsLeast {j | j < m.rows ∧ ¬PositiveDefinite (j + 1) m.symmetricPart.peek} j ∧ d ≤ 0 ∧
      result = .error (.error (.notPositiveDefinite "inverse_spd" j d))
  | invertible => ∃ b, SymmetricInverse m.symmetricPart b ∧ result = .ok b

theorem applies_unique (tolerance : F) (m : Matrix F) : ∃! v, Applies tolerance m v := by
  by_cases hsquare : m.rows = m.cols
  · by_cases hsymm : ∃ i j, Mismatch tolerance m i j
    · refine ⟨notSymmetric, ⟨hsquare, hsymm⟩, fun v hv => ?_⟩
      cases v with
      | notSquare => exact absurd hsquare hv
      | notSymmetric => rfl
      | notDefinite => exact absurd hsymm hv.2.1
      | invertible => exact absurd hsymm hv.2.1
    · by_cases hdef : PositiveDefinite m.rows m.symmetricPart.peek
      · refine ⟨invertible, ⟨hsquare, hsymm, hdef⟩, fun v hv => ?_⟩
        cases v with
        | notSquare => exact absurd hsquare hv
        | notSymmetric => exact absurd hv.2 hsymm
        | notDefinite => exact absurd hdef hv.2.2
        | invertible => rfl
      · refine ⟨notDefinite, ⟨hsquare, hsymm, hdef⟩, fun v hv => ?_⟩
        cases v with
        | notSquare => exact absurd hsquare hv
        | notSymmetric => exact absurd hv.2 hsymm
        | notDefinite => rfl
        | invertible => exact absurd hv.2.2 hdef
  · refine ⟨notSquare, hsquare, fun v hv => ?_⟩
    cases v with
    | notSquare => rfl
    | notSymmetric => exact absurd hv.1 hsquare
    | notDefinite => exact absurd hv.1 hsquare
    | invertible => exact absurd hv.1 hsquare

def ofOutcome? (result : Outcome F (Matrix F)) : Option Verdict :=
  match result with
  | .ok _ => some invertible
  | .error (.error (.notSquare ..)) => some notSquare
  | .error (.error (.notSymmetric ..)) => some notSymmetric
  | .error (.error (.notPositiveDefinite ..)) => some notDefinite
  | .error _ => none

variable [Functions F]

theorem ofOutcome?_of_answers {tolerance : F} {m : Matrix F} {result : Outcome F (Matrix F)}
    {v : Verdict} (h : Answers tolerance m result v) : ofOutcome? result = some v := by
  cases v with
  | notSquare =>
    obtain rfl := h
    rfl
  | notSymmetric =>
    obtain ⟨i, j, -, rfl⟩ := h
    rfl
  | notDefinite =>
    obtain ⟨j, d, -, -, rfl⟩ := h
    rfl
  | invertible =>
    obtain ⟨b, -, rfl⟩ := h
    rfl

variable [IsStrictOrderedRing F] [ExactOrderedField F]

theorem answers_of_applies {tolerance : F} {m : Matrix F} {v : Verdict}
    (h : Applies tolerance m v) : Answers tolerance m (inverseValue tolerance m) v := by
  cases v with
  | notSquare =>
    have hne : m.rows ≠ m.cols := h
    have hcond : (!m.isSquare) = true := by simpa [isSquare] using hne
    exact if_pos hcond
  | notSymmetric =>
    obtain ⟨hsquare, hsymm⟩ := h
    rw [inverseValue_square tolerance hsquare]
    cases hfind : (upperPairs m.rows).find? fun (i, j) => asymmetric tolerance m i j with
    | none => exact absurd hsymm (no_mismatch_of_find hfind)
    | some p => exact ⟨p.1, p.2, firstMismatch_of_find hfind, rfl⟩
  | notDefinite =>
    obtain ⟨hsquare, hsymm, hdef⟩ := h
    rw [inverseValue_symmetric hsquare hsymm]
    obtain ⟨k, d, hleast, hd, -, hfactor⟩ := Factorization.ofMatrix_not_positiveDefinite inverseName
      (a := m.symmetricPart) hsquare
      (.ofSymmetric fun i j hi hj => m.symmetricPart_symm hsquare hi hj) hdef
    refine ⟨k, d, hleast, hd, ?_⟩
    rw [hfactor]
    rfl
  | invertible =>
    obtain ⟨hsquare, hsymm, hdef⟩ := h
    rw [inverseValue_symmetric hsquare hsymm]
    have hmirror : ∀ i j, i < m.rows → j < m.rows →
        m.symmetricPart.peek i j = m.symmetricPart.peek j i :=
      fun i j hi hj => m.symmetricPart_symm hsquare hi hj
    -- Solving against the identity gives a right inverse; symmetry makes it a left one.
    obtain ⟨f, hfactor, hf⟩ := Factorization.ofMatrix_positiveDefinite inverseName
      (a := m.symmetricPart) hsquare (.ofSymmetric hmirror) hdef
    have hdim : f.rows = m.rows := hf.rows
    obtain ⟨b, hsolve, hrows, hcols, hb⟩ := Factorization.solveMatrix_spec (f := ⟨f⟩)
      (hdim ▸ hf.decomposition (le_refl _) (.ofSymmetric hmirror))
      (fun t ht => (hf.positive t (hdim ▸ ht)).ne')
      (b := identity m.rows) hdim.symm
    refine ⟨b, symmetricInverse_of_right hsquare hrows hcols hmirror fun i j hi hj => ?_, ?_⟩
    · have hentry : ∑ k ∈ range f.rows, m.symmetricPart.peek i k * b.peek k j =
          (identity m.rows : Matrix F).peek i j := hb i j hi hj
      rwa [hdim] at hentry
    · rw [hfactor]
      exact hsolve

end Verdict

variable {F : Type} [Field F] [LinearOrder F] [IsStrictOrderedRing F] [Functions F]
variable [ExactOrderedField F]

/-- Exactly one verdict applies to a matrix, and it is the one that its inverse answers. -/
theorem inverse_verdict (tolerance : F) (m : Matrix F) :
    (∃! v, Verdict.Applies tolerance m v) ∧
      ∀ v, Verdict.Applies tolerance m v ↔
        Verdict.Answers tolerance m ((inverse tolerance).eval m) v := by
  refine ⟨Verdict.applies_unique tolerance m, fun v => ⟨Verdict.answers_of_applies, fun hv => ?_⟩⟩
  obtain ⟨w, hw, -⟩ := Verdict.applies_unique tolerance m
  have hwv : some w = some v :=
    (Verdict.ofOutcome?_of_answers (Verdict.answers_of_applies hw)).symm.trans
      (Verdict.ofOutcome?_of_answers hv)
  rw [← Option.some.inj hwv]
  exact hw

def coupled : Matrix ℚ := ⟨2, 2, #v[2, 1, 1, 2]⟩

theorem coupled_invertible : Verdict.Applies (1 / 100) coupled .invertible := by
  refine ⟨rfl, ?_, ?_⟩
  · rintro ⟨i, j, hij, hj, hdiff⟩
    have hj : j < 2 := hj
    obtain rfl : i = 0 := by omega
    obtain rfl : j = 1 := by omega
    exact absurd hdiff (by decide +kernel)
  · rintro x ⟨i, hi, hxi⟩
    have hvalue : quadratic 2 coupled.symmetricPart.peek x =
        x 0 ^ 2 + x 1 ^ 2 + (x 0 + x 1) ^ 2 := by
      have h00 : coupled.symmetricPart.peek 0 0 = 2 := by decide +kernel
      have h01 : coupled.symmetricPart.peek 0 1 = 1 := by decide +kernel
      have h10 : coupled.symmetricPart.peek 1 0 = 1 := by decide +kernel
      have h11 : coupled.symmetricPart.peek 1 1 = 2 := by decide +kernel
      simp only [quadratic, Finset.sum_range_succ, Finset.sum_range_zero, h00, h01, h10, h11]
      ring
    have hsquare : 0 < x i ^ 2 := sq_pos_of_ne_zero hxi
    change 0 < quadratic 2 coupled.symmetricPart.peek x
    rw [hvalue]
    have hfirst : 0 ≤ x 0 ^ 2 := sq_nonneg _
    have hsecond : 0 ≤ x 1 ^ 2 := sq_nonneg _
    have hboth : 0 ≤ (x 0 + x 1) ^ 2 := sq_nonneg _
    have hi : i < 2 := hi
    obtain rfl | rfl : i = 0 ∨ i = 1 := by omega
    · linarith
    · linarith

theorem inverse_verdict_coupled :
    ∃ b, SymmetricInverse coupled.symmetricPart b ∧ (inverse (1 / 100)).eval coupled = .ok b :=
  ((inverse_verdict (1 / 100) coupled).2 .invertible).1 coupled_invertible

end Autodiff.Matrix
