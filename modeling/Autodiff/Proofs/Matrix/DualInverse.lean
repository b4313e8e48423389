import Mathlib
import Autodiff.Proofs.Matrix.Inverse
import Autodiff.Proofs.Matrix.Product

set_option autoImplicit false

namespace Autodiff.Matrix

open Finset (range mem_range)
open Interpretation (plain forward)

section Field

variable {F : Type} [Field F]

theorem sum_range_flat (f : ℕ → F) (rows cols : ℕ) :
    ∑ k ∈ range (rows * cols), f k = ∑ i ∈ range rows, ∑ j ∈ range cols, f (i * cols + j) := by
  induction rows with
  | zero => simp
  | succ rows ih => rw [Nat.succ_mul, Finset.sum_range_add, ih, Finset.sum_range_succ]

theorem getD_toList (m : Matrix F) {i j : ℕ} (hi : i < m.rows) (hj : j < m.cols) :
    m.toList.getD (i * m.cols + j) 0 = m.peek i j := by
  rw [peek_eq_get m hi hj, toList, List.getD_eq_getElem _ _ (by simpa using flat_lt hi hj)]
  rfl

theorem tangent_eq_sum {block : Matrix F} {m : Matrix (Dual F)} (hrows : block.rows = m.rows)
    (hcols : block.cols = m.cols) :
    JointOp.tangent block m =
      ∑ i ∈ range m.rows, ∑ j ∈ range m.cols, block.peek i j * m.tangents.peek i j := by
  have hmap : m.toList.map Dual.tangent = m.tangents.toList := Vector.toList_map.symm
  unfold JointOp.tangent
  rw [foldl_products, zero_add, hmap, dot_eq_sum, length_toList, hrows, hcols, sum_range_flat]
  refine Finset.sum_congr rfl fun i hi => Finset.sum_congr rfl fun j hj => ?_
  have hi : i < m.rows := mem_range.mp hi
  have hj : j < m.cols := mem_range.mp hj
  have hblock := getD_toList block (hrows ▸ hi) (hcols ▸ hj)
  rw [hcols] at hblock
  rw [hblock, ← getD_toList m.tangents hi hj]
  rfl

/-- The two halves of a partial differ by a swap of its last two indices, and so does the
symmetric part from the tangents. -/
theorem tangent_inverse [Functions F] (tolerance : F) {b : Matrix F} {m : Matrix (Dual F)}
    (hsquare : m.rows = m.cols) (hb : b.cols = m.rows) (k l : ℕ) :
    JointOp.tangent ((inverse tolerance).block m.primals b k l) m =
      -((b.product m.tangents.symmetricPart).product b).peek k l := by
  let v := m.tangents.peek
  have hpartial : ∀ i ∈ range m.rows, ∀ j ∈ range m.rows,
      ((inverse tolerance).block m.primals b k l).peek i j * v i j =
        -(1 / 2) * (b.peek k i * v i j * b.peek j l) +
          -(1 / 2) * (b.peek k j * v i j * b.peek i l) := by
    intro i hi j hj
    have hentry : ((inverse tolerance).block m.primals b k l).peek i j =
        -half * (b.peek k i * b.peek j l + b.peek k j * b.peek i l) :=
      peek_ofFn _ (mem_range.mp hi) (hsquare ▸ mem_range.mp hj)
    rw [hentry, half, one_add_one_eq_two]
    ring
  -- The second half of a partial is the first one with its last two indices exchanged.
  have hswap : ∑ i ∈ range m.rows, ∑ j ∈ range m.rows, -(1 / 2) *
        (b.peek k j * v i j * b.peek i l) =
      ∑ i ∈ range m.rows, ∑ j ∈ range m.rows, -(1 / 2) * (b.peek k i * v j i * b.peek j l) :=
    Finset.sum_comm
  have hmean : ∀ i ∈ range m.rows, ∀ j ∈ range m.rows,
      m.tangents.symmetricPart.peek i j = (v i j + v j i) / 2 := by
    intro i hi j hj
    exact peek_ofFn _ (mem_range.mp hi) (hsquare ▸ mem_range.mp hj)
  have hcols : (b.product m.tangents.symmetricPart).cols = m.rows := hsquare.symm
  calc JointOp.tangent ((inverse tolerance).block m.primals b k l) m
    _ = ∑ i ∈ range m.rows, ∑ j ∈ range m.rows,
          ((inverse tolerance).block m.primals b k l).peek i j * v i j := by
      rw [tangent_eq_sum rfl rfl, ← hsquare]
    _ = ∑ i ∈ range m.rows, ∑ j ∈ range m.rows,
          (-(1 / 2) * (b.peek k i * v i j * b.peek j l) +
            -(1 / 2) * (b.peek k i * v j i * b.peek j l)) := by
      rw [Finset.sum_congr rfl fun i hi => Finset.sum_congr rfl (hpartial i hi)]
      simp only [Finset.sum_add_distrib]
      rw [hswap]
    _ = -∑ i ∈ range m.rows, ∑ j ∈ range m.rows,
          b.peek k i * m.tangents.symmetricPart.peek i j * b.peek j l := by
      simp only [← Finset.sum_neg_distrib]
      refine Finset.sum_congr rfl fun i hi => Finset.sum_congr rfl fun j hj => ?_
      rw [hmean i hi j hj]
      ring
    _ = -((b.product m.tangents.symmetricPart).product b).peek k l := by
      rw [peek_product, hcols, Finset.sum_comm]
      simp only [peek_product, hb, Finset.sum_mul]

theorem transpose_symmetricPart {m : Matrix F} (hsquare : m.rows = m.cols) :
    m.symmetricPart.transpose = m.symmetricPart := by
  refine eq_of_peek hsquare.symm hsquare fun i j hi hj => ?_
  have hi : i < m.cols := hi
  have hj : j < m.rows := hj
  rw [peek_transpose m.symmetricPart hj hi]
  exact m.symmetricPart_symm hsquare hj (hsquare ▸ hi)

theorem withTangents_zeros (n : ℕ) :
    (identity n : Matrix F).withTangents (zeros n n) = identity n := by
  refine eq_of_peek rfl rfl fun i j hi hj => ?_
  have hi : i < n := hi
  have hj : j < n := hj
  have hentry : ((identity n : Matrix F).withTangents (zeros n n)).peek i j =
      ⟨(identity n : Matrix F).peek i j, (zeros n n : Matrix F).peek i j⟩ :=
    peek_ofFn _ hi hj
  rw [hentry, peek_identity hi hj, peek_identity hi hj, zeros, peek_ofFn _ hi hj]
  split <;> rfl

variable [Functions F]

structure DualInverse (s s' : Matrix F) (r : Matrix (Dual F)) : Prop where
  primals : SymmetricInverse s r.primals
  cancels : (s.product r.tangents).plus (s'.product r.primals) = zeros s.rows s.rows
  tangents : r.tangents = ((r.primals.product s').product r.primals).map Neg.neg
  right : multiply forward (s.withTangents s') r = .ok (identity s.rows)
  left : multiply forward r (s.withTangents s') = .ok (identity s.rows)
  symmetric : r.tangents.transpose = r.tangents

theorem dualInverse_of_tangents {s s' : Matrix F} {r : Matrix (Dual F)}
    (hsquare : s.rows = s.cols) (hrows : s'.rows = s.rows) (hcols : s'.cols = s.rows)
    (hsymm : s'.transpose = s') (hb : SymmetricInverse s r.primals)
    (ht : r.tangents = ((r.primals.product s').product r.primals).map Neg.neg) :
    DualInverse s s' r := by
  obtain ⟨hbrows, hright⟩ := multiply_plain_eq_ok_iff.mp hb.right
  obtain ⟨hbcols, hleft⟩ := multiply_plain_eq_ok_iff.mp hb.left
  have hst : s.product r.tangents = (s'.product r.primals).map Neg.neg := by
    rw [ht, product_map_neg, ← product_assoc, ← product_assoc, hright, ← hrows, identity_product]
  have hts : r.tangents.product s = (r.primals.product s').map Neg.neg := by
    have hcols' : s.rows = (r.primals.product s').cols := hcols.symm
    rw [ht, map_neg_product, product_assoc, hleft, hcols', product_identity]
  have hprimals : (s.withTangents s').primals = s := primals_withTangents s s'
  have htangents : (s.withTangents s').tangents = s' :=
    tangents_withTangents hrows (hcols.trans hsquare)
  have hzero : zeros (s'.product r.primals).rows (s'.product r.primals).cols =
      (zeros s.rows s.rows : Matrix F) :=
    congrArg₂ zeros hrows hbcols
  have hzero' : zeros (r.primals.product s').rows (r.primals.product s').cols =
      (zeros s.rows s.rows : Matrix F) :=
    congrArg₂ zeros (hbrows.symm.trans hsquare.symm) hcols
  refine ⟨hb, ?_, ht, ?_, ?_, ?_⟩
  · rw [hst, map_neg_plus, hzero]
  · rw [multiply_forward _ _ hbrows, hprimals, htangents, hright, hst, plus_map_neg, hzero,
      withTangents_zeros]
  · rw [multiply_forward _ _ hbcols, hprimals, htangents, hleft, hts, map_neg_plus, hzero',
      withTangents_zeros]
  · have hinner : r.primals.cols = s'.rows := hbcols.trans hrows.symm
    have houter : (r.primals.product s').cols = r.primals.rows :=
      hcols.trans (hsquare.trans hbrows)
    rw [ht, transpose_map_neg, transpose_product _ _ houter, transpose_product _ _ hinner,
      hb.symmetric, hsymm, ← product_assoc]

end Field

variable {F : Type} [Field F] [LinearOrder F] [IsStrictOrderedRing F] [Functions F]
variable [ExactOrderedField F]

/-- If the values pass the checks of the inverse, the inverse of the dual matrix `M + εV` is the
dual inverse of its symmetric part. -/
theorem inverse_onDuals (tolerance : F) (m : Matrix (Dual F))
    (h : Verdict.Applies tolerance m.primals .invertible) :
    ∃ r, (inverse tolerance).onDuals m = .ok r ∧
      (inverse tolerance).eval m.primals = .ok r.primals ∧
      DualInverse m.primals.symmetricPart m.tangents.symmetricPart r := by
  have hsquare : m.rows = m.cols := h.1
  obtain ⟨b, hb, hvalue⟩ := Verdict.answers_of_applies h
  obtain ⟨hbrows, -⟩ := multiply_plain_eq_ok_iff.mp hb.right
  obtain ⟨hbcols, -⟩ := multiply_plain_eq_ok_iff.mp hb.left
  have hbrows : m.cols = b.rows := hbrows
  have hbcols : b.cols = m.rows := hbcols
  let t := ((b.product m.tangents.symmetricPart).product b).map Neg.neg
  have hduals : (inverse tolerance).onDuals m = .ok (b.withTangents t) := by
    have hentry : ∀ (k : Fin b.rows) (l : Fin b.cols),
        (⟨b.get k l, JointOp.tangent ((inverse tolerance).block m.primals b k l) m⟩ : Dual F) =
          ⟨b.peek k l, t.peek k l⟩ := by
      intro k l
      rw [peek_eq_get b k.isLt l.isLt, tangent_inverse tolerance hsquare hbcols,
        peek_map neg_zero]
    have hrun : (inverse tolerance).onDuals m = (inverseValue tolerance m.primals >>= fun b =>
        .ok (ofFn b.rows b.cols fun k l =>
          ⟨b.get k l, JointOp.tangent ((inverse tolerance).block m.primals b k l) m⟩)) := rfl
    rw [hrun, hvalue, withTangents]
    simp only [← hentry]
    rfl
  have hprimals : (b.withTangents t).primals = b := primals_withTangents b t
  have htangents : (b.withTangents t).tangents = t := tangents_withTangents rfl rfl
  refine ⟨b.withTangents t, hduals, hprimals.symm ▸ hvalue, ?_⟩
  refine dualInverse_of_tangents hsquare rfl hsquare.symm (transpose_symmetricPart hsquare)
    (hprimals.symm ▸ hb) ?_
  rw [hprimals, htangents]

def coupledDual : Matrix (Dual ℚ) := coupled.withTangents ⟨2, 2, #v[1, 3, 0, 5]⟩

theorem inverse_onDuals_coupledDual :
    ∃ r, (inverse (1 / 100)).onDuals coupledDual = .ok r ∧
      (inverse (1 / 100)).eval coupledDual.primals = .ok r.primals ∧
      DualInverse coupledDual.primals.symmetricPart coupledDual.tangents.symmetricPart r := by
  have hprimals : coupledDual.primals = coupled := primals_withTangents _ _
  exact inverse_onDuals (1 / 100) coupledDual (hprimals ▸ coupled_invertible)

end Autodiff.Matrix
