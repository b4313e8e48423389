import Mathlib
import Autodiff.Proofs.Matrix.Entries

set_option autoImplicit false

namespace Autodiff.Matrix

open Finset (range mem_range)
open Interpretation (plain forward)

section Entries

variable {F : Type} [Zero F]

theorem peek_of_rows_le (m : Matrix F) {i : ℕ} (h : m.rows ≤ i) (j : ℕ) : m.peek i j = 0 := by
  have hout : ¬(i < m.rows ∧ j < m.cols) := fun hij => Nat.not_lt.mpr h hij.1
  simp only [peek, get?, hout, ↓reduceDIte, Option.getD_none]

theorem peek_of_cols_le (m : Matrix F) (i : ℕ) {j : ℕ} (h : m.cols ≤ j) : m.peek i j = 0 := by
  have hout : ¬(i < m.rows ∧ j < m.cols) := fun hij => Nat.not_lt.mpr h hij.2
  simp only [peek, get?, hout, ↓reduceDIte, Option.getD_none]

theorem peek_map_get {α : Type} (f : α → F) (m : Matrix α) (i : Fin m.rows) (j : Fin m.cols) :
    (m.map f).peek i j = f (m.get i j) :=
  (peek_eq_get (m.map f) i.isLt j.isLt).trans (get_map f m i j)

theorem peek_map {G : Type} [Zero G] {f : F → G} (hf : f 0 = 0) (m : Matrix F) (i j : ℕ) :
    (m.map f).peek i j = f (m.peek i j) := by
  by_cases hij : i < m.rows ∧ j < m.cols
  · rw [peek_eq_get m hij.1 hij.2]
    exact peek_map_get f m ⟨i, hij.1⟩ ⟨j, hij.2⟩
  · have hmap : ¬(i < (m.map f).rows ∧ j < (m.map f).cols) := hij
    simp only [peek, get?, hij, hmap, ↓reduceDIte, Option.getD_none, hf]

end Entries

section Ring

variable {F : Type} [CommRing F]

def product (a b : Matrix F) : Matrix F :=
  ofFn a.rows b.cols fun i j => ∑ k ∈ range a.cols, a.peek i k * b.peek k j

def plus (a b : Matrix F) : Matrix F := ofFn a.rows a.cols fun i j => a.peek i j + b.peek i j

/-- Entries outside the shape are zero, and so are the sums. -/
theorem peek_product (a b : Matrix F) (i j : ℕ) :
    (a.product b).peek i j = ∑ k ∈ range a.cols, a.peek i k * b.peek k j := by
  rcases Nat.lt_or_ge i a.rows with hi | hi
  · rcases Nat.lt_or_ge j b.cols with hj | hj
    · exact peek_ofFn _ hi hj
    · have hzero : ∀ k ∈ range a.cols, a.peek i k * b.peek k j = 0 := fun k _ => by
        rw [peek_of_cols_le b k hj, mul_zero]
      rw [Finset.sum_eq_zero hzero]
      exact peek_of_cols_le (a.product b) i hj
  · have hzero : ∀ k ∈ range a.cols, a.peek i k * b.peek k j = 0 := fun k _ => by
      rw [peek_of_rows_le a hi, zero_mul]
    rw [Finset.sum_eq_zero hzero]
    exact peek_of_rows_le (a.product b) hi j

theorem peek_plus (a b : Matrix F) {i j : ℕ} (hi : i < a.rows) (hj : j < a.cols) :
    (a.plus b).peek i j = a.peek i j + b.peek i j :=
  peek_ofFn _ hi hj

theorem product_assoc (a b c : Matrix F) :
    (a.product b).product c = a.product (b.product c) := by
  refine eq_of_peek rfl rfl fun i j _ _ => ?_
  have hcols : (a.product b).cols = b.cols := rfl
  simp only [peek_product, hcols, Finset.sum_mul, Finset.mul_sum]
  rw [Finset.sum_comm]
  refine Finset.sum_congr rfl fun k _ => Finset.sum_congr rfl fun l _ => ?_
  exact mul_assoc _ _ _

theorem identity_product (a : Matrix F) : (identity a.rows).product a = a := by
  refine eq_of_peek rfl rfl fun i j hi _ => ?_
  have hi : i < a.rows := hi
  have hcols : (identity a.rows : Matrix F).cols = a.rows := rfl
  rw [peek_product, hcols, Finset.sum_eq_single i]
  · rw [peek_identity hi hi, if_pos rfl, one_mul]
  · intro k hk hne
    rw [peek_identity hi (mem_range.mp hk), if_neg hne.symm, zero_mul]
  · exact fun hout => absurd (mem_range.mpr hi) hout

theorem product_identity (a : Matrix F) : a.product (identity a.cols) = a := by
  refine eq_of_peek rfl rfl fun i j _ hj => ?_
  have hj : j < a.cols := hj
  rw [peek_product, Finset.sum_eq_single j]
  · rw [peek_identity hj hj, if_pos rfl, mul_one]
  · intro k hk hne
    rw [peek_identity (mem_range.mp hk) hj, if_neg hne, mul_zero]
  · exact fun hout => absurd (mem_range.mpr hj) hout

theorem transpose_product (a b : Matrix F) (h : a.cols = b.rows) :
    (a.product b).transpose = b.transpose.product a.transpose := by
  refine eq_of_peek rfl rfl fun j i hj hi => ?_
  have hj : j < b.cols := hj
  have hi : i < a.rows := hi
  have hcols : b.transpose.cols = a.cols := h.symm
  rw [peek_transpose (a.product b) hi hj, peek_product, peek_product, hcols]
  refine Finset.sum_congr rfl fun k hk => ?_
  have hk : k < a.cols := mem_range.mp hk
  rw [peek_transpose a hi hk, peek_transpose b (h ▸ hk) hj, mul_comm]

theorem transpose_map_neg (a : Matrix F) : (a.map Neg.neg).transpose = a.transpose.map Neg.neg := by
  refine eq_of_peek rfl rfl fun j i hj hi => ?_
  have hj : j < a.cols := hj
  have hi : i < a.rows := hi
  rw [peek_map neg_zero, peek_transpose (a.map Neg.neg) hi hj, peek_transpose a hi hj,
    peek_map neg_zero]

theorem product_map_neg (a b : Matrix F) :
    a.product (b.map Neg.neg) = (a.product b).map Neg.neg := by
  refine eq_of_peek rfl rfl fun i j _ _ => ?_
  rw [peek_map neg_zero, peek_product, peek_product, ← Finset.sum_neg_distrib]
  refine Finset.sum_congr rfl fun k _ => ?_
  rw [peek_map neg_zero, mul_neg]

theorem map_neg_product (a b : Matrix F) :
    (a.map Neg.neg).product b = (a.product b).map Neg.neg := by
  refine eq_of_peek rfl rfl fun i j _ _ => ?_
  have hcols : (a.map Neg.neg).cols = a.cols := rfl
  rw [peek_map neg_zero, peek_product, peek_product, ← Finset.sum_neg_distrib, hcols]
  refine Finset.sum_congr rfl fun k _ => ?_
  rw [peek_map neg_zero, neg_mul]

theorem plus_map_neg (a : Matrix F) : a.plus (a.map Neg.neg) = zeros a.rows a.cols := by
  refine eq_of_peek rfl rfl fun i j hi hj => ?_
  have hi : i < a.rows := hi
  have hj : j < a.cols := hj
  rw [peek_plus a _ hi hj, peek_map neg_zero, add_neg_cancel, zeros, peek_ofFn _ hi hj]

theorem map_neg_plus (a : Matrix F) : (a.map Neg.neg).plus a = zeros a.rows a.cols := by
  refine eq_of_peek rfl rfl fun i j hi hj => ?_
  have hi : i < a.rows := hi
  have hj : j < a.cols := hj
  rw [peek_plus (a.map Neg.neg) a hi hj, peek_map neg_zero, neg_add_cancel, zeros,
    peek_ofFn _ hi hj]

end Ring

section Dual

variable {F : Type}

def primals (m : Matrix (Dual F)) : Matrix F := m.map Dual.value

def tangents (m : Matrix (Dual F)) : Matrix F := m.map Dual.tangent

def withTangents [Zero F] (a v : Matrix F) : Matrix (Dual F) :=
  ofFn a.rows a.cols fun i j => ⟨a.peek i j, v.peek i j⟩

theorem map_ofFn {α β : Type} (f : α → β) (rows cols : ℕ) (g : Fin rows → Fin cols → α) :
    (ofFn rows cols g).map f = ofFn rows cols fun i j => f (g i j) := by
  unfold map ofFn
  congr 1
  ext k hk
  rw [Vector.getElem_map, Vector.getElem_ofFn, Vector.getElem_ofFn]

theorem ofFn_peek [Zero F] (a : Matrix F) :
    (ofFn a.rows a.cols fun i j => a.peek i j) = a := by
  refine eq_of_peek rfl rfl fun i j hi hj => ?_
  exact peek_ofFn _ hi hj

@[simp]
theorem primals_withTangents [Zero F] (a v : Matrix F) : (a.withTangents v).primals = a := by
  rw [withTangents, primals, map_ofFn]
  exact ofFn_peek a

theorem tangents_withTangents [Zero F] {a v : Matrix F} (hrows : v.rows = a.rows)
    (hcols : v.cols = a.cols) : (a.withTangents v).tangents = v := by
  rw [withTangents, tangents, map_ofFn, ← hrows, ← hcols]
  exact ofFn_peek v

variable [Field F] [Functions F]

theorem sumM_forward (f : ℕ → Dual F) (n : ℕ) :
    Interpretation.forward.sumM (fun k : Fin n => (.ok (f k) : Outcome F (Dual F)))
        (List.finRange n) =
      .ok ⟨∑ k ∈ range n, (f k).value, ∑ k ∈ range n, (f k).tangent⟩ := by
  have hfold : ∀ (ks : List (Fin n)) (c : Dual F),
      ks.foldlM (fun acc (k : Fin n) => (.ok (acc + f k) : Outcome F (Dual F))) c =
        .ok ⟨c.value + (ks.map fun k : Fin n => (f k).value).sum,
          c.tangent + (ks.map fun k : Fin n => (f k).tangent).sum⟩ := by
    intro ks
    induction ks with
    | nil => intro c; simp; rfl
    | cons k ks ih =>
      intro c
      rw [List.foldlM_cons]
      change ks.foldlM _ (c + f k) = _
      rw [ih, List.map_cons, List.map_cons, List.sum_cons, List.sum_cons, Dual.value_add,
        Dual.tangent_add, add_assoc, add_assoc]
  refine (hfold (List.finRange n) 0).trans ?_
  rw [Dual.value_zero, Dual.tangent_zero, zero_add, zero_add, ← Fin.sum_univ_def,
    ← Fin.sum_univ_def, Fin.sum_univ_eq_sum_range (fun k => (f k).value) n,
    Fin.sum_univ_eq_sum_range (fun k => (f k).tangent) n]

theorem multiply_forward (a b : Matrix (Dual F)) (h : a.cols = b.rows) :
    multiply forward a b = .ok ((a.primals.product b.primals).withTangents
      ((a.tangents.product b.primals).plus (a.primals.product b.tangents))) := by
  have hentry : ∀ (i : Fin a.rows) (j : Fin b.cols),
      Interpretation.forward.sumM (fun k => Interpretation.forward.mul (a.get i k)
        (b.get (k.cast h) j)) (List.finRange a.cols) =
      (.ok ⟨(a.primals.product b.primals).peek i j,
        ((a.tangents.product b.primals).plus (a.primals.product b.tangents)).peek i j⟩ :
          Outcome F (Dual F)) := by
    intro i j
    have hcols : a.tangents.cols = a.cols := rfl
    have hcols' : a.primals.cols = a.cols := rfl
    rw [peek_plus (a.tangents.product b.primals) _ i.isLt j.isLt, peek_product, peek_product,
      peek_product, hcols, hcols', ← Finset.sum_add_distrib]
    refine Eq.trans ?_ (sumM_forward (fun k => ⟨a.primals.peek i k * b.primals.peek k j,
      a.tangents.peek i k * b.primals.peek k j + a.primals.peek i k * b.tangents.peek k j⟩) a.cols)
    congr 1
    funext k
    have ha : ∀ g : Dual F → F, (a.map g).peek i k = g (a.get i k) := fun g =>
      peek_map_get g a i k
    have hb : ∀ g : Dual F → F, (b.map g).peek k j = g (b.get (k.cast h) j) := fun g =>
      peek_map_get g b (k.cast h) j
    simp only [primals, tangents, ha, hb]
    rfl
  simp only [multiply, h, ↓reduceDIte, hentry]
  exact ofFnM_pure _ _ _

end Dual

theorem multiply_plain_eq_ok_iff {F : Type} [CommRing F] [Div F] [Functions F] {a b c : Matrix F} :
    multiply plain a b = .ok c ↔ a.cols = b.rows ∧ a.product b = c := by
  by_cases h : a.cols = b.rows
  · rw [multiply_plain a b h]
    exact ⟨fun heq => ⟨h, Except.ok.inj heq⟩, fun heq => congrArg Except.ok heq.2⟩
  · simp only [multiply, h, ↓reduceDIte, false_and, iff_false]
    intro heq
    cases heq

end Autodiff.Matrix
