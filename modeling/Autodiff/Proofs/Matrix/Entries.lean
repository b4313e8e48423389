import Mathlib
import Autodiff.Matrix.Inverse
import Autodiff.Program.Interpretation
import Autodiff.Proofs.Matrix.Pointwise
import Autodiff.Proofs.Number.Exact

set_option autoImplicit false

namespace Autodiff.Matrix

open Finset (range)

section Zero

variable {F : Type} [Zero F]

theorem peek_eq_get (m : Matrix F) {i j : ℕ} (hi : i < m.rows) (hj : j < m.cols) :
    m.peek i j = m.get ⟨i, hi⟩ ⟨j, hj⟩ := by
  have h : m.get? i j = some (m.get ⟨i, hi⟩ ⟨j, hj⟩) := m.get?_eq_some ⟨i, hi⟩ ⟨j, hj⟩
  rw [peek, h, Option.getD_some]

theorem peek_ofFn {rows cols i j : ℕ} (f : Fin rows → Fin cols → F) (hi : i < rows)
    (hj : j < cols) : (ofFn rows cols f).peek i j = f ⟨i, hi⟩ ⟨j, hj⟩ := by
  rw [peek_eq_get _ hi hj]
  exact get_ofFn rows cols f ⟨i, hi⟩ ⟨j, hj⟩

theorem eq_of_peek {a b : Matrix F} (hrows : a.rows = b.rows) (hcols : a.cols = b.cols)
    (h : ∀ i j, i < a.rows → j < a.cols → a.peek i j = b.peek i j) : a = b := by
  refine eq_of_get? hrows hcols fun i j hi hj => ?_
  have hij := h i j hi hj
  rw [peek_eq_get a hi hj, peek_eq_get b (hrows ▸ hi) (hcols ▸ hj)] at hij
  have ha : a.get? i j = some _ := a.get?_eq_some ⟨i, hi⟩ ⟨j, hj⟩
  have hb : b.get? i j = some _ := b.get?_eq_some ⟨i, hrows ▸ hi⟩ ⟨j, hcols ▸ hj⟩
  rw [ha, hb, hij]

omit [Zero F] in
@[simp]
theorem rows_poke (m : Matrix F) (i j : ℕ) (x : F) : (m.poke i j x).rows = m.rows := by
  unfold poke
  split <;> rfl

omit [Zero F] in
@[simp]
theorem cols_poke (m : Matrix F) (i j : ℕ) (x : F) : (m.poke i j x).cols = m.cols := by
  unfold poke
  split <;> rfl

omit [Zero F] in
theorem poke_eq (m : Matrix F) {i j : ℕ} (hi : i < m.rows) (hj : j < m.cols) (x : F) :
    m.poke i j x = { m with data := m.data.set (i * m.cols + j) x (flat_lt hi hj) } :=
  dif_pos ⟨hi, hj⟩

theorem flat_inj {cols i j k l : ℕ} (hj : j < cols) (hl : l < cols)
    (h : i * cols + j = k * cols + l) : i = k ∧ j = l := by
  have hrow : (i * cols + j) / cols = (k * cols + l) / cols := congrArg (· / cols) h
  have hcol : (i * cols + j) % cols = (k * cols + l) % cols := congrArg (· % cols) h
  rw [flat_div hj, flat_div hl] at hrow
  rw [flat_mod hj, flat_mod hl] at hcol
  exact ⟨hrow, hcol⟩

omit [Zero F] in
theorem get?_poke_self (m : Matrix F) {i j : ℕ} (hi : i < m.rows) (hj : j < m.cols) (x : F) :
    (m.poke i j x).get? i j = some x := by
  rw [poke_eq m hi hj]
  refine (get?_eq_some ⟨m.rows, m.cols, m.data.set _ x _⟩ ⟨i, hi⟩ ⟨j, hj⟩).trans ?_
  exact congrArg some (Vector.getElem_set_self _)

omit [Zero F] in
theorem get?_poke_ne (m : Matrix F) {i j k l : ℕ} (x : F) (hne : ¬(k = i ∧ l = j)) :
    (m.poke i j x).get? k l = m.get? k l := by
  by_cases hij : i < m.rows ∧ j < m.cols
  · rw [poke_eq m hij.1 hij.2]
    by_cases hkl : k < m.rows ∧ l < m.cols
    · have hflat : i * m.cols + j ≠ k * m.cols + l := by
        intro h
        obtain ⟨rfl, rfl⟩ := flat_inj hij.2 hkl.2 h
        exact hne ⟨rfl, rfl⟩
      have hm : m.get? k l = some _ := m.get?_eq_some ⟨k, hkl.1⟩ ⟨l, hkl.2⟩
      rw [hm]
      refine (get?_eq_some ⟨m.rows, m.cols, m.data.set _ x _⟩ ⟨k, hkl.1⟩ ⟨l, hkl.2⟩).trans ?_
      refine congrArg some ?_
      exact Vector.getElem_set_ne (flat_lt hij.1 hij.2) (flat_lt hkl.1 hkl.2) hflat
    · simp only [get?, hkl, ↓reduceDIte]
  · rw [poke, dif_neg hij]

theorem peek_poke_self (m : Matrix F) {i j : ℕ} (hi : i < m.rows) (hj : j < m.cols) (x : F) :
    (m.poke i j x).peek i j = x := by
  rw [peek, get?_poke_self m hi hj, Option.getD_some]

theorem peek_poke_ne (m : Matrix F) {i j k l : ℕ} (x : F) (hne : ¬(k = i ∧ l = j)) :
    (m.poke i j x).peek k l = m.peek k l := by
  rw [peek, get?_poke_ne m x hne, peek]

theorem peek_transpose (m : Matrix F) {i j : ℕ} (hi : i < m.rows) (hj : j < m.cols) :
    m.transpose.peek j i = m.peek i j := by
  rw [transpose, peek_ofFn _ hj hi, peek_eq_get m hi hj]

theorem peek_identity [One F] {n i j : ℕ} (hi : i < n) (hj : j < n) :
    (identity n : Matrix F).peek i j = if i = j then 1 else 0 := by
  rw [identity, peek_ofFn _ hi hj]
  simp only [Fin.mk.injEq]

end Zero

section Field

variable {F : Type} [Field F]

theorem foldl_sub (f : ℕ → F) (c : F) (ks : List ℕ) :
    ks.foldl (fun s k => s - f k) c = c - (ks.map f).sum := by
  induction ks generalizing c with
  | nil => simp
  | cons k ks ih =>
    rw [List.foldl_cons, ih, List.map_cons, List.sum_cons]
    ring

end Field

section Ring

variable {F : Type} [CommRing F] [Div F] [Functions F]

theorem sumM_plain_map {α : Type} (f : α → F) (xs : List α) :
    Interpretation.plain.sumM (fun x => (.ok (f x) : Outcome F F)) xs = .ok (xs.map f).sum := by
  have hfold : ∀ c : F, xs.foldlM (fun acc x => (.ok (acc + f x) : Outcome F F)) c =
      .ok (c + (xs.map f).sum) := by
    induction xs with
    | nil => intro c; simp; rfl
    | cons x xs ih =>
      intro c
      rw [List.foldlM_cons]
      change xs.foldlM _ (c + f x) = _
      rw [ih, List.map_cons, List.sum_cons, add_assoc]
  exact (hfold 0).trans (congrArg Except.ok (zero_add _))

theorem sumM_plain (f : ℕ → F) (n : ℕ) :
    Interpretation.plain.sumM (fun k : Fin n => (.ok (f k) : Outcome F F)) (List.finRange n) =
      .ok (∑ k ∈ range n, f k) := by
  rw [sumM_plain_map (fun k : Fin n => f k), ← Fin.sum_univ_def, Fin.sum_univ_eq_sum_range f n]

theorem multiply_plain (a b : Matrix F) (h : a.cols = b.rows) :
    multiply Interpretation.plain a b =
      .ok (ofFn a.rows b.cols fun i j => ∑ k ∈ range a.cols, a.peek i k * b.peek k j) := by
  have hentry : ∀ (i : Fin a.rows) (j : Fin b.cols),
      Interpretation.plain.sumM (fun k => Interpretation.plain.mul (a.get i k)
        (b.get (k.cast h) j)) (List.finRange a.cols) =
      (.ok (∑ k ∈ range a.cols, a.peek i k * b.peek k j) : Outcome F F) := by
    intro i j
    rw [← sumM_plain]
    congr 1
    funext k
    rw [peek_eq_get a i.isLt k.isLt, peek_eq_get b (h ▸ k.isLt) j.isLt]
    rfl
  simp only [multiply, h, ↓reduceDIte, hentry]
  exact ofFnM_pure _ _ _

theorem multiply_plain_eq {a b c : Matrix F} (h : a.cols = b.rows)
    (hrows : c.rows = a.rows) (hcols : c.cols = b.cols)
    (hentry : ∀ i j, i < a.rows → j < b.cols →
      ∑ k ∈ range a.cols, a.peek i k * b.peek k j = c.peek i j) :
    multiply Interpretation.plain a b = .ok c := by
  rw [multiply_plain a b h]
  congr 1
  refine eq_of_peek hrows.symm hcols.symm fun i j hi hj => ?_
  have hi : i < a.rows := hi
  have hj : j < b.cols := hj
  rw [peek_ofFn _ hi hj]
  exact hentry i j hi hj

end Ring

end Autodiff.Matrix
