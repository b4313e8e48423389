import Mathlib
import Autodiff.Proofs.Matrix.Product
import Autodiff.Proofs.Matrix.Substitution

set_option autoImplicit false

namespace Autodiff

open Finset (range mem_range)
open Interpretation (plain)

namespace Matrix

variable {F : Type} [Zero F]

def columnAt (m : Matrix F) (j : ℕ) : List F := (List.range m.rows).map fun i => m.peek i j

@[simp]
theorem length_columnAt (m : Matrix F) (j : ℕ) : (m.columnAt j).length = m.rows := by
  simp [columnAt]

@[simp]
theorem getElem_columnAt (m : Matrix F) {i j : ℕ} (hi : i < (m.columnAt j).length) :
    (m.columnAt j)[i] = m.peek i j := by
  simp [columnAt]

end Matrix

namespace Factorization

section Reading

variable {F : Type} [Arith F]

/-- Two matrices of one shape that agree on and below the diagonal. -/
structure SameLower (a b : Matrix F) : Prop where
  rows : a.rows = b.rows
  cols : a.cols = b.cols
  entry : ∀ i j, j ≤ i → i < a.rows → a.peek i j = b.peek i j

structure SameAnswers (f g : Factorization F) : Prop where
  dim : f.dim = g.dim
  diagonal : f.diagonal = g.diagonal
  solveVector : ∀ b, f.solveVector b = g.solveVector b
  solveMatrix : ∀ b, f.solveMatrix b = g.solveMatrix b

variable {a b : Matrix F} {f g : Factorization F}

namespace SameLower

theorem peek_eq (h : SameLower a b) {i j : ℕ} (hji : j ≤ i) : a.peek i j = b.peek i j := by
  by_cases hi : i < a.rows
  · exact h.entry i j hji hi
  · rw [a.peek_of_rows_le (not_lt.mp hi), b.peek_of_rows_le (h.rows ▸ not_lt.mp hi)]

theorem poke (h : SameLower a b) (i j : ℕ) (x : F) : SameLower (a.poke i j x) (b.poke i j x) where
  rows := by rw [Matrix.rows_poke, Matrix.rows_poke, h.rows]
  cols := by rw [Matrix.cols_poke, Matrix.cols_poke, h.cols]
  entry k l hlk _ := by
    by_cases hkl : k = i ∧ l = j
    · obtain ⟨rfl, rfl⟩ := hkl
      by_cases hin : k < a.rows ∧ l < a.cols
      · rw [Matrix.peek_poke_self a hin.1 hin.2,
          Matrix.peek_poke_self b (h.rows ▸ hin.1) (h.cols ▸ hin.2)]
      · rw [Matrix.poke, Matrix.poke, dif_neg hin, dif_neg (by rwa [← h.rows, ← h.cols])]
        exact h.peek_eq hlk
    · rw [Matrix.peek_poke_ne a x hkl, Matrix.peek_poke_ne b x hkl]
      exact h.peek_eq hlk

theorem pivot_eq (h : SameLower a b) (j : ℕ) : pivot a j = pivot b j := by
  unfold pivot
  rw [h.peek_eq (le_refl j)]
  refine List.foldl_ext _ _ _ fun d k hk => ?_
  have hk : k < j := List.mem_range.mp hk
  rw [h.peek_eq hk.le, h.peek_eq (le_refl k)]

theorem multiplier_eq (h : SameLower a b) {i j : ℕ} (hji : j ≤ i) (d : F) :
    multiplier a j i d = multiplier b j i d := by
  unfold multiplier
  rw [h.peek_eq hji]
  refine congrArg (· / d) (List.foldl_ext _ _ _ fun s k hk => ?_)
  have hk : k < j := List.mem_range.mp hk
  rw [h.peek_eq (hk.le.trans hji), h.peek_eq hk.le, h.peek_eq (le_refl k)]

theorem foldl_multiplier (h : SameLower a b) (j : ℕ) (d : F) {is : List ℕ}
    (his : ∀ i ∈ is, j ≤ i) :
    SameLower (is.foldl (fun m i => m.poke i j (multiplier m j i d)) a)
      (is.foldl (fun m i => m.poke i j (multiplier m j i d)) b) := by
  induction is generalizing a b with
  | nil => exact h
  | cons i is ih =>
    obtain ⟨hji, hrest⟩ := List.forall_mem_cons.mp his
    rw [List.foldl_cons, List.foldl_cons, h.multiplier_eq hji]
    exact ih (h.poke i j _) hrest

variable [Functions F]

theorem eliminate (h : SameLower a b) (op : String) (j : ℕ) :
    Outcome.Rel SameLower (Factorization.eliminate op a j) (Factorization.eliminate op b j) := by
  unfold Factorization.eliminate
  rw [h.pivot_eq j, h.rows]
  dsimp only
  split
  · exact .error _
  · refine .ok ((h.poke j j _).foldl_multiplier j _ fun i hi => ?_)
    have hji : j + 1 ≤ i := (List.mem_range'_1.mp hi).1
    omega

theorem foldlM_eliminate (h : SameLower a b) (op : String) (js : List ℕ) :
    Outcome.Rel SameLower (js.foldlM (Factorization.eliminate op) a)
      (js.foldlM (Factorization.eliminate op) b) := by
  induction js generalizing a b with
  | nil => exact .ok h
  | cons j js ih =>
    rw [List.foldlM_cons, List.foldlM_cons]
    exact (h.eliminate op j).bind fun a b h => ih h

theorem ofMatrix (h : SameLower a b) (op : String) :
    Outcome.Rel (fun f g => SameLower f.packed g.packed) (Factorization.ofMatrix op a)
      (Factorization.ofMatrix op b) := by
  unfold Factorization.ofMatrix Matrix.isSquare
  rw [h.rows, h.cols]
  split
  · exact (h.foldlM_eliminate op _).bind fun a b h => .ok h
  · exact .error _

end SameLower

variable (h : SameLower f.packed g.packed)
include h

theorem solveLower_congr (x : Array F) : f.solveLower x = g.solveLower x := by
  unfold solveLower dim
  rw [h.rows]
  refine List.foldl_ext _ _ _ fun x i _ => ?_
  refine congrArg (x.setIfInBounds i) (List.foldl_ext _ _ _ fun s k hk => ?_)
  have hk : k < i := List.mem_range.mp hk
  rw [h.peek_eq hk.le]

theorem solveDiagonal_congr (y : Array F) : f.solveDiagonal y = g.solveDiagonal y := by
  unfold solveDiagonal
  refine congrArg (Array.mapIdx · y) (funext fun i => funext fun s => ?_)
  rw [h.peek_eq (le_refl i)]

theorem solveUpper_congr (z : Array F) : f.solveUpper z = g.solveUpper z := by
  unfold solveUpper dim
  rw [h.rows]
  refine List.foldl_ext _ _ _ fun x i _ => ?_
  refine congrArg (x.setIfInBounds i) (List.foldl_ext _ _ _ fun s k hk => ?_)
  have hik : i + 1 ≤ k := (List.mem_range'_1.mp hk).1
  rw [h.peek_eq (by omega)]

theorem sameAnswers : SameAnswers f g := by
  have hsolve : ∀ b, f.solveVector b = g.solveVector b := by
    intro b
    have hdim : f.dim = g.dim := h.rows
    unfold solveVector
    rw [hdim, solveLower_congr h, solveDiagonal_congr h, solveUpper_congr h]
  refine ⟨h.rows, ?_, hsolve, fun b => ?_⟩
  · unfold diagonal dim
    rw [h.rows]
    exact List.map_congr_left fun i _ => h.peek_eq (le_refl i)
  · unfold solveMatrix
    simp only [hsolve]

end Reading

section Exact

variable {F : Type} [Field F]

def mirror (a : Matrix F) : Matrix F := .ofFn a.rows a.rows fun i j => mirrored a i j

theorem peek_column (x : List F) {i : ℕ} (hi : i < x.length) :
    (Matrix.column x).peek i 0 = x.getD i 0 := by
  rw [Matrix.peek_eq_get _ hi Nat.zero_lt_one]
  simp [Matrix.column, Matrix.get, hi]

theorem length_solution (f : Factorization F) (b : List F) :
    (f.solution b).length = b.length := by
  have hlower : (f.solveLower b.toArray).size = b.length := size_substitute _ _
  have hdiagonal : (f.solveDiagonal (f.solveLower b.toArray)).size = b.length :=
    Array.size_mapIdx.trans hlower
  exact (size_substitute _ _).trans hdiagonal

theorem columnAt_solveMatrix {f : Factorization F} {b x : Matrix F} (hb : b.rows = f.dim)
    (hx : f.solveMatrix b = .ok x) {j : ℕ} (hj : j < b.cols) : f.solveVector (b.columnAt j) = .ok (x.columnAt j) := by
  have hlength : (b.columnAt j).length = f.dim := (b.length_columnAt j).trans hb
  have hlength' : (f.solution (b.columnAt j)).length = b.rows :=
    (f.length_solution _).trans (b.length_columnAt j)
  have hshape : x.rows = b.rows ∧ ∀ i < b.rows, x.peek i j =
      (f.solution (b.columnAt j)).getD i 0 := by
    rw [solveMatrix_eq hb] at hx
    obtain rfl := Except.ok.inj hx
    exact ⟨rfl, fun i hi => Matrix.peek_ofFn _ hi hj⟩
  rw [f.solveVector_eq hlength]
  refine congrArg Except.ok (List.ext_getElem ?_ fun i hi _ => ?_)
  · rw [hlength', Matrix.length_columnAt, hshape.1]
  · rw [Matrix.getElem_columnAt, hshape.2 i (hlength' ▸ hi), List.getD_eq_getElem _ _ hi]

section Equation

variable [Functions F]

/-- The equation `A x = b` coordinate by coordinate. -/
theorem multiply_mirror_column_iff {a : Matrix F} {x b : List F} :
    Matrix.multiply plain (mirror a) (.column x) = .ok (.column b) ↔
      x.length = a.rows ∧ b.length = a.rows ∧ ∀ i < a.rows,
        ∑ k ∈ range a.rows, mirrored a i k * x.getD k 0 = b.getD i 0 := by
  have hentry : x.length = a.rows → ∀ i < a.rows,
      ((mirror a).product (.column x)).peek i 0 =
        ∑ k ∈ range a.rows, mirrored a i k * x.getD k 0 := by
    intro hx i hi
    rw [Matrix.peek_product]
    refine Finset.sum_congr rfl fun k hk => ?_
    have hk : k < a.rows := mem_range.mp hk
    rw [mirror, Matrix.peek_ofFn _ hi hk, peek_column x (hx ▸ hk)]
  rw [Matrix.multiply_plain_eq_ok_iff]
  constructor
  · rintro ⟨hinner, hproduct⟩
    have hx : x.length = a.rows := hinner.symm
    have hb : b.length = a.rows := (congrArg Matrix.rows hproduct).symm
    refine ⟨hx, hb, fun i hi => ?_⟩
    rw [← hentry hx i hi, hproduct, peek_column b (hb ▸ hi)]
  · rintro ⟨hx, hb, h⟩
    refine ⟨hx.symm, Matrix.eq_of_peek hb.symm rfl fun i j hi hj => ?_⟩
    have hi : i < a.rows := hi
    obtain rfl : j = 0 := Nat.lt_one_iff.mp hj
    rw [hentry hx i hi, h i hi, peek_column b (hb ▸ hi)]

end Equation

variable [LinearOrder F] [Functions F] [ExactOrderedField F]

theorem eliminated_of_ofMatrix {op : String} {a : Matrix F} {f : Factorization F}
    (h : ofMatrix op a = .ok f) : Eliminated a a.rows f.packed := by
  by_cases hsquare : a.rows = a.cols
  · have hof : ofMatrix op a = ((List.range a.rows).foldlM (eliminate op) a).map .mk :=
      if_pos (beq_iff_eq.mpr hsquare)
    obtain ⟨m, hm, helim⟩ | ⟨k, m, -, -, -, hm⟩ := eliminated_range op hsquare (le_refl a.rows)
    · rw [hof, hm] at h
      cases h
      exact helim
    · rw [hof, hm] at h
      cases h
  · rw [ofMatrix, if_neg (by simpa [Matrix.isSquare] using hsquare)] at h
    cases h

variable {op : String} {a : Matrix F} {f : Factorization F}

theorem solution_eq (h : ofMatrix op a = .ok f) {b : List F} (hb : b.length = a.rows) :
    Matrix.multiply plain (mirror a) (.column (f.solution b)) = .ok (.column b) := by
  have helim : Eliminated a a.rows f.packed := eliminated_of_ofMatrix h
  have hdim : f.dim = a.rows := helim.rows
  refine multiply_mirror_column_iff.mpr ⟨(f.length_solution b).trans hb, hb, fun i hi => ?_⟩
  rw [← hdim]
  refine solution_spec ?_ (fun t ht => (helim.positive t (hdim ▸ ht)).ne') (hb.trans hdim.symm)
    (hdim ▸ hi)
  rw [hdim]
  exact helim.decomposition (le_refl _) (mirrors_mirrored a)

theorem solveMatrix_exact (h : ofMatrix op a = .ok f) {b : Matrix F} (hb : b.rows = a.rows) :
    ∃ x, f.solveMatrix b = .ok x ∧ Matrix.multiply plain (mirror a) x = .ok b := by
  have helim : Eliminated a a.rows f.packed := eliminated_of_ofMatrix h
  have hdim : f.dim = a.rows := helim.rows
  obtain ⟨x, hx, hrows, hcols, hentry⟩ := solveMatrix_spec (f := f)
    (hdim ▸ helim.decomposition (le_refl _) (mirrors_mirrored a))
    (fun t ht => (helim.positive t (hdim ▸ ht)).ne') (b := b) (hb.trans hdim.symm)
  refine ⟨x, hx, Matrix.multiply_plain_eq (hrows.trans hb).symm hb (hcols ▸ rfl) ?_⟩
  intro i j hi hj
  have hi : i < a.rows := hi
  rw [← hentry i j (hb ▸ hi) (hcols ▸ hj), hdim]
  refine Finset.sum_congr rfl fun k hk => ?_
  rw [mirror, Matrix.peek_ofFn _ hi (mem_range.mp hk)]

variable [IsStrictOrderedRing F]

theorem solution_unique (h : ofMatrix op a = .ok f) {b x y : List F}
    (hx : Matrix.multiply plain (mirror a) (.column x) = .ok (.column b))
    (hy : Matrix.multiply plain (mirror a) (.column y) = .ok (.column b)) : y = x := by
  have hdef : PositiveDefinite a.rows (mirrored a) :=
    (eliminated_of_ofMatrix h).positiveDefinite (le_refl _) (mirrors_mirrored a)
  obtain ⟨hxlen, -, hx⟩ := multiply_mirror_column_iff.mp hx
  obtain ⟨hylen, -, hy⟩ := multiply_mirror_column_iff.mp hy
  have hsame : ∀ i < a.rows, y.getD i 0 = x.getD i 0 :=
    hdef.solution_unique fun i hi => (hy i hi).trans (hx i hi).symm
  refine List.ext_getElem (hylen.trans hxlen.symm) fun i hiy hix => ?_
  have hi := hsame i (hxlen ▸ hix)
  rwa [List.getD_eq_getElem _ _ hiy, List.getD_eq_getElem _ _ hix] at hi

/-- In exact arithmetic the solves of a factored matrix give the only solutions, column by column.
In any arithmetic two matrices with one lower triangle get the same error or the same answers. -/
theorem solves_from_lower (op : String) :
    (∀ (a : Matrix F) (f : Factorization F), ofMatrix op a = .ok f →
      (∀ b : List F, b.length = a.rows → ∃ x, f.solveVector b = .ok x ∧
        Matrix.multiply plain (mirror a) (.column x) = .ok (.column b) ∧
        ∀ y, Matrix.multiply plain (mirror a) (.column y) = .ok (.column b) → y = x) ∧
      ∀ b : Matrix F, b.rows = a.rows → ∃ x, f.solveMatrix b = .ok x ∧
        Matrix.multiply plain (mirror a) x = .ok b ∧
        ∀ j < b.cols, f.solveVector (b.columnAt j) = .ok (x.columnAt j)) ∧
    ∀ {G : Type} [Arith G] [Functions G] (a b : Matrix G), SameLower a b →
      Outcome.Rel SameAnswers (ofMatrix op a) (ofMatrix op b) := by
  refine ⟨fun a f h => ⟨fun b hb => ?_, fun b hb => ?_⟩, fun a b h => ?_⟩
  · have hdim : f.dim = a.rows := (eliminated_of_ofMatrix h).rows
    have hsolves := solution_eq h hb
    exact ⟨f.solution b, f.solveVector_eq (hb.trans hdim.symm), hsolves,
      fun y hy => solution_unique h hsolves hy⟩
  · have hdim : f.dim = a.rows := (eliminated_of_ofMatrix h).rows
    obtain ⟨x, hx, hsolves⟩ := solveMatrix_exact h hb
    exact ⟨x, hx, hsolves, fun j hj => columnAt_solveMatrix (hb.trans hdim.symm) hx hj⟩
  · exact (h.ofMatrix op).mono fun f g h => sameAnswers h

end Exact

def skewed (corner : ℚ) : Matrix ℚ := ⟨2, 2, #v[1, corner, 2, 5]⟩

theorem sameLower_skewed (x y : ℚ) : SameLower (skewed x) (skewed y) where
  rows := rfl
  cols := rfl
  entry i j hji hi := by
    have hi : i < 2 := hi
    obtain ⟨rfl, rfl⟩ | ⟨rfl, rfl⟩ | ⟨rfl, rfl⟩ :
        i = 0 ∧ j = 0 ∨ i = 1 ∧ j = 0 ∨ i = 1 ∧ j = 1 := by
      omega
    all_goals rfl

theorem solves_from_lower_skewed :
    ofMatrix "ldlt" (skewed 7) = .ok ⟨⟨2, 2, #v[1, 7, 2, 1]⟩⟩ ∧
      (∀ y, Matrix.multiply plain (mirror (skewed 7)) (.column y) = .ok (.column [1, 4]) →
        y = [-3, 2]) ∧
      SameLower (skewed 7) (skewed (-5)) ∧
      Outcome.Rel SameAnswers (ofMatrix "ldlt" (skewed 7)) (ofMatrix "ldlt" (skewed (-5))) := by
  have hfactor : ofMatrix "ldlt" (skewed 7) = .ok ⟨⟨2, 2, #v[1, 7, 2, 1]⟩⟩ := by
    cbv
  have hsolution : solution ⟨⟨2, 2, #v[1, 7, 2, 1]⟩⟩ [(1 : ℚ), 4] = [-3, 2] := by
    decide +kernel
  obtain ⟨hexact, hlower⟩ := solves_from_lower (F := ℚ) "ldlt"
  obtain ⟨x, hx, -, hunique⟩ := (hexact _ _ hfactor).1 [1, 4] rfl
  obtain rfl : [-3, 2] = x := hsolution.symm.trans (Except.ok.inj hx)
  exact ⟨hfactor, hunique, sameLower_skewed 7 (-5), hlower _ _ (sameLower_skewed 7 (-5))⟩

end Factorization

end Autodiff
