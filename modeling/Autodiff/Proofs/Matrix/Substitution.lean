import Mathlib
import Autodiff.Proofs.Matrix.Elimination

set_option autoImplicit false

namespace Autodiff.Factorization

open Finset (range sum_range_succ mem_range)

variable {F : Type} [Field F]

theorem getD_set_self {x : Array F} {i : ℕ} (hi : i < x.size) (v : F) :
    (x.setIfInBounds i v).getD i 0 = v := by
  simp [Array.getD_eq_getD_getElem?, hi]

theorem getD_set_ne {x : Array F} {i k : ℕ} (h : i ≠ k) (v : F) :
    (x.setIfInBounds i v).getD k 0 = x.getD k 0 := by
  rw [Array.getD_eq_getD_getElem?, Array.getD_eq_getD_getElem?, Array.getElem?_setIfInBounds_ne h]

/-- Writes the coordinates `is` in order, each from the coordinates it depends on. -/
def substitute (c : ℕ → ℕ → F) (deps : ℕ → List ℕ) (is : List ℕ) (x : Array F) : Array F :=
  is.foldl (fun x i => x.setIfInBounds i
    ((deps i).foldl (fun s k => s - c i k * x.getD k 0) (x.getD i 0))) x

section Substitute

variable {c : ℕ → ℕ → F} {deps : ℕ → List ℕ}

@[simp]
theorem size_substitute (is : List ℕ) (x : Array F) : (substitute c deps is x).size = x.size := by
  induction is generalizing x with
  | nil => rfl
  | cons i is ih => exact (ih _).trans Array.size_setIfInBounds

theorem substitute_of_not_mem {is : List ℕ} {k : ℕ} (hk : k ∉ is) (x : Array F) :
    (substitute c deps is x).getD k 0 = x.getD k 0 := by
  induction is generalizing x with
  | nil => rfl
  | cons i is ih =>
    obtain ⟨hki, his⟩ := List.ne_and_not_mem_of_not_mem_cons hk
    exact (ih his _).trans (getD_set_ne (Ne.symm hki) _)

/-- No coordinate depends on itself or on one written later. -/
theorem substitute_of_mem {is : List ℕ}
    (hdeps : is.Pairwise fun i k => i ≠ k ∧ k ∉ deps i) (hself : ∀ i, i ∉ deps i) (x : Array F)
    {i : ℕ} (hi : i ∈ is) (hsize : i < x.size) :
    (substitute c deps is x).getD i 0 =
      x.getD i 0 - ((deps i).map fun k => c i k * (substitute c deps is x).getD k 0).sum := by
  induction is generalizing x with
  | nil => exact absurd hi List.not_mem_nil
  | cons j is ih =>
    obtain ⟨hlater, hrest⟩ := List.pairwise_cons.mp hdeps
    let v : F := (deps j).foldl (fun s k => s - c j k * x.getD k 0) (x.getD j 0)
    have hcons : substitute c deps (j :: is) x = substitute c deps is (x.setIfInBounds j v) := rfl
    have hjis : j ∉ is := fun h => (hlater j h).1 rfl
    obtain rfl | hmem := List.mem_cons.mp hi
    · have hv : v = x.getD i 0 - ((deps i).map fun k => c i k * x.getD k 0).sum :=
        Matrix.foldl_sub _ _ _
      rw [hcons, substitute_of_not_mem hjis, getD_set_self hsize, hv]
      congr 2
      -- What `i` depends on has its final value already.
      refine List.map_congr_left fun k hk => ?_
      have hki : k ∉ is := fun h => (hlater k h).2 hk
      have hne : i ≠ k := fun h => hself i (h ▸ hk)
      rw [substitute_of_not_mem hki, getD_set_ne hne]
    · have hne : j ≠ i := fun h => hjis (h ▸ hmem)
      rw [hcons, ih hrest _ hmem (by simpa using hsize), getD_set_ne hne]

end Substitute

variable (f : Factorization F)

theorem solveLower_spec {b : Array F} (hb : b.size = f.dim) {i : ℕ} (hi : i < f.dim) :
    ∑ k ∈ range f.dim, lower f.packed i k * (f.solveLower b).getD k 0 = b.getD i 0 := by
  have hdeps : (List.range f.dim).Pairwise fun i k => i ≠ k ∧ k ∉ List.range i := by
    refine List.pairwise_lt_range.imp fun {i k} hik => ⟨Nat.ne_of_lt hik, fun hk => ?_⟩
    have hki : k < i := List.mem_range.mp hk
    omega
  have hsolved : (f.solveLower b).getD i 0 =
      b.getD i 0 - ∑ k ∈ range i, f.packed.peek i k * (f.solveLower b).getD k 0 :=
    substitute_of_mem hdeps (fun _ => List.not_mem_range_self) b (List.mem_range.mpr hi)
      (hb ▸ hi)
  rw [sum_lower_row f.packed hi, hsolved, add_sub_cancel]

theorem solveUpper_spec {z : Array F} (hz : z.size = f.dim) {i : ℕ} (hi : i < f.dim) :
    ∑ k ∈ range f.dim, lower f.packed k i * (f.solveUpper z).getD k 0 = z.getD i 0 := by
  let deps : ℕ → List ℕ := fun i => List.range' (i + 1) (f.dim - (i + 1))
  have hmem : ∀ i k, k ∈ deps i → i < k := by
    intro i k hk
    have hbounds : i + 1 ≤ k ∧ k < i + 1 + (f.dim - (i + 1)) := List.mem_range'_1.mp hk
    omega
  have hdeps : (List.range f.dim).reverse.Pairwise fun i k => i ≠ k ∧ k ∉ deps i := by
    refine List.pairwise_reverse.mpr (List.pairwise_lt_range.imp fun {k i} hki => ?_)
    refine ⟨Nat.ne_of_gt hki, fun hk => ?_⟩
    have hik : i < k := hmem i k hk
    omega
  have hself : ∀ i, i ∉ deps i := fun i h => Nat.lt_irrefl i (hmem i i h)
  have hsolved : (f.solveUpper z).getD i 0 = z.getD i 0 -
      ∑ k ∈ Finset.Ico (i + 1) f.dim, f.packed.peek k i * (f.solveUpper z).getD k 0 :=
    substitute_of_mem (c := fun i k => f.packed.peek k i) hdeps hself z
      (List.mem_reverse.mpr (List.mem_range.mpr hi)) (hz ▸ hi)
  rw [sum_lower_column f.packed hi, hsolved, add_sub_cancel]

theorem solveDiagonal_getD (y : Array F) {i : ℕ} (hi : i < y.size) :
    (f.solveDiagonal y).getD i 0 = y.getD i 0 / f.packed.peek i i := by
  simp [solveDiagonal, Array.getD_eq_getD_getElem?, hi]

def solution (b : List F) : List F :=
  (f.solveUpper (f.solveDiagonal (f.solveLower b.toArray))).toList

theorem solveVector_eq {b : List F} (hb : b.length = f.dim) :
    f.solveVector b = .ok (f.solution b) :=
  if_pos hb

variable {f}

theorem solution_spec {a : ℕ → ℕ → F}
    (h : Decomposition f.dim a (lower f.packed) fun t => f.packed.peek t t)
    (hd : ∀ t < f.dim, f.packed.peek t t ≠ 0) {b : List F} (hb : b.length = f.dim) {i : ℕ}
    (hi : i < f.dim) :
    ∑ j ∈ range f.dim, a i j * (f.solution b).getD j 0 = b.getD i 0 := by
  let y := f.solveLower b.toArray
  let z := f.solveDiagonal y
  have hy : y.size = f.dim := (size_substitute _ _).trans hb
  have hz : z.size = f.dim := (Array.size_mapIdx).trans hy
  have hsolution : ∀ j, (f.solution b).getD j 0 = (f.solveUpper z).getD j 0 := by
    intro j
    simp [solution, y, z, Array.getD_eq_getD_getElem?, List.getD_eq_getElem?_getD]
  simp only [hsolution]
  have hright : b.toArray.getD i 0 = b.getD i 0 := by
    simp [Array.getD_eq_getD_getElem?, List.getD_eq_getElem?_getD]
  rw [← hright]
  refine h.solves (b := fun i => b.toArray.getD i 0) (y := fun t => y.getD t 0)
    (z := fun t => z.getD t 0) (fun i hi => f.solveLower_spec hb hi) (fun t ht => ?_)
    (fun t ht => f.solveUpper_spec hz ht) hi
  change f.packed.peek t t * (f.solveDiagonal y).getD t 0 = y.getD t 0
  rw [f.solveDiagonal_getD y (hy ▸ ht), mul_div_cancel₀ _ (hd t ht)]

theorem solveMatrix_eq {b : Matrix F} (hb : b.rows = f.dim) :
    f.solveMatrix b = .ok (.ofFn b.rows b.cols fun i j =>
      (f.solution ((List.range b.rows).map fun k => b.peek k j)).getD i 0) := by
  let solved : ℕ → List F := fun j => f.solution ((List.range b.rows).map fun i => b.peek i j)
  have hcolumn : ∀ j, f.solveVector ((List.range b.rows).map fun i => b.peek i j) =
      pure (solved j) :=
    fun j => f.solveVector_eq (by simpa using hb)
  have hget : ∀ j < b.cols, ((List.range b.cols).map solved).getD j [] = solved j := by
    intro j hj
    simp [List.getD_eq_getElem?_getD, hj]
  rw [solveMatrix]
  simp only [hcolumn, List.mapM_pure, pure_bind]
  change Except.ok _ = Except.ok _
  congr 2
  funext i j
  rw [hget j j.isLt]

theorem solveMatrix_spec {a : ℕ → ℕ → F}
    (h : Decomposition f.dim a (lower f.packed) fun t => f.packed.peek t t)
    (hd : ∀ t < f.dim, f.packed.peek t t ≠ 0) {b : Matrix F} (hb : b.rows = f.dim) :
    ∃ x, f.solveMatrix b = .ok x ∧ x.rows = b.rows ∧ x.cols = b.cols ∧
      ∀ i j, i < b.rows → j < b.cols →
        ∑ k ∈ range f.dim, a i k * x.peek k j = b.peek i j := by
  refine ⟨_, solveMatrix_eq hb, rfl, rfl, fun i j hi hj => ?_⟩
  let column : List F := (List.range b.rows).map fun k => b.peek k j
  have hlength : column.length = f.dim := by simpa [column] using hb
  have hright : column.getD i 0 = b.peek i j := by
    simp [column, List.getD_eq_getElem?_getD, hi]
  rw [← hright, ← solution_spec h hd hlength (hb ▸ hi)]
  refine Finset.sum_congr rfl fun k hk => ?_
  have hk : k < b.rows := hb ▸ mem_range.mp hk
  rw [Matrix.peek_ofFn _ hk hj]

end Autodiff.Factorization
