import Mathlib
import Autodiff.Matrix.ColumnMajor
import Autodiff.Proofs.Matrix.Construction

set_option autoImplicit false

namespace Autodiff

namespace Columnar

variable {α D : Type}

def get? (t : Columnar α D) (d : D) (i j : ℕ) : Option α :=
  if h : i < t.rows d ∧ j < t.cols d then some (t.get d ⟨i, h.1⟩ ⟨j, h.2⟩) else none

theorem get?_eq_some (t : Columnar α D) (d : D) (i : Fin (t.rows d)) (j : Fin (t.cols d)) :
    t.get? d i j = some (t.get d i j) :=
  dif_pos ⟨i.isLt, j.isLt⟩

theorem isSome_get? (t : Columnar α D) (d : D) (i j : ℕ) :
    (t.get? d i j).isSome ↔ i < t.rows d ∧ j < t.cols d := by
  by_cases hij : i < t.rows d ∧ j < t.cols d <;> simp [get?, hij]

def grid (t : Columnar α D) (d : D) : Grid α := ⟨t.rows d, t.cols d, t.get? d, t.isSome_get? d⟩

/-- What the conversions rely on. -/
structure Lawful (t : Columnar α D) : Prop where
  /-- Column `j` begins at `j * rows`. -/
  indexed : ∀ (d : D) (i : Fin (t.rows d)) (j : Fin (t.cols d)),
    (t.storage d)[j.val * t.rows d + i.val]? = some (t.get d i j)
  /-- A matrix is nothing but its shape and its storage. -/
  ext : ∀ d e : D, t.rows d = t.rows e → t.cols d = t.cols e →
    (t.storage d).toList = (t.storage e).toList → d = e
  rows_ofRows : ∀ rows cols (xs : Vector α (rows * cols)), t.rows (t.ofRows rows cols xs) = rows
  cols_ofRows : ∀ rows cols (xs : Vector α (rows * cols)), t.cols (t.ofRows rows cols xs) = cols
  /-- The `k`-th entry goes to row `k / cols` and column `k % cols`. -/
  placed : ∀ rows cols (xs : Vector α (rows * cols)) k (hk : k < rows * cols),
    t.get? (t.ofRows rows cols xs) (k / cols) (k % cols) = some xs[k]

def flipped (t : Columnar α D) (d : D) : Matrix α := ⟨t.cols d, t.rows d, t.storage d⟩

theorem grid_toMatrix (t : Columnar α D) (d : D) : (t.toMatrix d).grid = t.grid d :=
  Matrix.grid_ofFn rfl rfl (t.get?_eq_some d)

namespace Lawful

variable {t : Columnar α D} (h : t.Lawful)
include h

theorem grid_flipped (d : D) : (t.flipped d).grid = (t.grid d).transpose := by
  refine Grid.ext_inside rfl rfl fun j i hj hi => ?_
  have hflipped : (t.flipped d).get? j i = (t.storage d).toList[j * t.rows d + i]? :=
    ((t.flipped d).getElem?_toList hj hi).symm
  refine hflipped.trans ?_
  rw [Vector.getElem?_toList, h.indexed d ⟨i, hi⟩ ⟨j, hj⟩]
  exact (t.get?_eq_some d ⟨i, hi⟩ ⟨j, hj⟩).symm

theorem grid_injective : Function.Injective t.grid := by
  intro d e hgrid
  have hflipped : t.flipped d = t.flipped e :=
    Matrix.grid_injective (by rw [h.grid_flipped, h.grid_flipped, hgrid])
  exact h.ext d e (congrArg Grid.rows hgrid) (congrArg Grid.cols hgrid)
    (congrArg Matrix.toList hflipped)

theorem grid_ofMatrix (a : Matrix α) : t.grid (t.ofMatrix a) = a.grid := by
  refine (Grid.ext_inside (h.rows_ofRows _ _ a.data).symm (h.cols_ofRows _ _ a.data).symm
    fun i j hi hj => ?_).symm
  have hi : i < a.rows := hi
  have hj : j < a.cols := hj
  have hplaced := h.placed a.rows a.cols a.data _ (Matrix.flat_lt hi hj)
  rw [Matrix.flat_div hj, Matrix.flat_mod hj] at hplaced
  exact (a.get?_eq_some ⟨i, hi⟩ ⟨j, hj⟩).trans hplaced.symm

theorem toMatrix_ofMatrix (a : Matrix α) : t.toMatrix (t.ofMatrix a) = a :=
  Matrix.grid_injective ((t.grid_toMatrix _).trans (h.grid_ofMatrix a))

theorem ofMatrix_toMatrix (d : D) : t.ofMatrix (t.toMatrix d) = d :=
  h.grid_injective ((h.grid_ofMatrix _).trans (t.grid_toMatrix d))

theorem grid_eq_iff {a : Matrix α} {d : D} : t.grid d = a.grid ↔
    t.rows d = a.rows ∧ t.cols d = a.cols ∧ (t.storage d).toList = a.transpose.toList := by
  have hflipped : t.grid d = a.grid ↔ t.flipped d = a.transpose := by
    rw [← Matrix.grid_injective.eq_iff, h.grid_flipped, Matrix.grid_transpose]
    exact ⟨congrArg Grid.transpose, congrArg Grid.transpose⟩
  rw [hflipped, Matrix.eq_iff_toList]
  exact and_left_comm

end Lawful

section Inverse

variable {F σ : Type} {m : Type → Type}

def SameRun (t : Columnar α D) (x : Outcome F D × σ) (y : Outcome F (Matrix α) × σ) : Prop :=
  Outcome.Rel (fun d b => t.grid d = b.grid) x.1 y.1 ∧ x.2 = y.2

variable [Arith F] [Functions F] [Monad m] [Runs F σ m]

theorem Lawful.run_inverse {t : Columnar α D} (h : t.Lawful) (I : Interpretation F α m)
    (tolerance : F) (d : D) (s : σ) :
    t.SameRun (Runs.run (t.inverse I tolerance d) s)
      (Runs.run (I.applyJoint (Matrix.inverse tolerance) (t.toMatrix d)) s) := by
  rw [inverse, Runs.run_bind]
  rcases Runs.run (I.applyJoint (Matrix.inverse tolerance) (t.toMatrix d)) s with ⟨o, s'⟩
  cases o with
  | error e => exact ⟨.error e, rfl⟩
  | ok b =>
    dsimp only
    rw [Runs.run_pure]
    exact ⟨.ok (h.grid_ofMatrix b), rfl⟩

end Inverse

structure Faithful (t : Columnar α D) : Prop where
  back : ∀ a : Matrix α, t.toMatrix (t.ofMatrix a) = a
  forth : ∀ d : D, t.ofMatrix (t.toMatrix d) = d
  entries_ofMatrix : ∀ a : Matrix α, t.grid (t.ofMatrix a) = a.grid
  entries_toMatrix : ∀ d : D, (t.toMatrix d).grid = t.grid d
  /-- What one side stores column by column is the transpose of the other side row by row. -/
  stored : ∀ (a : Matrix α) (d : D), t.grid d = a.grid ↔
    t.rows d = a.rows ∧ t.cols d = a.cols ∧ (t.storage d).toList = a.transpose.toList

theorem Lawful.faithful {t : Columnar α D} (h : t.Lawful) : t.Faithful where
  back := h.toMatrix_ofMatrix
  forth := h.ofMatrix_toMatrix
  entries_ofMatrix := h.grid_ofMatrix
  entries_toMatrix := t.grid_toMatrix
  stored _ _ := h.grid_eq_iff

/-- The conversions are faithful, and in every scalar kind an inverse computed through them runs
like the inverse of the converted matrix. -/
theorem conversions_faithful (t : Columnar α D) (h : t.Lawful) :
    t.Faithful ∧
      ∀ {F σ : Type} {m : Type → Type} [Arith F] [Functions F] [Monad m] [Runs F σ m]
        (I : Interpretation F α m) (tolerance : F) (d : D) (s : σ),
        t.SameRun (Runs.run (t.inverse I tolerance d) s)
          (Runs.run (I.applyJoint (Matrix.inverse tolerance) (t.toMatrix d)) s) :=
  ⟨h.faithful, h.run_inverse⟩

end Columnar

namespace ColumnMajor

variable {α : Type}

theorem get_ofRows (rows cols : ℕ) (xs : Vector α (rows * cols)) (i : Fin rows) (j : Fin cols) :
    some ((ofRows rows cols xs).get i j) = xs[i.val * cols + j.val]? := by
  rw [Vector.getElem?_eq_getElem (Matrix.flat_lt i.isLt j.isLt)]
  simp [get, ofRows, Matrix.rowOf, Matrix.colOf, Matrix.flat_div i.isLt, Matrix.flat_mod i.isLt]

theorem lawful : (columnar : Columnar α (ColumnMajor α)).Lawful where
  indexed d i j := Vector.getElem?_eq_getElem (Matrix.flat_lt j.isLt i.isLt)
  ext d e hrows hcols hstorage := by
    -- The flipped matrix has the same three fields, two of them exchanged.
    have hflipped : columnar.flipped d = columnar.flipped e :=
      Matrix.eq_iff_toList.mpr ⟨hcols, hrows, hstorage⟩
    exact congrArg (fun a : Matrix α => ColumnMajor.mk a.cols a.rows a.data) hflipped
  rows_ofRows _ _ _ := rfl
  cols_ofRows _ _ _ := rfl
  placed rows cols xs k hk := by
    let i : Fin rows := Matrix.rowOf ⟨k, hk⟩
    let j : Fin cols := Matrix.colOf ⟨k, hk⟩
    have hplace : i.val * cols + j.val = k := Nat.div_add_mod' k cols
    have hget : columnar.get? (ofRows rows cols xs) i j = xs[i.val * cols + j.val]? :=
      (columnar.get?_eq_some (ofRows rows cols xs) i j).trans (get_ofRows rows cols xs i j)
    rw [hplace, Vector.getElem?_eq_getElem hk] at hget
    exact hget

end ColumnMajor

namespace Columnar

open ColumnMajor (columnar)
open Interpretation (plain)

def wide : Matrix ℚ := ⟨2, 3, #v[1, 2, 3, 4, 5, 6]⟩

def wideColumns : ColumnMajor ℚ := ⟨2, 3, #v[1, 4, 2, 5, 3, 6]⟩

def coupledColumns : ColumnMajor ℚ := ⟨2, 2, #v[1, 2, 2, 5]⟩

def lopsidedColumns : ColumnMajor ℚ := ⟨2, 2, #v[1, 2, 3, 1]⟩

theorem conversions_faithful_wide :
    (columnar : Columnar ℚ (ColumnMajor ℚ)).Lawful ∧
      columnar.toMatrix wideColumns = wide ∧ columnar.ofMatrix wide = wideColumns ∧
      (∃ d, columnar.inverse plain (1 / 100) coupledColumns = .ok d ∧
        columnar.get? d 0 1 = some (-2)) ∧
      columnar.inverse plain (1 / 100) lopsidedColumns =
        .error (.error (.notSymmetric "inverse_spd" 0 1 3 2)) := by
  obtain ⟨hfaithful, hinverse⟩ :=
    conversions_faithful (columnar : Columnar ℚ (ColumnMajor ℚ)) ColumnMajor.lawful
  have hrun : ∀ d : ColumnMajor ℚ, Outcome.Rel (fun d b => columnar.grid d = b.grid)
      (columnar.inverse plain (1 / 100) d)
      ((Matrix.inverse (1 / 100)).eval (columnar.toMatrix d)) :=
    fun d => (hinverse plain (1 / 100) d ()).1
  have hwide : columnar.toMatrix wideColumns = wide := by
    cbv
  have hcoupled : (Matrix.inverse (1 / 100)).eval (columnar.toMatrix coupledColumns) =
      .ok ⟨2, 2, #v[5, -2, -2, 1]⟩ := by
    cbv
  have hlopsided : (Matrix.inverse (1 / 100)).eval (columnar.toMatrix lopsidedColumns) =
      .error (.error (.notSymmetric "inverse_spd" 0 1 3 2)) := by
    cbv
  refine ⟨ColumnMajor.lawful, hwide, ?_, ?_, ?_⟩
  · rw [← hwide, hfaithful.forth]
  · obtain ⟨d, hd, hgrid⟩ := (hcoupled ▸ hrun coupledColumns).ok_right
    exact ⟨d, hd, congrArg (fun g : Grid ℚ => g.at? 0 1) hgrid⟩
  · exact (hlopsided ▸ hrun lopsidedColumns).error_right

end Columnar

end Autodiff
