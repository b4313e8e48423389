import Autodiff.Matrix.Inverse
import Autodiff.Program.Interpretation

set_option autoImplicit false

namespace Autodiff

/-- What a type `D` of column-major matrices offers. -/
structure Columnar (α D : Type) where
  rows : D → Nat
  cols : D → Nat
  /-- Entries column by column. -/
  storage : (d : D) → Vector α (cols d * rows d)
  get : (d : D) → Fin (rows d) → Fin (cols d) → α
  /-- Takes the entries row by row. -/
  ofRows : (rows cols : Nat) → Vector α (rows * cols) → D

namespace Columnar

variable {F α D : Type} {m : Type → Type}

def toMatrix (t : Columnar α D) (d : D) : Matrix α := .ofFn (t.rows d) (t.cols d) (t.get d)

def ofMatrix (t : Columnar α D) (a : Matrix α) : D := t.ofRows a.rows a.cols a.data

def inverse [Arith F] [Functions F] [Monad m] (t : Columnar α D) (I : Interpretation F α m)
    (tolerance : F) (d : D) : m D := do
  return t.ofMatrix (← I.applyJoint (Matrix.inverse tolerance) (t.toMatrix d))

end Columnar

structure ColumnMajor (α : Type) where
  rows : Nat
  cols : Nat
  data : Vector α (cols * rows)

namespace ColumnMajor

variable {α : Type}

def get (m : ColumnMajor α) (i : Fin m.rows) (j : Fin m.cols) : α :=
  have h := Matrix.flat_lt j.isLt i.isLt
  m.data[j.val * m.rows + i.val]

def toList (m : ColumnMajor α) : List α := m.data.toList

/-- Takes the entries row by row: the `k`-th one goes to row `k / cols` and column `k % cols`. -/
def ofRows (rows cols : Nat) (entries : Vector α (rows * cols)) : ColumnMajor α :=
  ⟨rows, cols, .ofFn fun k =>
    let j := Matrix.rowOf k
    let i := Matrix.colOf k
    have h := Matrix.flat_lt i.isLt j.isLt
    entries[i.val * cols + j.val]⟩

def columnar : Columnar α (ColumnMajor α) where
  rows := rows
  cols := cols
  storage := data
  get := get
  ofRows := ofRows

def ofMatrix (m : Matrix α) : ColumnMajor α := columnar.ofMatrix m

def toMatrix (m : ColumnMajor α) : Matrix α := columnar.toMatrix m

end ColumnMajor

end Autodiff
