import Autodiff.Matrix.Basic

set_option autoImplicit false

namespace Autodiff

/-- The strictly lower part of `packed` holds `L`, whose diagonal is one, and the diagonal `D`. -/
structure Factorization (F : Type) where
  packed : Matrix F

namespace Factorization

open Functions (le)

variable {F : Type} [Arith F]

def pivot (m : Matrix F) (j : Nat) : F :=
  (List.range j).foldl (fun d k => d - m.peek j k * m.peek j k * m.peek k k) (m.peek j j)

def multiplier (m : Matrix F) (j i : Nat) (d : F) : F :=
  (List.range j).foldl (fun s k => s - m.peek i k * m.peek j k * m.peek k k) (m.peek i j) / d

variable [Functions F]

def eliminate (op : String) (m : Matrix F) (j : Nat) : Outcome F (Matrix F) :=
  let d := pivot m j
  if !Functions.test .finite d || le d 0 then .error (.error (.notPositiveDefinite op j d))
  else .ok ((List.range' (j + 1) (m.rows - (j + 1))).foldl
    (fun m i => m.poke i j (multiplier m j i d)) (m.poke j j d))

/-- Factors a square matrix and fails on the first pivot that is not positive and finite; a matrix
that is not square is a fault. -/
def ofMatrix (op : String) (a : Matrix F) : Outcome F (Factorization F) :=
  if a.isSquare then ((List.range a.rows).foldlM (eliminate op) a).map .mk
  else .error (.fault .shape)

omit [Functions F]

def dim (f : Factorization F) : Nat := f.packed.rows

def diagonal (f : Factorization F) : List F := (List.range f.dim).map fun i => f.packed.peek i i

def solveLower (f : Factorization F) (b : Array F) : Array F :=
  (List.range f.dim).foldl
    (fun x i => x.setIfInBounds i
      ((List.range i).foldl (fun s k => s - f.packed.peek i k * x.getD k 0) (x.getD i 0))) b

def solveDiagonal (f : Factorization F) (y : Array F) : Array F :=
  y.mapIdx fun i s => s / f.packed.peek i i

def solveUpper (f : Factorization F) (z : Array F) : Array F :=
  (List.range f.dim).reverse.foldl
    (fun x i => x.setIfInBounds i
      ((List.range' (i + 1) (f.dim - (i + 1))).foldl
        (fun s k => s - f.packed.peek k i * x.getD k 0) (x.getD i 0))) z

def solveVector (f : Factorization F) (b : List F) : Outcome F (List F) :=
  if b.length = f.dim then
    .ok (f.solveUpper (f.solveDiagonal (f.solveLower b.toArray))).toList
  else .error (.fault .shape)

def solveMatrix (f : Factorization F) (b : Matrix F) : Outcome F (Matrix F) := do
  let columns ← (List.range b.cols).mapM fun j =>
    f.solveVector ((List.range b.rows).map fun i => b.peek i j)
  return .ofFn b.rows b.cols fun i j => (columns.getD j []).getD i 0

end Factorization

end Autodiff
