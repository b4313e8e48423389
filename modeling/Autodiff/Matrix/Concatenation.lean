import Autodiff.Matrix.Basic

set_option autoImplicit false

namespace Autodiff.Matrix

variable {F α : Type}

def hcat (a b : Matrix α) : Outcome F (Matrix α) :=
  if h : a.rows = b.rows then do
    requireFits a.rows (a.cols + b.cols)
    return ofFn a.rows (a.cols + b.cols) fun i j =>
      j.addCases (fun j => a.get i j) fun j => b.get (i.cast h) j
  else .error (.error (.sizeMismatch "append_col" "rows of A" a.rows "rows of B" b.rows))

def vcat (a b : Matrix α) : Outcome F (Matrix α) :=
  if h : a.cols = b.cols then do
    requireFits (a.rows + b.rows) a.cols
    return ofFn (a.rows + b.rows) a.cols fun i j =>
      i.addCases (fun i => a.get i j) fun i => b.get i (j.cast h)
  else .error (.error (.sizeMismatch "append_row" "columns of A" a.cols "columns of B" b.cols))

end Autodiff.Matrix
