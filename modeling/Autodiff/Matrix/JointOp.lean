import Autodiff.Dual.Basic
import Autodiff.Matrix.Basic

set_option autoImplicit false

namespace Autodiff

/-- `partials input output k l i j` is the derivative of entry `(k, l)` of the output by entry
`(i, j)` of the input, given that `value input` is `output`. -/
structure JointOp (F : Type) where
  name : String
  value : Matrix F → Outcome F (Matrix F)
  partials : Matrix F → Matrix F → Nat → Nat → Nat → Nat → F

namespace JointOp

variable {F : Type}

def block (op : JointOp F) (input output : Matrix F) (k l : Nat) : Matrix F :=
  .ofFn input.rows input.cols fun i j => op.partials input output k l i j

def eval (op : JointOp F) (input : Matrix F) : Outcome F (Matrix F) := op.value input

variable [Arith F]

def tangent (block : Matrix F) (input : Matrix (Dual F)) : F :=
  (block.toList.zip input.toList).foldl (fun acc (p, d) => acc + p * d.tangent) 0

def onDuals (op : JointOp F) (input : Matrix (Dual F)) : Outcome F (Matrix (Dual F)) := do
  let values := input.map Dual.value
  let output ← op.value values
  return .ofFn output.rows output.cols fun k l =>
    ⟨output.get k l, tangent (op.block values output k l) input⟩

end JointOp

end Autodiff
