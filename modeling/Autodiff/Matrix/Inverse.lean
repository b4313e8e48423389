import Autodiff.Matrix.Factorization
import Autodiff.Matrix.JointOp
import Autodiff.Number.Machine

/-!
# Inverse of a positive definite matrix

The input is checked to be square and symmetric before its symmetrized form `½ (M + Mᵀ)` is
factored. With `B` the inverse, entry `(k, l)` has derivative `-½ (B_ki B_jl + B_kj B_il)` by entry
`(i, j)` of the input.
-/

set_option autoImplicit false

namespace Autodiff.Matrix

open Functions (unary gt)

variable {F : Type} [Arith F]

def half : F := 1 / (1 + 1)

def symmetrized (m : Matrix F) : Matrix F :=
  ofFn m.rows m.cols fun i j => half * (m.peek i j + m.peek j i)

def upperPairs (n : Nat) : List (Nat × Nat) :=
  (List.range n).flatMap fun i => (List.range' (i + 1) (n - (i + 1))).map fun j => (i, j)

variable [Functions F]

def asymmetric (tolerance : F) (m : Matrix F) (i j : Nat) : Bool :=
  let difference := unary .abs (m.peek i j - m.peek j i)
  Functions.test .nan difference || gt difference tolerance

def inverseName : String := "inverse_spd"

def inverseValue (tolerance : F) (m : Matrix F) : Outcome F (Matrix F) :=
  if !m.isSquare then .error (.error (.notSquare inverseName m.rows m.cols))
  else
    match (upperPairs m.rows).find? fun (i, j) => asymmetric tolerance m i j with
    | some (i, j) =>
      .error (.error (.notSymmetric inverseName i j (m.peek i j) (m.peek j i)))
    | none => do
      let factors ← Factorization.ofMatrix inverseName m.symmetrized
      factors.solveMatrix (identity m.rows)

/-- `tolerance` is the largest difference of mirrored entries still accepted as symmetric. -/
def inverse (tolerance : F) : JointOp F where
  name := inverseName
  value := inverseValue tolerance
  partials _ b k l i j := -half * (b.peek k i * b.peek j l + b.peek k j * b.peek i l)

def symmetryTolerance {α : Type} [MachineFloat α] : α := MachineFloat.ofRatio 1 (Decimal.tenPow 8)

end Autodiff.Matrix
