import Autodiff.Matrix.Concatenation
import Autodiff.Tape.Operators

/-!
# Scalar kinds

One numeric program runs on plain numbers, on dual numbers and on variables of the tape. An
`Interpretation` says what the scalar operations do for one kind.
-/

set_option autoImplicit false

namespace Autodiff

/-- `F` is the base number, `S` the scalar kind and `m` the effect of its operations. -/
structure Interpretation (F S : Type) (m : Type → Type) where
  const : F → S
  value : S → F
  gt : S → S → Bool
  add : S → S → m S
  sub : S → S → m S
  mul : S → S → m S
  div : S → S → m S
  neg : S → m S
  apply : Primitive F → List S → m S
  applyJoint : JointOp F → Matrix S → m (Matrix S)
  ofOutcome : {α : Type} → Outcome F α → m α

namespace Interpretation

variable {F S : Type} {m : Type → Type} [Arith F] [Functions F]

def plain : Interpretation F F (Outcome F) where
  const x := x
  value x := x
  gt := Functions.gt
  add x y := .ok (x + y)
  sub x y := .ok (x - y)
  mul x y := .ok (x * y)
  div x y := .ok (x / y)
  neg x := .ok (-x)
  apply := Primitive.eval
  applyJoint := JointOp.eval
  ofOutcome r := r

def forward : Interpretation F (Dual F) (Outcome F) where
  const := Dual.constant
  value := Dual.value
  gt x y := Functions.gt x.value y.value
  add x y := .ok (x + y)
  sub x y := .ok (x - y)
  mul x y := .ok (x * y)
  div x y := .ok (x / y)
  neg x := .ok (-x)
  apply := Primitive.onDuals
  applyJoint := JointOp.onDuals
  ofOutcome r := r

def recording : Interpretation F (Handle F) (Recording F) where
  const := Handle.constant
  value := Handle.value
  gt x y := Functions.gt x.value y.value
  add := Handle.add
  sub := Handle.sub
  mul := Handle.mul
  div := Handle.div
  neg := Handle.neg
  apply := Primitive.onTape
  applyJoint := JointOp.onTape
  ofOutcome := Recording.ofOutcome

omit [Functions F]

def zero (I : Interpretation F S m) : S := I.const 0

def sumM [Monad m] (I : Interpretation F S m) {α : Type} (term : α → m S) (xs : List α) : m S :=
  xs.foldlM (fun acc x => do I.add acc (← term x)) I.zero

end Interpretation

namespace Matrix

variable {F S : Type} {m : Type → Type} [Arith F] [Monad m]

/-- The product of a shape that fits; inner dimensions that differ are an error. -/
def multiply (I : Interpretation F S m) (a b : Matrix S) : m (Matrix S) :=
  if h : a.cols = b.rows then
    ofFnM a.rows b.cols fun i j =>
      I.sumM (fun k => I.mul (a.get i k) (b.get (k.cast h) j)) (List.finRange a.cols)
  else
    I.ofOutcome (.error (.error
      (.sizeMismatch "multiply" "columns of A" a.cols "rows of B" b.rows)))

/-- Both factors may fit and their product not, which is a fault. -/
def checkedMultiply (I : Interpretation F S m) (a b : Matrix S) : m (Matrix S) :=
  if a.cols = b.rows then do
    I.ofOutcome (requireFits a.rows b.cols)
    multiply I a b
  else multiply I a b

def sumSquares (I : Interpretation F S m) (a : Matrix S) : m S :=
  I.sumM (fun x => I.mul x x) a.toList

def sum (I : Interpretation F S m) (a : Matrix S) : m S := I.sumM pure a.toList

def entrywise (I : Interpretation F S m) (p : Primitive F) (a : Matrix S) : m (Matrix S) :=
  a.mapM fun x => I.apply p [x]

omit [Arith F] [Monad m]

def constant (I : Interpretation F S m) (a : Matrix F) : Matrix S := a.map I.const

def values (I : Interpretation F S m) (a : Matrix S) : Matrix F := a.map I.value

end Matrix

end Autodiff
