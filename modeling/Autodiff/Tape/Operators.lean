import Autodiff.Matrix.JointOp
import Autodiff.Primitive.Basic
import Autodiff.Tape.Recording

set_option autoImplicit false

namespace Autodiff

open Recording (node unaryNode binaryNode ofOutcome)

variable {F : Type} [Arith F]

namespace Handle

def add (x y : Handle F) : Recording F (Handle F) := binaryNode .add x 1 y 1 (x.value + y.value)

def sub (x y : Handle F) : Recording F (Handle F) := binaryNode .sub x 1 y (-1) (x.value - y.value)

def mul (x y : Handle F) : Recording F (Handle F) :=
  binaryNode .mul x y.value y x.value (x.value * y.value)

def neg (x : Handle F) : Recording F (Handle F) := unaryNode .neg x (-1) (-x.value)

def addPlain (x : Handle F) (c : F) : Recording F (Handle F) := unaryNode .affine x 1 (x.value + c)

def subPlain (x : Handle F) (c : F) : Recording F (Handle F) := unaryNode .affine x 1 (x.value - c)

def mulPlain (x : Handle F) (c : F) : Recording F (Handle F) := unaryNode .affine x c (x.value * c)

/-- `c + x`, recorded as `x + c`. -/
def plainAdd (c : F) (x : Handle F) : Recording F (Handle F) := x.addPlain c

def plainSub (c : F) (x : Handle F) : Recording F (Handle F) :=
  unaryNode .affine x (-1) (c - x.value)

def plainMul (c : F) (x : Handle F) : Recording F (Handle F) := x.mulPlain c

def plainDiv (c : F) (x : Handle F) : Recording F (Handle F) :=
  let q := c / x.value
  unaryNode .affine x (-q / x.value) q

variable [Functions F]

def div (x y : Handle F) : Recording F (Handle F) :=
  let q := x.value / y.value
  binaryNode .div x (Functions.unary .reciprocal y.value) y (-q / y.value) q

def divPlain (x : Handle F) (c : F) : Recording F (Handle F) :=
  unaryNode .affine x (Functions.unary .reciprocal c) (x.value / c)

def rem (x y : Handle F) : Recording F (Handle F) :=
  let quotient := Functions.unary .trunc (x.value / y.value)
  binaryNode .rem x 1 y (-quotient) (Functions.binary .rem x.value y.value)

end Handle

omit [Arith F]

def Primitive.onTape (p : Primitive F) (args : List (Handle F)) : Recording F (Handle F) := do
  let vs ← ofOutcome (p.operands args)
  let xs := vs.map Handle.value
  let y ← ofOutcome (p.value xs)
  node (.primitive p.name) vs.toList (p.partials xs y).toList y

/-- Evaluates a joint operation and records one node for every entry of the result, each with the
whole input as operands. -/
def JointOp.onTape (op : JointOp F) (input : Matrix (Handle F)) :
    Recording F (Matrix (Handle F)) := do
  let values := input.map Handle.value
  let output ← ofOutcome (op.value values)
  Matrix.ofFnM output.rows output.cols fun k l =>
    node (.primitive op.name) input.toList (op.block values output k l).toList (output.get k l)

end Autodiff
