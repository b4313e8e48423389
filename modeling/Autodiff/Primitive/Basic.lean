import Autodiff.Dual.Basic
import Autodiff.Failure

set_option autoImplicit false

namespace Autodiff

/-- `partials xs y` is the gradient at `xs`, given that `value xs` is `y`. -/
structure Primitive (F : Type) where
  name : String
  arity : Nat
  value : Vector F arity → Outcome F F
  partials : Vector F arity → F → Vector F arity

namespace Primitive

variable {F α : Type}

def operands (p : Primitive F) (args : List α) : Outcome F (Vector α p.arity) :=
  if h : args.length = p.arity then .ok ⟨args.toArray, h⟩
  else .error (.fault (.arity p.name p.arity args.length))

def eval (p : Primitive F) (args : List F) : Outcome F F := do
  let xs ← p.operands args
  p.value xs

def tangent [Arith F] {n : Nat} (partials : Vector F n) (args : Vector (Dual F) n) : F :=
  (Vector.zip partials args).foldl (fun acc (p, d) => acc + p * d.tangent) 0

def onDuals [Arith F] (p : Primitive F) (args : List (Dual F)) : Outcome F (Dual F) := do
  let ds ← p.operands args
  let xs := ds.map Dual.value
  let y ← p.value xs
  return ⟨y, tangent (p.partials xs y) ds⟩

def gradient (p : Primitive F) (args : List F) (y : F) : Outcome F (List F) := do
  let xs ← p.operands args
  return (p.partials xs y).toList

end Primitive

end Autodiff
