import Autodiff.Program.Basic

set_option autoImplicit false

namespace Autodiff

namespace Recording

variable {F α : Type}

/-- Records `f` in a new epoch whose first nodes are the inputs. A refused recording spoils the
epoch, whatever `f` returned; only a fault of `f` goes before it. -/
def epoch (f : List (Handle F) → Recording F α) (x : List F) : Recording F α := do
  nextEpoch
  let inputs ← x.mapM input
  fun s =>
    match (f inputs).run.run s with
    -- A fault of `f` goes before a refused recording, any other outcome after it.
    | (.error (.fault cause), s) => (.error (.fault cause), s)
    | (result, s) =>
      if s.tape.exhausted then (.error (.error (.exhausted s.tape.capacity)), s) else (result, s)

variable [Arith F] [Functions F]

def valueGradient (f : List (Handle F) → Recording F (Handle F)) (x : List F) :
    Recording F (F × List F) := do
  let y ← epoch f x
  let adjoints ← backward y
  return (y.value, adjoints.take x.length)

def vjp (f : List (Handle F) → Recording F (List (Handle F))) (x w : List F) :
    Recording F (List F × List F) := do
  let ys ← epoch f x
  if ys.length ≠ w.length then fault .weightLength
  else
    let adjoints ← backwardFrom (ys.zip w)
    return (ys.map Handle.value, adjoints.take x.length)

omit [Arith F] [Functions F]

/-- Runs on a tape of its own and keeps only the result. -/
def fresh (r : Recording F α) : Outcome F α := (r.run.run { tape := .empty }).1

end Recording

namespace Forward

variable {F : Type} [Arith F]

def jvp (f : List (Dual F) → Outcome F (List (Dual F))) (x v : List F) :
    Outcome F (List F × List F) := do
  if x.length ≠ v.length then throw (.fault .tangentLength)
  let ys ← f (List.zipWith Dual.mk x v)
  return (ys.map Dual.value, ys.map Dual.tangent)

def derivative (f : Dual F → Outcome F (Dual F)) (x : F) : Outcome F (F × F) := do
  let y ← f (Dual.seed x)
  return (y.value, y.tangent)

def seededAt (x : List F) (j : Nat) : List (Dual F) :=
  x.mapIdx fun k x => if k = j then Dual.seed x else Dual.constant x

def jacobian (f : List (Dual F) → Outcome F (List (Dual F))) (x : List F) :
    Outcome F (List F × List (List F)) := do
  let ys ← f (x.map Dual.constant)
  let columns ← (List.range x.length).mapM fun j => do
    return (← f (seededAt x j)).map Dual.tangent
  return (ys.map Dual.value,
    (List.range ys.length).map fun i => columns.map fun column => column.getD i 0)

end Forward

namespace Program

open Interpretation

variable {F : Type} [Arith F] [Functions F]

def values (p : Program F) (x : List F) : Outcome F (List F) := p.run plain x

def recordGradient (p : Program F) (x : List F) : Recording F (F × List F) :=
  Recording.valueGradient (p.runScalar recording) x

def valueGradient (p : Program F) (x : List F) : Outcome F (F × List F) :=
  (p.recordGradient x).fresh

def gradient (p : Program F) (x : List F) : Outcome F (List F) := do
  return (← p.valueGradient x).2

def vjp (p : Program F) (x w : List F) : Outcome F (List F × List F) :=
  (Recording.vjp (p.run recording) x w).fresh

def jvp (p : Program F) (x v : List F) : Outcome F (List F × List F) :=
  Forward.jvp (p.run forward) x v

def derivative (p : Program F) (x : F) : Outcome F (F × F) :=
  Forward.derivative (fun x => p.runScalar forward [x]) x

def jacobian (p : Program F) (x : List F) : Outcome F (List F × List (List F)) :=
  Forward.jacobian (p.run forward) x

end Program

end Autodiff
