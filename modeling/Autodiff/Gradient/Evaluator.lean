import Autodiff.Gradient.Basic

set_option autoImplicit false

namespace Autodiff

structure Target (F : Type) where
  dim : Nat
  density : Program F

structure Evaluator (F : Type) where
  target : Target F
  tape : Tape F := .empty
  evals : Nat := 0
  rejected : Nat := 0

structure Evaluation (F : Type) where
  result : Outcome F (F × List F)
  evaluator : Evaluator F
  events : List (Event F)

namespace Evaluator

variable {F : Type} [Arith F] [Functions F]

/-- Log density and gradient. A wrong number of parameters is a fault and no evaluation. -/
def evaluate (e : Evaluator F) (x : List F) : Evaluation F :=
  if x.length ≠ e.target.dim then ⟨.error (.fault .parameterCount), e, []⟩
  else
    let e := { e with evals := e.evals + 1 }
    let (result, recorder) := (e.target.density.recordGradient x).run.run { tape := e.tape }
    let e := { e with tape := recorder.tape }
    match result with
    | .ok y => ⟨.ok y, e, recorder.events ++ [.swept e.tape.size e.tape.epoch]⟩
    | .error (.error cause) =>
      ⟨.error (.error cause), { e with rejected := e.rejected + 1 },
        recorder.events ++ [.rejected cause e.evals]⟩
    | .error (.fault cause) => ⟨.error (.fault cause), e, recorder.events⟩

def logDensity (e : Evaluator F) (x : List F) : Outcome F F :=
  e.target.density.runScalar .plain x

def directional (e : Evaluator F) (x v : List F) : Outcome F (F × F) := do
  if x.length ≠ v.length then throw (.fault .directionLength)
  let y ← e.target.density.runScalar .forward (List.zipWith Dual.mk x v)
  return (y.value, y.tangent)

end Evaluator

end Autodiff
