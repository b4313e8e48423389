import Autodiff.Chain.State
import Autodiff.Gradient.Evaluator

set_option autoImplicit false

namespace Autodiff

variable {F : Type}

/-- One transition of a scripted kernel. In `jump`, parameters and gradient of the report change
only where they are given. -/
inductive ScriptMove (F : Type) where
  | exhausted (capacity : Nat)
  | add (offset : List F)
  | jump (state : ChainState F) (params : Option (List F)) (gradient : Option (Option (List F)))

structure Scripted (F : Type) where
  script : List (ScriptMove F)
  report : KernelReport F := {}
  calls : Nat := 0

def Scripted.transition [Add F] (k : Scripted F) (s : ChainState F) : Transition F (Scripted F) :=
  let next := { k with calls := k.calls + 1 }
  match k.script[k.calls % k.script.length]? with
  | none => ⟨.error (.fault .divisionByZero), next, []⟩
  | some (.exhausted capacity) => ⟨.error (.error (.exhausted capacity)), next, []⟩
  | some (.add offset) =>
    ⟨.ok { s with params := List.zipWith (· + ·) s.params offset }, next, []⟩
  | some (.jump state params gradient) =>
    let report := { k.report with
      params := params.getD k.report.params
      gradient := gradient.getD k.report.gradient }
    ⟨.ok state, { next with report := report }, []⟩

def Kernel.scripted [Add F] : Kernel F (Scripted F) where
  transition := Scripted.transition
  report := Scripted.report

structure Offset (F : Type) where
  evaluator : Evaluator F
  offsets : List (List F)
  report : KernelReport F := {}
  calls : Nat := 0

/-- A refused proposal repeats the current state with acceptance zero; only errors that are no fault
of the proposal are passed on. -/
def Offset.transition [Arith F] [Functions F] (k : Offset F) (s : ChainState F) :
    Transition F (Offset F) :=
  let next := { k with calls := k.calls + 1 }
  match k.offsets[k.calls % k.offsets.length]? with
  | none => ⟨.error (.fault .divisionByZero), next, []⟩
  | some offset =>
    let proposal := List.zipWith (· + ·) s.params offset
    let e := k.evaluator.evaluate proposal
    let next := { next with evaluator := e.evaluator }
    match e.result with
    | .ok (value, gradient) =>
      ⟨.ok ⟨proposal, value, 1⟩,
        { next with report := { k.report with gradient := some gradient } }, e.events⟩
    | .error (.error cause) =>
      if cause.isRejection then ⟨.ok { s with acceptance := 0 }, next, e.events⟩
      else ⟨.error (.error cause), next, e.events⟩
    | .error (.fault cause) => ⟨.error (.fault cause), next, e.events⟩

def Kernel.offset [Arith F] [Functions F] : Kernel F (Offset F) where
  transition := Offset.transition
  report := Offset.report

end Autodiff
