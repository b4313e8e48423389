import Autodiff.Event

set_option autoImplicit false

namespace Autodiff

/-- `acceptance` belongs to the transition that produced the state. -/
structure ChainState (F : Type) where
  params : List F
  logDensity : F
  acceptance : F

namespace ChainState

variable {F : Type}

def initial [Zero F] (params : List F) (logDensity : F) : ChainState F := ⟨params, logDensity, 0⟩

def dim (s : ChainState F) : Nat := s.params.length

end ChainState

structure KernelReport (F : Type) where
  names : List String := []
  params : List F := []
  withGradient : Bool := false
  gradient : Option (List F) := none

structure Transition (F σ : Type) where
  result : Outcome F (ChainState F)
  kernel : σ
  events : List (Event F) := []

structure Kernel (F σ : Type) where
  transition : σ → ChainState F → Transition F σ
  report : σ → KernelReport F

end Autodiff
