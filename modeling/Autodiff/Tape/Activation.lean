set_option autoImplicit false

namespace Autodiff

/-- `saved` is the tape that was active when the guard was made. -/
structure Guard where
  tape : Nat
  saved : Option Nat
deriving DecidableEq

structure Activation where
  current : Option Nat := none
  guards : List Guard := []
deriving DecidableEq

namespace Activation

def activate (a : Activation) (tape : Nat) : Activation :=
  { current := some tape, guards := ⟨tape, a.current⟩ :: a.guards }

def release (a : Activation) (place : Nat) : Activation :=
  match a.guards[place]? with
  | some guard => { current := guard.saved, guards := a.guards.eraseIdx place }
  | none => a

def borrowed (a : Activation) : List Nat := a.guards.map Guard.tape

end Activation

inductive Precision where
  | single | double
deriving DecidableEq

structure Thread where
  single : Activation := {}
  double : Activation := {}

namespace Thread

def activation (t : Thread) : Precision → Activation
  | .single => t.single
  | .double => t.double

def update (t : Thread) (p : Precision) (f : Activation → Activation) : Thread :=
  match p with
  | .single => { t with single := f t.single }
  | .double => { t with double := f t.double }

end Thread

end Autodiff
