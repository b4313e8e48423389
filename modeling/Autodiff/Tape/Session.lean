import Autodiff.Tape.Activation
import Autodiff.Tape.Operators

set_option autoImplicit false

namespace Autodiff

structure Session (F : Type) where
  tapes : Array (Tape F) := #[]
  activation : Activation := {}
  events : List (Event F) := []

abbrev SessionM (F : Type) := ExceptT (Failure F) (StateM (Session F))

namespace Session

variable {F α : Type}

def addTape (t : Tape F) : SessionM F Nat := fun s =>
  (.ok s.tapes.size, { s with tapes := s.tapes.push t })

def onTape (number : Nat) (r : Recording F α) : SessionM F α := fun s =>
  match s.tapes[number]? with
  | none => (.error (.fault .outOfRange), s)
  | some t =>
    let (result, recorder) := r.run.run ⟨t, s.events⟩
    (result, { s with
      tapes := s.tapes.setIfInBounds number recorder.tape
      events := recorder.events })

def onActive (r : Recording F α) : SessionM F α := do
  match (← get).activation.current with
  | none => throw (.fault .noActiveTape)
  | some number => onTape number r

def activate (number : Nat) : SessionM F Unit :=
  modify fun s => { s with activation := s.activation.activate number }

def releaseNewest : SessionM F Unit :=
  modify fun s => { s with activation := s.activation.release 0 }

end Session

end Autodiff
