import Autodiff.Event
import Autodiff.Tape.Sweep

set_option autoImplicit false

namespace Autodiff

structure Recorder (F : Type) where
  tape : Tape F
  events : List (Event F) := []

abbrev Recording (F : Type) := ExceptT (Failure F) (StateM (Recorder F))

namespace Recording

variable {F : Type}

def ofOutcome {α : Type} (r : Outcome F α) : Recording F α := fun s => (r, s)

def fault {α : Type} (cause : Fault) : Recording F α := ofOutcome (.error (.fault cause))

def error {α : Type} (cause : EvalError F) : Recording F α := ofOutcome (.error (.error cause))

def tape : Recording F (Tape F) := fun s => (.ok s.tape, s)

def modifyTape (f : Tape F → Tape F) : Recording F Unit :=
  fun s => (.ok (), { s with tape := f s.tape })

def nextEpoch : Recording F Unit := modifyTape Tape.nextEpoch

def refuse : Recording F Unit := fun s =>
  let events := if s.tape.exhausted then s.events
    else s.events ++ [.exhausted s.tape.capacity s.tape.epoch]
  (.ok (), ⟨{ s.tape with exhausted := true }, events⟩)

/-- Index of a new node, or nothing when the tape is full. Constants among the operands are dropped
with their partials, and every other operand must be older than the node. -/
def append? (kind : NodeKind) (operands : List (Option Nat)) (partials : List F) (value : F) :
    Recording F (Option Nat) := do
  if operands.length ≠ partials.length then fault (.partialCount kind.label)
  else
    let t ← tape
    if t.isFull then
      refuse
      return none
    else
      let index := t.nodes.size
      let edges := Tape.liveEdges operands partials
      match edges.find? fun (operand, _) => index ≤ operand with
      | some (operand, _) =>
        -- The operands before it are on the stacks by now.
        modifyTape (·.extend (edges.takeWhile fun (operand, _) => operand < index))
        fault (.operandOrder kind.label operand index)
      | none =>
        modifyTape (·.push kind edges value)
        return some index

def append (kind : NodeKind) (operands : List (Option Nat)) (partials : List F) (value : F) :
    Recording F Nat := do
  match ← append? kind operands partials value with
  | some index => return index
  | none => error (.exhausted (← tape).capacity)

def input (value : F) : Recording F (Handle F) := do
  let index ← append .input [] [] value
  return ⟨value, some index, (← tape).epoch⟩

/-- Records an operation. When all operands are constants, or the tape is full, the result is a
constant. -/
def node (kind : NodeKind) (args : List (Handle F)) (partials : List F) (value : F) :
    Recording F (Handle F) := do
  let t ← tape
  args.forM fun x => ofOutcome (t.requireLive x)
  if args.all Handle.isConstant then return .constant value
  else
    match ← append? kind (args.map Handle.node) partials value with
    | some index => return ⟨value, some index, t.epoch⟩
    | none => return .constant value

def unaryNode (kind : NodeKind) (x : Handle F) (dx value : F) : Recording F (Handle F) :=
  node kind [x] [dx] value

def binaryNode (kind : NodeKind) (x : Handle F) (dx : F) (y : Handle F) (dy value : F) :
    Recording F (Handle F) :=
  node kind [x, y] [dx, dy] value

variable [Arith F] [Functions F]

def seed (seeds : List (Handle F × F)) : Recording F Unit :=
  seeds.forM fun (x, w) => do
    ofOutcome ((← tape).requireLive x)
    modifyTape fun t => { t with adjoints := Tape.addSeed t.adjoints (x, w) }

def backwardFrom (seeds : List (Handle F × F)) : Recording F (List F) := do
  modifyTape Tape.clearAdjoints
  seed seeds
  modifyTape fun t => { t with adjoints := t.sweep t.adjoints }
  return (← tape).adjoints.toList

def backward (output : Handle F) : Recording F (List F) := backwardFrom [(output, 1)]

end Recording

end Autodiff
