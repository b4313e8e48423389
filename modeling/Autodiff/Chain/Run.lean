import Autodiff.Chain.Progress
import Autodiff.Chain.Streams

set_option autoImplicit false

namespace Autodiff

/-- `start` iterations came before this run, and `finish` is the last one of all. Every `thin`-th
state is kept when `save` is set. -/
structure RunConfig where
  iterations : Nat := 0
  start : Nat := 0
  finish : Nat := 0
  thin : Nat := 1
  refresh : Nat := 100
  save : Bool := true
  warmup : Bool := false
deriving DecidableEq

namespace RunConfig

def fromOne (iterations : Nat) : RunConfig := { iterations := iterations, finish := iterations }

def number (c : RunConfig) (m : Nat) : Except Fault Nat := machineWord (c.start + m + 1)

def isKept (c : RunConfig) (m : Nat) : Except Fault Bool :=
  if !c.save then .ok false
  else if c.thin = 0 then .error .divisionByZero
  else .ok (m % c.thin == 0)

def progress (c : RunConfig) : Progress :=
  ⟨c.start, if c.warmup then c.finish else c.start, c.finish, c.refresh⟩

end RunConfig

inductive Observation (F : Type) where
  | interrupt
  | iteration (number : Nat)
  | transition (current : ChainState F)
  | sampleRow (row : List F)
  | diagnosticRow (row : List F)
  | event (e : Event F)

namespace Observation

variable {F : Type}

def isInterrupt : Observation F → Bool
  | .interrupt => true
  | _ => false

def iteration? : Observation F → Option Nat
  | .iteration number => some number
  | _ => none

def event? : Observation F → Option (Event F)
  | .event e => some e
  | _ => none

end Observation

structure ChainRun (F σ W D : Type) where
  kernel : σ
  streams : Streams W D
  state : ChainState F
  trace : List (Observation F) := []

abbrev ChainM (F σ W D : Type) := ExceptT (Failure F) (StateM (ChainRun F σ W D))

namespace ChainRun

variable {F σ W D : Type}

def observe (os : List (Observation F)) : ChainM F σ W D Unit :=
  modify fun r => { r with trace := r.trace ++ os }

def orFault {α : Type} (x : Except Fault α) : ChainM F σ W D α :=
  fun r => (x.mapError .fault, r)

def onStreams (x : Writing F (Streams W D) Unit) : ChainM F σ W D Unit := fun r =>
  let (result, streams) := x r.streams
  (result.mapError .error, { r with streams := streams })

/-- Moves the chain one step; on failure the state stays. -/
def move (k : Kernel F σ) : ChainM F σ W D Unit := do
  let r ← get
  observe [.transition r.state]
  let t := k.transition r.kernel r.state
  modify fun r => { r with kernel := t.kernel }
  observe (t.events.map .event)
  match t.result with
  | .ok state => modify fun r => { r with state := state }
  | .error e => throw e

variable [Sink F W] [Sink F D]

def write (k : Kernel F σ) : ChainM F σ W D Unit := do
  let r ← get
  let report := k.report r.kernel
  onStreams (Streams.writeSampleRow r.state report)
  observe [.sampleRow (Streams.sampleRow r.state report)]
  onStreams (Streams.writeDiagnosticRow r.state report)
  observe [.diagnosticRow (Streams.diagnosticRow r.state report)]

/-- Begins round `m`. An iteration number that is no machine word is a fault after the interrupt. -/
def enter (c : RunConfig) (m : Nat) : ChainM F σ W D Nat := do
  observe [.interrupt]
  let iteration ← orFault (c.number m)
  observe [.iteration iteration]
  return iteration

def advance (k : Kernel F σ) (c : RunConfig) (m iteration : Nat) : ChainM F σ W D Unit := do
  move k
  if ← orFault (c.isKept m) then
    observe [.event (.writing iteration)]
    write k

def round (k : Kernel F σ) (c : RunConfig) (announce : Nat → List (Event F)) (m : Nat) :
    ChainM F σ W D Unit := do
  let iteration ← enter c m
  observe ((announce iteration).map .event)
  advance k c m iteration

/-- Round `m` announced by progress lines. A line that cannot be made ends the run before the
transition. -/
def roundWithProgress (k : Kernel F σ) (c : RunConfig) (m : Nat) : ChainM F σ W D Unit := do
  let iteration ← enter c m
  let lines ← orFault (c.progress.lines iteration)
  observe (lines.map fun line => .event (.progress line))
  advance k c m iteration

/-- Saving with thinning by zero is a fault before the first round. -/
def rounds (k : Kernel F σ) (c : RunConfig) (announce : Nat → List (Event F)) :
    ChainM F σ W D Unit := do
  if c.save && c.thin == 0 then throw (.fault .thinning)
  else (List.range c.iterations).forM (round k c announce)

def roundsWithProgress (k : Kernel F σ) (c : RunConfig) : ChainM F σ W D Unit := do
  if c.save && c.thin == 0 then throw (.fault .thinning)
  else (List.range c.iterations).forM (roundWithProgress k c)

end ChainRun

end Autodiff
