import Autodiff.Chain.State

/-!
# Output streams

Kept states go to two tables, samples and diagnostics. The number of columns of each is bound by the
first header or row written to it, and a later one of another width is refused.
-/

set_option autoImplicit false

namespace Autodiff

class Sink (F : outParam Type) (W : Type) where
  writeHeader : List String → W → W
  writeRow : List F → W → W

/-- A table in memory. A new header replaces the old one. -/
structure Table (F : Type) where
  names : List String := []
  rows : List (List F) := []

instance {F : Type} : Sink F (Table F) where
  writeHeader names t := { t with names := names }
  writeRow row t := { t with rows := t.rows ++ [row] }

structure Discard (F : Type) where

instance {F : Type} : Sink F (Discard F) where
  writeHeader _ d := d
  writeRow _ d := d

/-- A computation that writes. What it has done before a refusal stays done. -/
abbrev Writing (F S : Type) := ExceptT (EvalError F) (StateM S)

structure Stream (W : Type) where
  sink : W
  width : Option Nat := none

namespace Stream

variable {F W : Type}

/-- Binds the width if it is free; another width is an error that names `op`. -/
def bind (op : String) (got : Nat) : Writing F (Stream W) Unit := do
  match (← get).width with
  | none => modify fun s => { s with width := some got }
  | some width =>
    if width = got then return ()
    else throw (.sizeMismatch op "row width" got "bound columns" width)

def modifySink (f : W → W) : Writing F (Stream W) Unit :=
  modify fun s => { s with sink := f s.sink }

variable [Sink F W]

def writeHeader (op : String) (names : List String) : Writing F (Stream W) Unit := do
  bind op names.length
  modifySink (Sink.writeHeader names)

def writeRow (op : String) (row : List F) : Writing F (Stream W) Unit := do
  bind op row.length
  modifySink (Sink.writeRow row)

end Stream

structure Streams (W D : Type) where
  sample : Stream W
  diagnostic : Stream D

namespace Streams

variable {F W D : Type}

def ofSinks (sample : W) (diagnostic : D) : Streams W D := ⟨⟨sample, none⟩, ⟨diagnostic, none⟩⟩

def fixedColumns : List String := ["lp__", "accept_stat__"]

def sampleHeader (report : KernelReport F) (params : List String) : List String :=
  fixedColumns ++ report.names ++ params

def diagnosticHeader (report : KernelReport F) (params : List String) : List String :=
  sampleHeader report params ++
    if report.withGradient then params.map ("g_" ++ ·) else []

def sampleRow (state : ChainState F) (report : KernelReport F) : List F :=
  [state.logDensity, state.acceptance] ++ report.params ++ state.params

def diagnosticRow (state : ChainState F) (report : KernelReport F) : List F :=
  sampleRow state report ++ report.gradient.getD []

def onSample (x : Writing F (Stream W) Unit) : Writing F (Streams W D) Unit := fun s =>
  let (result, sample) := x s.sample
  (result, { s with sample := sample })

def onDiagnostic (x : Writing F (Stream D) Unit) : Writing F (Streams W D) Unit := fun s =>
  let (result, diagnostic) := x s.diagnostic
  (result, { s with diagnostic := diagnostic })

section Sample

variable [Sink F W]

def writeSampleHeader (report : KernelReport F) (params : List String) :
    Writing F (Streams W D) Unit :=
  onSample (Stream.writeHeader "write_sample_names" (sampleHeader report params))

def writeSampleRow (state : ChainState F) (report : KernelReport F) :
    Writing F (Streams W D) Unit :=
  onSample (Stream.writeRow "write_sample_params" (sampleRow state report))

end Sample

section Diagnostic

variable [Sink F D]

def writeDiagnosticHeader (report : KernelReport F) (params : List String) :
    Writing F (Streams W D) Unit :=
  onDiagnostic (Stream.writeHeader "write_diagnostic_names" (diagnosticHeader report params))

def writeDiagnosticRow (state : ChainState F) (report : KernelReport F) :
    Writing F (Streams W D) Unit :=
  onDiagnostic (Stream.writeRow "write_diagnostic_params" (diagnosticRow state report))

end Diagnostic

end Streams

end Autodiff
