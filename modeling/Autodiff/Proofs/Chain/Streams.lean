import Mathlib.Data.Nat.Notation
import Autodiff.Chain.Streams
import Autodiff.Proofs.Stateful

set_option autoImplicit false

namespace Autodiff

variable {F W : Type}

namespace Stream

def Fits (s : Stream W) (n : ℕ) : Prop := ∀ width, s.width = some width → width = n

theorem fits_or_bound (s : Stream W) (n : ℕ) :
    s.Fits n ∨ ∃ width, s.width = some width ∧ width ≠ n := by
  cases h : s.width with
  | none => exact .inl fun width hw => by simp [h] at hw
  | some width =>
    by_cases hn : width = n
    · exact .inl fun width' hw => by simp_all
    · exact .inr ⟨width, rfl, hn⟩

theorem bind_fits {op : String} {n : ℕ} {s : Stream W} (h : s.Fits n) :
    (bind op n : Writing F (Stream W) Unit) s = (.ok (), ⟨s.sink, some n⟩) := by
  obtain ⟨sink, width⟩ := s
  rw [bind, run_bind, run_get]
  cases width with
  | none => rfl
  | some width =>
    obtain rfl : width = n := h width rfl
    simp [run_pure]

theorem bind_bound {op : String} {n width : ℕ} {s : Stream W} (h : s.width = some width)
    (hn : width ≠ n) :
    (bind op n : Writing F (Stream W) Unit) s =
      (.error (.sizeMismatch op "row width" n "bound columns" width), s) := by
  rw [bind, run_bind, run_get]
  simp only [h, if_neg hn]
  rfl

variable [Sink F W]

def headed (names : List String) (s : Stream W) : Stream W :=
  ⟨Sink.writeHeader names s.sink, some names.length⟩

def extended (s : Stream W) (row : List F) : Stream W :=
  ⟨Sink.writeRow row s.sink, some row.length⟩

theorem writeHeader_fits {op : String} {names : List String} {s : Stream W}
    (h : s.Fits names.length) :
    (writeHeader op names : Writing F (Stream W) Unit) s = (.ok (), s.headed names) := by
  rw [writeHeader, run_bind, bind_fits h]
  rfl

theorem writeHeader_bound {op : String} {names : List String} {s : Stream W} {width : ℕ}
    (h : s.width = some width) (hn : width ≠ names.length) :
    (writeHeader op names : Writing F (Stream W) Unit) s =
      (.error (.sizeMismatch op "row width" names.length "bound columns" width), s) := by
  rw [writeHeader, run_bind, bind_bound h hn]

theorem writeRow_fits {op : String} {row : List F} {s : Stream W} (h : s.Fits row.length) :
    (writeRow op row : Writing F (Stream W) Unit) s = (.ok (), s.extended row) := by
  rw [writeRow, run_bind, bind_fits h]
  rfl

theorem writeRow_bound {op : String} {row : List F} {s : Stream W} {width : ℕ}
    (h : s.width = some width) (hn : width ≠ row.length) :
    (writeRow op row : Writing F (Stream W) Unit) s =
      (.error (.sizeMismatch op "row width" row.length "bound columns" width), s) := by
  rw [writeRow, run_bind, bind_bound h hn]

theorem rows_foldl_extended (t : Stream (Table F)) (rows : List (List F)) :
    (rows.foldl extended t).sink.rows = t.sink.rows ++ rows := by
  induction rows generalizing t with
  | nil => exact (List.append_nil _).symm
  | cons row rows ih =>
    rw [List.foldl_cons, ih]
    simp [extended, Sink.writeRow]

end Stream

namespace Streams

variable {D : Type} {s : Streams W D} {state : ChainState F} {report : KernelReport F} {width : ℕ}

section Sample

variable [Sink F W]

theorem writeSampleRow_fits (h : s.sample.Fits (sampleRow state report).length) :
    (writeSampleRow state report : Writing F (Streams W D) Unit) s =
      (.ok (), { s with sample := s.sample.extended (sampleRow state report) }) := by
  rw [writeSampleRow, onSample, Stream.writeRow_fits h]

theorem writeSampleRow_bound (h : s.sample.width = some width)
    (hn : width ≠ (sampleRow state report).length) :
    (writeSampleRow state report : Writing F (Streams W D) Unit) s =
      (.error (.sizeMismatch "write_sample_params" "row width" (sampleRow state report).length
        "bound columns" width), s) := by
  rw [writeSampleRow, onSample, Stream.writeRow_bound h hn]

end Sample

section Diagnostic

variable [Sink F D]

theorem writeDiagnosticRow_fits (h : s.diagnostic.Fits (diagnosticRow state report).length) :
    (writeDiagnosticRow state report : Writing F (Streams W D) Unit) s =
      (.ok (), { s with diagnostic := s.diagnostic.extended (diagnosticRow state report) }) := by
  rw [writeDiagnosticRow, onDiagnostic, Stream.writeRow_fits h]

theorem writeDiagnosticRow_bound (h : s.diagnostic.width = some width)
    (hn : width ≠ (diagnosticRow state report).length) :
    (writeDiagnosticRow state report : Writing F (Streams W D) Unit) s =
      (.error (.sizeMismatch "write_diagnostic_params" "row width"
        (diagnosticRow state report).length "bound columns" width), s) := by
  rw [writeDiagnosticRow, onDiagnostic, Stream.writeRow_bound h hn]

end Diagnostic

end Streams

end Autodiff
