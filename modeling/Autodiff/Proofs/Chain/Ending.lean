import Mathlib.Data.Nat.Find
import Mathlib.Algebra.Ring.Rat
import Autodiff.Chain.Kernels
import Autodiff.Proofs.Chain.Script

set_option autoImplicit false

namespace Autodiff

variable {F σ W D : Type}

/-- What stops a round: an iteration number that is no machine word, the error of its transition, or
a stream bound to a width that the row does not have. -/
inductive Obstacle (F : Type) where
  | overflow
  | transition (cause : Failure F)
  | sampleRow (width : ℕ)
  | diagnosticRow (width : ℕ)

inductive Ending (F : Type) where
  | completed
  | stopped (m : ℕ) (why : Obstacle F)

section Endings

variable [Sink F W] [Sink F D]
variable (k : Kernel F σ) (c : RunConfig) (announce : ℕ → List (Event F))

namespace Obstacle

variable (p : σ × ChainState F) (r : ChainRun F σ W D) (m : ℕ)

def Blocks : Obstacle F → Prop
  | .overflow => ¬ c.Numbered m
  | .transition cause => c.Numbered m ∧ (k.transitionAt r.place m).result = .error cause
  | .sampleRow width => c.Numbered m ∧ (∃ state, (k.transitionAt r.place m).result = .ok state) ∧
      c.Keeps m ∧ (r.streamsAt k c m).sample.width = some width ∧
      width ≠ (k.sampleRowAt r.place m).length
  | .diagnosticRow width =>
    c.Numbered m ∧ (∃ state, (k.transitionAt r.place m).result = .ok state) ∧ c.Keeps m ∧
      (r.streamsAt k c m).sample.Fits (k.sampleRowAt r.place m).length ∧
      (r.streamsAt k c m).diagnostic.width = some width ∧
      width ≠ (k.diagnosticRowAt r.place m).length

def failure : Obstacle F → Failure F
  | .overflow => .fault .overflow
  | .transition cause => cause
  | .sampleRow width => .error (.sizeMismatch "write_sample_params" "row width"
      (k.sampleRowAt p m).length "bound columns" width)
  | .diagnosticRow width => .error (.sizeMismatch "write_diagnostic_params" "row width"
      (k.diagnosticRowAt p m).length "bound columns" width)

/-- The kernel is not asked when the iteration has no number. -/
def kernel : Obstacle F → σ
  | .overflow => (k.stage p m).1
  | .transition _ | .sampleRow _ | .diagnosticRow _ => (k.stage p (m + 1)).1

def state : Obstacle F → ChainState F
  | .overflow | .transition _ => (k.stage p m).2
  | .sampleRow _ | .diagnosticRow _ => (k.stage p (m + 1)).2

def samples : Obstacle F → List (List F)
  | .overflow | .transition _ | .sampleRow _ => []
  | .diagnosticRow _ => [k.sampleRowAt p m]

def shows : Obstacle F → List (Observation F)
  | .overflow => [.interrupt]
  | .transition _ => k.opening c announce p m
  | .sampleRow _ => k.opening c announce p m ++ [.event (.writing (c.start + m + 1))]
  | .diagnosticRow _ =>
    k.opening c announce p m ++
      [.event (.writing (c.start + m + 1)), .sampleRow (k.sampleRowAt p m)]

variable {k c announce r m}

theorem Blocks.not_passes {why : Obstacle F} (h : why.Blocks k c r m) : ¬ r.Passes k c m := by
  rintro ⟨hnumber, ⟨state, hstate⟩, hfits⟩
  cases why with
  | overflow => exact h hnumber
  | transition cause => exact absurd (hstate.symm.trans h.2) (by simp)
  | sampleRow width =>
    obtain ⟨-, -, hm, hwidth, hne⟩ := h
    exact hne ((hfits hm).1 width hwidth)
  | diagnosticRow width =>
    obtain ⟨-, -, hm, -, hwidth, hne⟩ := h
    exact hne ((hfits hm).2 width hwidth)

theorem Blocks.unique {why why' : Obstacle F} (h : why.Blocks k c r m) (h' : why'.Blocks k c r m) :
    why = why' := by
  cases why <;> cases why' <;> simp only [Blocks, Stream.Fits] at h h' <;> grind

theorem exists_blocks (h : ¬ r.Passes k c m) : ∃ why : Obstacle F, why.Blocks k c r m := by
  by_cases hnumber : c.Numbered m
  · cases hresult : (k.transitionAt r.place m).result with
    | error cause => exact ⟨.transition cause, hnumber, hresult⟩
    | ok state =>
      by_cases hm : c.Keeps m
      · rcases (r.streamsAt k c m).sample.fits_or_bound (k.sampleRowAt r.place m).length with
          hsample | ⟨width, hwidth, hne⟩
        · have hdiagnostic := (r.streamsAt k c m).diagnostic.fits_or_bound
            (k.diagnosticRowAt r.place m).length
          rcases hdiagnostic with hdiagnostic | ⟨width, hwidth, hne⟩
          · exact absurd ⟨hnumber, ⟨state, hresult⟩, fun _ => ⟨hsample, hdiagnostic⟩⟩ h
          · exact ⟨.diagnosticRow width, hnumber, ⟨state, hresult⟩, hm, hsample, hwidth, hne⟩
        · exact ⟨.sampleRow width, hnumber, ⟨state, hresult⟩, hm, hwidth, hne⟩
      · exact absurd ⟨hnumber, ⟨state, hresult⟩, fun hkeeps => absurd hkeeps hm⟩ h
  · exact ⟨.overflow, hnumber⟩

variable (k c announce r m)

def leaves (why : Obstacle F) : ChainRun F σ W D where
  kernel := why.kernel k r.place m
  streams :=
    { r.streamsAt k c m with
      sample := (why.samples k r.place m).foldl Stream.extended (r.streamsAt k c m).sample }
  state := why.state k r.place m
  trace := r.trace ++ k.script c announce r.place m ++ why.shows k c announce r.place m

variable {k c announce r m}

theorem Blocks.round_eq (hthin : c.save = true → 0 < c.thin) {why : Obstacle F}
    (h : why.Blocks k c r m) :
    ChainRun.round k c announce m (r.after k c announce m) =
      (.error (why.failure k r.place m), why.leaves k c announce r m) := by
  cases why with
  | overflow =>
    rw [ChainRun.round_overflow h]
    rfl
  | transition cause =>
    obtain ⟨hnumber, hresult⟩ := h
    have hstate : (k.stage r.place (m + 1)).2 = (k.stage r.place m).2 := by
      rw [Kernel.stage_succ, hresult]
      rfl
    rw [ChainRun.round_failed hnumber hresult]
    simp [ChainRun.within, leaves, failure, kernel, samples, state, shows, hstate]
  | sampleRow width =>
    obtain ⟨hnumber, ⟨state, hresult⟩, hm, hwidth, hne⟩ := h
    have hwrite := ChainRun.write_sample_bound (k := k)
      (r := (r.within k c announce m).shown [.event (.writing (c.start + m + 1))]) hwidth hne
    rw [ChainRun.round_moved hthin hnumber hresult, if_pos hm, hwrite]
    simp [ChainRun.shown, ChainRun.within, leaves, failure, kernel, samples, Obstacle.state, shows,
      Kernel.sampleRowAt]
  | diagnosticRow width =>
    obtain ⟨hnumber, ⟨state, hresult⟩, hm, hfits, hwidth, hne⟩ := h
    have hwrite := ChainRun.write_diagnostic_bound (k := k)
      (r := (r.within k c announce m).shown [.event (.writing (c.start + m + 1))]) hfits hwidth hne
    rw [ChainRun.round_moved hthin hnumber hresult, if_pos hm, hwrite]
    simp [ChainRun.sampled, ChainRun.shown, ChainRun.within, leaves, failure, kernel, samples,
      Obstacle.state, shows, Kernel.sampleRowAt, Kernel.diagnosticRowAt]

end Obstacle

namespace Ending

variable (p : σ × ChainState F) (r : ChainRun F σ W D)

def rounds : Ending F → ℕ
  | .completed => c.iterations
  | .stopped m _ => m

def Applies : Ending F → Prop
  | .completed => ∀ j < c.iterations, r.Passes k c j
  | .stopped m why => m < c.iterations ∧ (∀ j < m, r.Passes k c j) ∧ why.Blocks k c r m

def result : Ending F → Outcome F Unit
  | .completed => .ok ()
  | .stopped m why => .error (why.failure k p m)

def state : Ending F → ChainState F
  | .completed => (k.stage p c.iterations).2
  | .stopped m why => why.state k p m

def samples : Ending F → List (List F)
  | .completed => k.sampleRows c p c.iterations
  | .stopped m why => k.sampleRows c p m ++ why.samples k p m

def diagnostics (e : Ending F) : List (List F) := k.diagnosticRows c p (e.rounds c)

def shows : Ending F → List (Observation F)
  | .completed => k.script c announce p c.iterations
  | .stopped m why => k.script c announce p m ++ why.shows k c announce p m

/-- The sample rows without a diagnostic row of the same state. -/
def surplus : Ending F → ℕ
  | .stopped _ (.diagnosticRow _) => 1
  | _ => 0

/-- What a run that ends in this way returns, leaves behind and shows. -/
structure Describes (e : Ending F) (result : Outcome F Unit) (r' : ChainRun F σ W D) : Prop where
  result : result = e.result k r.place
  state : r'.state = e.state k c r.place
  trace : r'.trace = r.trace ++ e.shows k c announce r.place
  sample : r'.streams.sample = (e.samples k c r.place).foldl Stream.extended r.streams.sample
  diagnostic :
    r'.streams.diagnostic = (e.diagnostics k c r.place).foldl Stream.extended r.streams.diagnostic
  sampleCount : (e.samples k c r.place).length = c.keptCount (e.rounds c) + e.surplus
  diagnosticCount : (e.diagnostics k c r.place).length = c.keptCount (e.rounds c)

variable {k c announce r}

theorem Applies.rounds_le {e : Ending F} (h : e.Applies k c r) : e.rounds c ≤ c.iterations := by
  cases e with
  | completed => exact le_rfl
  | stopped m why => exact h.1.le

theorem Applies.passes {e : Ending F} (h : e.Applies k c r) : ∀ j < e.rounds c, r.Passes k c j := by
  cases e with
  | completed => exact h
  | stopped m why => exact h.2.1

theorem Applies.rounds_le_of_passes {e : Ending F} (h : e.Applies k c r) {m : ℕ}
    (hm : m ≤ c.iterations) (hpasses : ∀ j < m, r.Passes k c j) : m ≤ e.rounds c := by
  cases e with
  | completed => exact hm
  | stopped m' why => exact not_lt.mp fun hlt => h.2.2.not_passes (hpasses m' hlt)

theorem Applies.unique {e e' : Ending F} (h : e.Applies k c r) (h' : e'.Applies k c r) :
    e = e' := by
  have hrounds : e.rounds c = e'.rounds c :=
    le_antisymm (h'.rounds_le_of_passes h.rounds_le h.passes)
      (h.rounds_le_of_passes h'.rounds_le h'.passes)
  cases e with
  | completed =>
    cases e' with
    | completed => rfl
    | stopped m' why' => exact absurd h'.1 (not_lt.mpr hrounds.le)
  | stopped m why =>
    cases e' with
    | completed => exact absurd h.1 (not_lt.mpr hrounds.ge)
    | stopped m' why' =>
      obtain rfl : m = m' := hrounds
      rw [h.2.2.unique h'.2.2]

variable (k c r) in
theorem exists_applies : ∃ e : Ending F, e.Applies k c r := by
  classical
  by_cases hall : ∀ j < c.iterations, r.Passes k c j
  · exact ⟨.completed, hall⟩
  · have hex : ∃ m, m < c.iterations ∧ ¬ r.Passes k c m := by
      push Not at hall
      exact hall
    obtain ⟨hm, hnot⟩ := Nat.find_spec hex
    obtain ⟨why, hwhy⟩ := Obstacle.exists_blocks hnot
    refine ⟨.stopped (Nat.find hex) why, hm, fun j hj => ?_, hwhy⟩
    exact not_not.mp fun hj' => Nat.find_min hex hj ⟨hj.trans hm, hj'⟩

theorem Applies.describes (hthin : c.save = true → 0 < c.thin) {e : Ending F}
    (h : e.Applies k c r) :
    e.Describes k c announce r (ChainRun.rounds k c announce r).1
      (ChainRun.rounds k c announce r).2 := by
  have hdiagnosticCount := k.length_diagnosticRows hthin r.place (e.rounds c)
  cases e with
  | completed =>
    rw [ChainRun.rounds_eq hthin, ChainRun.forM_passes hthin h]
    have hsampleCount := k.length_sampleRows hthin r.place c.iterations
    exact ⟨rfl, rfl, rfl, rfl, rfl, hsampleCount, hdiagnosticCount⟩
  | stopped m why =>
    obtain ⟨hm, hpasses, hwhy⟩ := h
    rw [ChainRun.rounds_stop hthin hm hpasses (hwhy.round_eq hthin)]
    have hsampleCount := k.length_sampleRows hthin r.place m
    refine ⟨rfl, rfl, ?_, ?_, rfl, ?_, hdiagnosticCount⟩
    · simp [Obstacle.leaves, shows]
    · simp [Obstacle.leaves, samples, ChainRun.streamsAt]
    · cases why <;> simp [samples, Obstacle.samples, rounds, surplus, hsampleCount]

theorem Describes.rows {r r' : ChainRun F σ (Table F) (Table F)} {e : Ending F}
    {result : Outcome F Unit} (h : e.Describes k c announce r result r') :
    r'.streams.sample.sink.rows = r.streams.sample.sink.rows ++ e.samples k c r.place ∧
      r'.streams.diagnostic.sink.rows =
        r.streams.diagnostic.sink.rows ++ e.diagnostics k c r.place := by
  rw [h.sample, h.diagnostic]
  exact ⟨Stream.rows_foldl_extended _ _, Stream.rows_foldl_extended _ _⟩

end Ending

variable {k c announce}

/-- A run follows its script to the one ending that applies. -/
theorem script_followed (hthin : c.save = true → 0 < c.thin) (r : ChainRun F σ W D) :
    (∃! e : Ending F, e.Applies k c r) ∧
      ∀ e : Ending F, e.Applies k c r → e.Describes k c announce r
        (ChainRun.rounds k c announce r).1 (ChainRun.rounds k c announce r).2 := by
  obtain ⟨e, he⟩ := Ending.exists_applies k c r
  exact ⟨⟨e, he, fun e' he' => he'.unique he⟩, fun e' he' => he'.describes hthin⟩

end Endings

def everyThird : RunConfig := { RunConfig.fromOne 10 with thin := 3 }

def drift : ChainRun ℚ (Scripted ℚ) (Table ℚ) (Table ℚ) where
  kernel := { script := [.add [1]] }
  streams := .ofSinks {} {}
  state := ⟨[0], 0, 0⟩

theorem script_followed_drift :
    (everyThird.save = true → 0 < everyThird.thin) ∧
      (∃! e : Ending ℚ, e.Applies .scripted everyThird drift) ∧
      ∀ e : Ending ℚ, e.Applies .scripted everyThird drift →
        e.Describes .scripted everyThird (fun _ => []) drift
          (ChainRun.rounds .scripted everyThird (fun _ => []) drift).1
          (ChainRun.rounds .scripted everyThird (fun _ => []) drift).2 :=
  ⟨by decide, script_followed (by decide) drift⟩

def beyondWords : RunConfig := { iterations := 1, start := 2 ^ 64 - 1, finish := 2 ^ 64 - 1 }

/-- The transition would succeed, and the run ends before it, right after the interrupt. -/
theorem script_cut :
    (beyondWords.save = true → 0 < beyondWords.thin) ∧ beyondWords.start < UInt64.size ∧
      beyondWords.finish < UInt64.size ∧
      (Kernel.scripted.transitionAt drift.place 0).result = .ok ⟨[1], 0, 0⟩ ∧
      (ChainRun.rounds .scripted beyondWords (fun _ => []) drift).1 =
        .error (.fault .overflow) ∧
      (ChainRun.rounds .scripted beyondWords (fun _ => []) drift).2.state = drift.state ∧
      (ChainRun.rounds .scripted beyondWords (fun _ => []) drift).2.trace = [.interrupt] ∧
      Kernel.scripted.script beyondWords (fun _ => []) drift.place 1 =
        [.interrupt, .iteration (2 ^ 64), .transition drift.state,
          .event (.writing (2 ^ 64)), .sampleRow [0, 0, 1], .diagnosticRow [0, 0, 1]] := by
  have hmoved : drift.kernel.transition drift.state =
      ⟨.ok ⟨[1], 0, 0⟩, { drift.kernel with calls := 1 }, []⟩ := by
    simp [Scripted.transition, drift]
  have hresult : (Kernel.scripted.transitionAt drift.place 0).result = .ok ⟨[1], 0, 0⟩ :=
    congrArg Transition.result hmoved
  have hstate : (Kernel.scripted.stage drift.place 1).2 = ⟨[1], 0, 0⟩ := by
    rw [Kernel.stage_succ, hresult]
    rfl
  refine ⟨by decide, by decide, by decide, hresult, rfl, rfl, rfl, ?_⟩
  have hsample : Kernel.scripted.sampleRowAt drift.place 0 = [0, 0, 1] := by
    rw [Kernel.sampleRowAt, hstate]
    rfl
  have hdiagnostic : Kernel.scripted.diagnosticRowAt drift.place 0 = [0, 0, 1] := by
    rw [Kernel.diagnosticRowAt, hstate]
    rfl
  have hkeeps : beyondWords.Keeps 0 := by decide
  rw [Kernel.script_succ, Kernel.opening, Kernel.closing, if_pos hkeeps, hsample, hdiagnostic]
  rfl

end Autodiff
