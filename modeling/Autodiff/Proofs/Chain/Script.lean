import Mathlib.Algebra.Order.Floor.Div
import Autodiff.Chain.Run
import Autodiff.Proofs.Chain.Streams

set_option autoImplicit false

namespace Autodiff

variable {F σ W D : Type}

namespace RunConfig

variable (c : RunConfig)

def Keeps (m : ℕ) : Prop := c.save = true ∧ c.thin ∣ m

instance (m : ℕ) : Decidable (c.Keeps m) := inferInstanceAs (Decidable (_ ∧ _))

def Numbered (m : ℕ) : Prop := c.start + m + 1 < UInt64.size

instance (m : ℕ) : Decidable (c.Numbered m) := inferInstanceAs (Decidable (_ < _))

def kept (m : ℕ) : List ℕ := (List.range m).filter (c.Keeps ·)

def keptCount (m : ℕ) : ℕ := if c.save then m ⌈/⌉ c.thin else 0

variable {c}

theorem isKept_eq (hthin : c.save = true → 0 < c.thin) (m : ℕ) :
    c.isKept m = .ok (decide (c.Keeps m)) := by
  cases hsave : c.save with
  | false => simp [isKept, Keeps, hsave]
  | true =>
    have hpos := hthin hsave
    have hne : c.thin ≠ 0 := by omega
    by_cases hdvd : c.thin ∣ m
    · simp [isKept, Keeps, hsave, hne, hdvd, Nat.mod_eq_zero_of_dvd hdvd]
    · have hmod : m % c.thin ≠ 0 := fun h => hdvd (Nat.dvd_of_mod_eq_zero h)
      simp [isKept, Keeps, hsave, hne, hdvd, hmod]

theorem kept_succ (m : ℕ) : c.kept (m + 1) = c.kept m ++ if c.Keeps m then [m] else [] := by
  simp [kept, List.range_succ, List.filter_append, List.filter_singleton]

theorem length_kept (hthin : c.save = true → 0 < c.thin) (m : ℕ) :
    (c.kept m).length = c.keptCount m := by
  unfold keptCount
  cases hsave : c.save with
  | false => simp [kept, Keeps, hsave]
  | true =>
    have hpos := hthin hsave
    simp only [if_true, Nat.ceilDiv_eq_add_pred_div]
    induction m with
    | zero =>
      have hdiv : (0 + c.thin - 1) / c.thin = 0 := Nat.div_eq_of_lt (by omega)
      rw [hdiv]
      rfl
    | succ m ih =>
      have hpred : m + 1 + c.thin - 1 = m + c.thin - 1 + 1 := by omega
      have hsum : m + c.thin - 1 + 1 = m + c.thin := by omega
      have hdvd : c.thin ∣ m + c.thin - 1 + 1 ↔ c.thin ∣ m := by simp [hsum]
      rw [kept_succ, List.length_append, ih, hpred, Nat.succ_div]
      by_cases hm : c.thin ∣ m
      · simp [Keeps, hsave, hm, hdvd]
      · simp [Keeps, hsave, hm, hdvd]

end RunConfig

namespace Kernel

/-- One transition. On failure the state stays. -/
def advance (k : Kernel F σ) (p : σ × ChainState F) : σ × ChainState F :=
  ((k.transition p.1 p.2).kernel, (k.transition p.1 p.2).result.toOption.getD p.2)

def stage (k : Kernel F σ) (p : σ × ChainState F) : ℕ → σ × ChainState F
  | 0 => p
  | m + 1 => k.advance (k.stage p m)

variable (k : Kernel F σ)

def transitionAt (p : σ × ChainState F) (m : ℕ) : Transition F σ :=
  k.transition (k.stage p m).1 (k.stage p m).2

def sampleRowAt (p : σ × ChainState F) (m : ℕ) : List F :=
  Streams.sampleRow (k.stage p (m + 1)).2 (k.report (k.stage p (m + 1)).1)

def diagnosticRowAt (p : σ × ChainState F) (m : ℕ) : List F :=
  Streams.diagnosticRow (k.stage p (m + 1)).2 (k.report (k.stage p (m + 1)).1)

variable (c : RunConfig) (announce : ℕ → List (Event F))

def sampleRows (p : σ × ChainState F) (m : ℕ) : List (List F) :=
  (c.kept m).map (k.sampleRowAt p)

def diagnosticRows (p : σ × ChainState F) (m : ℕ) : List (List F) :=
  (c.kept m).map (k.diagnosticRowAt p)

def opening (p : σ × ChainState F) (m : ℕ) : List (Observation F) :=
  [.interrupt, .iteration (c.start + m + 1)] ++ (announce (c.start + m + 1)).map .event ++
    [.transition (k.stage p m).2] ++ (k.transitionAt p m).events.map .event

def closing (p : σ × ChainState F) (m : ℕ) : List (Observation F) :=
  if c.Keeps m then
    [.event (.writing (c.start + m + 1)), .sampleRow (k.sampleRowAt p m),
      .diagnosticRow (k.diagnosticRowAt p m)]
  else []

def script (p : σ × ChainState F) (m : ℕ) : List (Observation F) :=
  (List.range m).flatMap fun j => k.opening c announce p j ++ k.closing c p j

theorem stage_succ (p : σ × ChainState F) (m : ℕ) :
    k.stage p (m + 1) =
      ((k.transitionAt p m).kernel, (k.transitionAt p m).result.toOption.getD (k.stage p m).2) :=
  rfl

theorem sampleRows_succ {c : RunConfig} (p : σ × ChainState F) {m : ℕ} (hm : c.Keeps m) :
    k.sampleRows c p (m + 1) = k.sampleRows c p m ++ [k.sampleRowAt p m] := by
  simp [sampleRows, RunConfig.kept_succ, hm]

theorem diagnosticRows_succ {c : RunConfig} (p : σ × ChainState F) {m : ℕ} (hm : c.Keeps m) :
    k.diagnosticRows c p (m + 1) = k.diagnosticRows c p m ++ [k.diagnosticRowAt p m] := by
  simp [diagnosticRows, RunConfig.kept_succ, hm]

theorem rows_skip {c : RunConfig} (p : σ × ChainState F) {m : ℕ} (hm : ¬ c.Keeps m) :
    k.sampleRows c p (m + 1) = k.sampleRows c p m ∧
      k.diagnosticRows c p (m + 1) = k.diagnosticRows c p m := by
  simp [sampleRows, diagnosticRows, RunConfig.kept_succ, hm]

theorem length_sampleRows {c : RunConfig} (hthin : c.save = true → 0 < c.thin)
    (p : σ × ChainState F) (m : ℕ) : (k.sampleRows c p m).length = c.keptCount m := by
  rw [sampleRows, List.length_map, RunConfig.length_kept hthin]

theorem length_diagnosticRows {c : RunConfig} (hthin : c.save = true → 0 < c.thin)
    (p : σ × ChainState F) (m : ℕ) : (k.diagnosticRows c p m).length = c.keptCount m := by
  rw [diagnosticRows, List.length_map, RunConfig.length_kept hthin]

theorem script_succ (p : σ × ChainState F) (m : ℕ) :
    k.script c announce p (m + 1) =
      k.script c announce p m ++ (k.opening c announce p m ++ k.closing c p m) := by
  simp [script, List.range_succ]

end Kernel

namespace ChainRun

def place (r : ChainRun F σ W D) : σ × ChainState F := (r.kernel, r.state)

def moved (k : Kernel F σ) (r : ChainRun F σ W D) : ChainRun F σ W D where
  kernel := (k.transition r.kernel r.state).kernel
  streams := r.streams
  state := (k.transition r.kernel r.state).result.toOption.getD r.state
  trace := r.trace ++ [.transition r.state] ++ (k.transition r.kernel r.state).events.map .event

def shown (r : ChainRun F σ W D) (os : List (Observation F)) : ChainRun F σ W D :=
  { r with trace := r.trace ++ os }

theorem move_eq (k : Kernel F σ) (r : ChainRun F σ W D) :
    move k r = ((k.transition r.kernel r.state).result.map fun _ => (), r.moved k) := by
  simp only [move, observe, run_bind, run_get, run_modify]
  unfold moved
  cases h : (k.transition r.kernel r.state).result <;> rfl

theorem enter_numbered {c : RunConfig} {m : ℕ} (h : c.Numbered m) (r : ChainRun F σ W D) :
    enter c m r =
      (.ok (c.start + m + 1), r.shown [.interrupt, .iteration (c.start + m + 1)]) := by
  have hnumber : c.number m = .ok (c.start + m + 1) := machineWord_of_lt h
  simp only [enter, observe, orFault, hnumber, run_bind, run_modify, Except.mapError]
  simp [shown, run_pure]

theorem enter_overflow {c : RunConfig} {m : ℕ} (h : ¬ c.Numbered m) (r : ChainRun F σ W D) :
    enter c m r = (.error (.fault .overflow), r.shown [.interrupt]) := by
  have hnumber : c.number m = .error .overflow := machineWord_of_not_lt h
  simp only [enter, observe, orFault, hnumber, run_bind, run_modify, Except.mapError]
  rfl

variable [Sink F W] [Sink F D]

theorem write_sample_bound {k : Kernel F σ} {r : ChainRun F σ W D} {width : ℕ}
    (hwidth : r.streams.sample.width = some width)
    (hne : width ≠ (Streams.sampleRow r.state (k.report r.kernel)).length) :
    write k r = (.error (.error (.sizeMismatch "write_sample_params" "row width"
      (Streams.sampleRow r.state (k.report r.kernel)).length "bound columns" width)), r) := by
  simp only [write, onStreams, run_bind, run_get, Streams.writeSampleRow_bound hwidth hne]
  rfl

def sampled (k : Kernel F σ) (r : ChainRun F σ W D) : ChainRun F σ W D :=
  { r with
    streams.sample := r.streams.sample.extended (Streams.sampleRow r.state (k.report r.kernel))
    trace := r.trace ++ [.sampleRow (Streams.sampleRow r.state (k.report r.kernel))] }

theorem write_diagnostic_bound {k : Kernel F σ} {r : ChainRun F σ W D} {width : ℕ}
    (hfits : r.streams.sample.Fits (Streams.sampleRow r.state (k.report r.kernel)).length)
    (hwidth : r.streams.diagnostic.width = some width)
    (hne : width ≠ (Streams.diagnosticRow r.state (k.report r.kernel)).length) :
    write k r = (.error (.error (.sizeMismatch "write_diagnostic_params" "row width"
      (Streams.diagnosticRow r.state (k.report r.kernel)).length "bound columns" width)),
        r.sampled k) := by
  have hrow : (Streams.writeDiagnosticRow r.state (k.report r.kernel) :
      Writing F (Streams W D) Unit) { r.streams with
        sample := r.streams.sample.extended (Streams.sampleRow r.state (k.report r.kernel)) } = _ :=
    Streams.writeDiagnosticRow_bound hwidth hne
  simp only [write, observe, onStreams, run_bind, run_get, run_modify,
    Streams.writeSampleRow_fits hfits, Except.mapError, hrow]
  rfl

def written (k : Kernel F σ) (r : ChainRun F σ W D) : ChainRun F σ W D :=
  { r with
    streams.sample := r.streams.sample.extended (Streams.sampleRow r.state (k.report r.kernel))
    streams.diagnostic :=
      r.streams.diagnostic.extended (Streams.diagnosticRow r.state (k.report r.kernel))
    trace := r.trace ++ [.sampleRow (Streams.sampleRow r.state (k.report r.kernel)),
      .diagnosticRow (Streams.diagnosticRow r.state (k.report r.kernel))] }

theorem write_fits {k : Kernel F σ} {r : ChainRun F σ W D}
    (hsample : r.streams.sample.Fits (Streams.sampleRow r.state (k.report r.kernel)).length)
    (hdiagnostic :
      r.streams.diagnostic.Fits (Streams.diagnosticRow r.state (k.report r.kernel)).length) :
    write k r = (.ok (), r.written k) := by
  have hrow : (Streams.writeDiagnosticRow r.state (k.report r.kernel) :
      Writing F (Streams W D) Unit) { r.streams with
        sample := r.streams.sample.extended (Streams.sampleRow r.state (k.report r.kernel)) } = _ :=
    Streams.writeDiagnosticRow_fits hdiagnostic
  simp only [write, observe, onStreams, run_bind, run_get, run_modify,
    Streams.writeSampleRow_fits hsample, Except.mapError, hrow]
  simp [written]

theorem advance_failed {k : Kernel F σ} {c : RunConfig} {r : ChainRun F σ W D} {e : Failure F}
    (h : (k.transition r.kernel r.state).result = .error e) (m n : ℕ) :
    advance k c m n r = (.error e, r.moved k) := by
  rw [advance, run_bind, move_eq, h]
  rfl

theorem advance_moved {k : Kernel F σ} {c : RunConfig} {r : ChainRun F σ W D} {state : ChainState F}
    (hthin : c.save = true → 0 < c.thin) (h : (k.transition r.kernel r.state).result = .ok state)
    (m n : ℕ) :
    advance k c m n r =
      if c.Keeps m then write k ((r.moved k).shown [.event (.writing n)])
      else (.ok (), r.moved k) := by
  have hkept : (orFault (c.isKept m) : ChainM F σ W D Bool) (r.moved k) =
      (.ok (decide (c.Keeps m)), r.moved k) := by
    rw [RunConfig.isKept_eq hthin]
    rfl
  rw [advance, run_bind, move_eq, h]
  simp only [Except.map]
  rw [run_bind, hkept]
  by_cases hm : c.Keeps m
  · simp only [hm, decide_true, if_true, observe, run_bind, run_modify]
    rfl
  · simp only [hm, decide_false, if_false, Bool.false_eq_true, run_pure]

theorem round_numbered {k : Kernel F σ} {c : RunConfig} {m : ℕ} (h : c.Numbered m)
    (announce : ℕ → List (Event F)) (r : ChainRun F σ W D) :
    round k c announce m r = advance k c m (c.start + m + 1)
      (r.shown ([.interrupt, .iteration (c.start + m + 1)] ++
        (announce (c.start + m + 1)).map .event)) := by
  rw [round, run_bind, enter_numbered h]
  simp only [observe, run_bind, run_modify]
  simp [shown]

theorem round_overflow {k : Kernel F σ} {c : RunConfig} {m : ℕ} (h : ¬ c.Numbered m)
    (announce : ℕ → List (Event F)) (r : ChainRun F σ W D) :
    round k c announce m r = (.error (.fault .overflow), r.shown [.interrupt]) := by
  rw [round, run_bind, enter_overflow h]

variable (k : Kernel F σ) (c : RunConfig) (announce : ℕ → List (Event F)) (r : ChainRun F σ W D)

def streamsAt (m : ℕ) : Streams W D where
  sample := (k.sampleRows c r.place m).foldl Stream.extended r.streams.sample
  diagnostic := (k.diagnosticRows c r.place m).foldl Stream.extended r.streams.diagnostic

def after (m : ℕ) : ChainRun F σ W D where
  kernel := (k.stage r.place m).1
  streams := r.streamsAt k c m
  state := (k.stage r.place m).2
  trace := r.trace ++ k.script c announce r.place m

/-- The run within round `m` once its transition is over. -/
def within (m : ℕ) : ChainRun F σ W D where
  kernel := (k.stage r.place (m + 1)).1
  streams := r.streamsAt k c m
  state := (k.stage r.place (m + 1)).2
  trace := r.trace ++ k.script c announce r.place m ++ k.opening c announce r.place m

variable {k c announce r}

theorem moved_after (m : ℕ) :
    ((r.after k c announce m).shown ([.interrupt, .iteration (c.start + m + 1)] ++
      (announce (c.start + m + 1)).map .event)).moved k = r.within k c announce m := by
  simp [moved, shown, after, within, Kernel.opening, Kernel.stage_succ, Kernel.transitionAt]

theorem round_failed {m : ℕ} {e : Failure F} (hnumber : c.Numbered m)
    (h : (k.transitionAt r.place m).result = .error e) :
    round k c announce m (r.after k c announce m) = (.error e, r.within k c announce m) := by
  rw [round_numbered hnumber, advance_failed h, moved_after]

theorem round_moved (hthin : c.save = true → 0 < c.thin) {m : ℕ} {state : ChainState F}
    (hnumber : c.Numbered m) (h : (k.transitionAt r.place m).result = .ok state) :
    round k c announce m (r.after k c announce m) =
      if c.Keeps m then
        write k ((r.within k c announce m).shown [.event (.writing (c.start + m + 1))])
      else (.ok (), r.within k c announce m) := by
  rw [round_numbered hnumber, advance_moved hthin h, moved_after]

/-- Round `m` goes through to its end. -/
structure Passes (k : Kernel F σ) (c : RunConfig) (r : ChainRun F σ W D) (m : ℕ) : Prop where
  numbered : c.Numbered m
  moves : ∃ state, (k.transitionAt r.place m).result = .ok state
  fits : c.Keeps m →
    (r.streamsAt k c m).sample.Fits (k.sampleRowAt r.place m).length ∧
      (r.streamsAt k c m).diagnostic.Fits (k.diagnosticRowAt r.place m).length

theorem after_zero : r.after k c announce 0 = r := by
  simp [after, streamsAt, Kernel.sampleRows, Kernel.diagnosticRows, Kernel.script, RunConfig.kept,
    Kernel.stage, place]

theorem round_passes (hthin : c.save = true → 0 < c.thin) {m : ℕ} (h : r.Passes k c m) :
    round k c announce m (r.after k c announce m) = (.ok (), r.after k c announce (m + 1)) := by
  obtain ⟨hnumber, ⟨state, hstate⟩, hfits⟩ := h
  rw [round_moved hthin hnumber hstate]
  by_cases hm : c.Keeps m
  · obtain ⟨hsample, hdiagnostic⟩ := hfits hm
    have hwrite := write_fits (k := k)
      (r := (r.within k c announce m).shown [.event (.writing (c.start + m + 1))])
      hsample hdiagnostic
    simp only [hm, if_true, hwrite]
    simp [written, shown, within, after, streamsAt, Kernel.sampleRows_succ k _ hm,
      Kernel.diagnosticRows_succ k _ hm, Kernel.script_succ, Kernel.closing, hm,
      Kernel.sampleRowAt, Kernel.diagnosticRowAt]
  · obtain ⟨hsample, hdiagnostic⟩ := Kernel.rows_skip k r.place hm
    simp [hm, within, after, streamsAt, hsample, hdiagnostic, Kernel.script_succ, Kernel.closing]

theorem forM_passes (hthin : c.save = true → 0 < c.thin) {m : ℕ} (h : ∀ j < m, r.Passes k c j) :
    (List.range m).forM (round k c announce) r = (.ok (), r.after k c announce m) := by
  induction m with
  | zero =>
    rw [after_zero]
    rfl
  | succ m ih =>
    have hlast : round k c announce m (r.after k c announce m) = _ :=
      round_passes hthin (h m (Nat.lt_succ_self m))
    rw [List.range_succ, forM_append (ih fun j hj => h j (by omega))]
    change (round k c announce m >>= fun _ => pure ()) _ = _
    rw [run_bind, hlast]
    rfl

theorem rounds_eq (hthin : c.save = true → 0 < c.thin) :
    rounds k c announce r = (List.range c.iterations).forM (round k c announce) r := by
  have hcheck : (c.save && c.thin == 0) = false := by
    cases hsave : c.save with
    | false => rfl
    | true => simpa using (hthin hsave).ne'
  simp [rounds, hcheck]

/-- A run ends with the first round that fails. -/
theorem rounds_stop (hthin : c.save = true → 0 < c.thin) {m : ℕ} (hm : m < c.iterations)
    (h : ∀ j < m, r.Passes k c j) {e : Failure F} {r' : ChainRun F σ W D}
    (hround : round k c announce m (r.after k c announce m) = (.error e, r')) :
    rounds k c announce r = (.error e, r') := by
  obtain ⟨n, hn⟩ : ∃ n, c.iterations = m + (n + 1) := ⟨c.iterations - m - 1, by omega⟩
  rw [rounds_eq hthin, hn, List.range_add, forM_append (forM_passes hthin h),
    List.range_succ_eq_map, List.map_cons]
  exact forM_cons_error hround

end ChainRun

end Autodiff
