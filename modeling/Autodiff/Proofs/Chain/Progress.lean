import Mathlib
import Autodiff.Chain.Kernels
import Autodiff.Proofs.Chain.Lines
import Autodiff.Proofs.Chain.Script

/-!
# The progress log of a run

A run prints the lines of its first iteration, of every `refresh`-th one and of the last, in order
and once each, however it ends. A line needs the hundredfold of its iteration number as a machine
word: the log is complete exactly if that fits for every iteration to be reported.
-/

set_option autoImplicit false

namespace Autodiff

variable {F σ W D : Type}

/-! ### Which iterations are reported -/

namespace RunConfig

variable (c : RunConfig)

def Reports (m : ℕ) : Prop :=
  0 < c.refresh ∧ (m = 1 ∨ c.start + m = c.finish ∨ c.refresh ∣ m)

instance (m : ℕ) : Decidable (c.Reports m) := inferInstanceAs (Decidable (_ ∧ _))

def reportedFrom (a n : ℕ) : List ℕ :=
  ((List.range' (a + 1) n).filter (c.Reports ·)).map (c.start + ·)

def reported (begun : ℕ) : List ℕ := c.reportedFrom 0 begun

def lineOf (n : ℕ) : String := c.progress.lineAt n (100 * n / c.finish)

variable {c}

theorem reportedFrom_add (a m n : ℕ) :
    c.reportedFrom a (m + n) = c.reportedFrom a m ++ c.reportedFrom (a + m) n := by
  have hrange : List.range' (a + 1) (m + n) =
      List.range' (a + 1) m ++ List.range' (a + m + 1) n := by
    rw [← List.range'_append, Nat.one_mul, Nat.add_right_comm]
  rw [reportedFrom, hrange, List.filter_append, List.map_append]
  rfl

theorem reportedFrom_one (a : ℕ) :
    c.reportedFrom a 1 = if c.Reports (a + 1) then [c.start + a + 1] else [] := by
  by_cases h : c.Reports (a + 1)
  · simp [reportedFrom, h, Nat.add_assoc]
  · simp [reportedFrom, h]

theorem bounds_of_mem_reportedFrom {a n i : ℕ} (h : i ∈ c.reportedFrom a n) :
    c.start + a < i ∧ i ≤ c.start + a + n := by
  obtain ⟨m, hm, rfl⟩ := List.mem_map.mp h
  have hrange := List.mem_range'_1.mp (List.mem_of_mem_filter hm)
  omega

theorem hasLine_iff (a : ℕ) : c.progress.hasLine (c.start + a + 1) = true ↔ c.Reports (a + 1) := by
  have hsub : c.start + a + 1 - c.start = a + 1 := by omega
  have hlt : c.start < c.start + a + 1 := by omega
  rw [Progress.hasLine, progress, hsub, Reports, Nat.pos_iff_ne_zero, Nat.dvd_iff_mod_eq_zero,
    ← Nat.add_assoc]
  simp only [hlt, ne_eq, Bool.and_eq_true, Bool.or_eq_true, decide_eq_true_eq, beq_iff_eq,
    or_assoc, and_true]

/-- The iteration number times one hundred fits a machine word. -/
def Fits (n : ℕ) : Prop := 100 * n < UInt64.size

theorem lines_of_fits {a : ℕ} (hfinish : c.start + a + 1 ≤ c.finish)
    (hfits : ∀ n ∈ c.reportedFrom a 1, Fits n) :
    c.progress.lines (c.start + a + 1) = .ok ((c.reportedFrom a 1).map c.lineOf) := by
  have hne : c.progress.finish ≠ 0 := Nat.pos_iff_ne_zero.mp (Nat.lt_of_lt_of_le (by omega) hfinish)
  rw [reportedFrom_one] at hfits ⊢
  by_cases h : c.Reports (a + 1)
  · rw [if_pos h] at hfits ⊢
    have hsize : 100 * (c.start + a + 1) < UInt64.size := hfits _ List.mem_cons_self
    have hpercent : c.progress.percent (c.start + a + 1) =
        .ok (100 * (c.start + a + 1) / c.finish) := by
      rw [Progress.percent, if_neg hne, machineWord_of_lt hsize]
      rfl
    rw [Progress.lines, if_pos ((hasLine_iff a).mpr h), Progress.line, hpercent]
    rfl
  · rw [Progress.lines, if_neg (mt (hasLine_iff a).mp h), if_neg h]
    rfl

theorem lines_of_not_fits {a : ℕ} (hfinish : c.start + a + 1 ≤ c.finish)
    (hreports : c.Reports (a + 1)) (hfits : ¬ Fits (c.start + a + 1)) :
    c.progress.lines (c.start + a + 1) = .error .overflow := by
  have hne : c.progress.finish ≠ 0 := Nat.pos_iff_ne_zero.mp (Nat.lt_of_lt_of_le (by omega) hfinish)
  have hpercent : c.progress.percent (c.start + a + 1) = .error .overflow := by
    rw [Progress.percent, if_neg hne, machineWord_of_not_lt hfits]
    rfl
  rw [Progress.lines, if_pos ((hasLine_iff a).mpr hreports), Progress.line, hpercent]
  rfl

end RunConfig

/-! ### What a round shows -/

namespace Observation

def leadingEvents : List (Observation F) → List (Event F)
  | .event e :: os => e :: leadingEvents os
  | _ => []

/-- The events between an iteration number and the transition, with the number. -/
def announcements : List (Observation F) → List (ℕ × Event F)
  | [] => []
  | .iteration n :: os => (leadingEvents os).map (n, ·) ++ announcements os
  | _ :: os => announcements os

/-- Neither begins a round nor announces anything. -/
def Quiet (o : Observation F) : Prop := o.isInterrupt = false ∧ o.iteration? = none

theorem leadingEvents_append {xs ys : List (Observation F)} (h : leadingEvents ys = []) :
    leadingEvents (xs ++ ys) = leadingEvents xs := by
  induction xs with
  | nil => exact h
  | cons x xs ih =>
    cases x with
    | event e => exact congrArg (e :: ·) ih
    | interrupt | iteration n | transition s | sampleRow row | diagnosticRow row => rfl

theorem announcements_append (xs : List (Observation F)) {ys : List (Observation F)}
    (h : leadingEvents ys = []) :
    announcements (xs ++ ys) = announcements xs ++ announcements ys := by
  induction xs with
  | nil => rfl
  | cons x xs ih =>
    cases x with
    | iteration n =>
      change (leadingEvents (xs ++ ys)).map (n, ·) ++ announcements (xs ++ ys) = _
      rw [leadingEvents_append h, ih, ← List.append_assoc]
      rfl
    | interrupt | event e | transition s | sampleRow row | diagnosticRow row => exact ih

theorem announcements_quiet {os : List (Observation F)} (h : ∀ o ∈ os, o.Quiet) :
    announcements os = [] := by
  induction os with
  | nil => rfl
  | cons o os ih =>
    obtain ⟨ho, hos⟩ := List.forall_mem_cons.mp h
    cases o with
    | iteration n => cases ho.2
    | interrupt | event e | transition s | sampleRow row | diagnosticRow row => exact ih hos

theorem countP_interrupt_quiet {os : List (Observation F)} (h : ∀ o ∈ os, o.Quiet) :
    os.countP isInterrupt = 0 :=
  List.countP_eq_zero.mpr fun o ho => by simp [(h o ho).1]

theorem quiet_events (es : List (Event F)) : ∀ o ∈ es.map Observation.event, o.Quiet := by
  intro o ho
  obtain ⟨e, -, rfl⟩ := List.mem_map.mp ho
  exact ⟨rfl, rfl⟩

theorem leadingEvents_map_event (es : List (Event F)) {os : List (Observation F)}
    (h : leadingEvents os = []) : leadingEvents (es.map .event ++ os) = es := by
  induction es with
  | nil => exact h
  | cons e es ih => exact congrArg (e :: ·) ih

end Observation

namespace ChainRun

open Observation (announcements leadingEvents Quiet)

def Adds (P : Observation F → Prop) {α : Type} (x : ChainM F σ W D α) : Prop :=
  ∀ r, ∃ os, (x r).2.trace = r.trace ++ os ∧ ∀ o ∈ os, P o

section Adds

variable {α β : Type} {P : Observation F → Prop}

theorem adds_observe {os : List (Observation F)} (h : ∀ o ∈ os, P o) :
    Adds P (observe os : ChainM F σ W D Unit) :=
  fun _ => ⟨os, rfl, h⟩

theorem adds_silent {x : ChainM F σ W D α} (h : ∀ r, (x r).2.trace = r.trace) : Adds P x :=
  fun r => ⟨[], (h r).trans (List.append_nil _).symm, fun _ ho => absurd ho List.not_mem_nil⟩

theorem Adds.bind {x : ChainM F σ W D α} {f : α → ChainM F σ W D β} (hx : Adds P x)
    (hf : ∀ a, Adds P (f a)) : Adds P (x >>= f) := by
  intro r
  obtain ⟨os, hos, hP⟩ := hx r
  rw [run_bind]
  rcases hrun : x r with ⟨a | a, r'⟩
  · rw [hrun] at hos
    exact ⟨os, hos, hP⟩
  · rw [hrun] at hos
    obtain ⟨os', hos', hP'⟩ := hf a r'
    refine ⟨os ++ os', ?_, fun o ho => (List.mem_append.mp ho).elim (hP o) (hP' o)⟩
    exact hos'.trans ((congrArg (· ++ os') hos).trans (List.append_assoc _ _ _))

end Adds

variable [Sink F W] [Sink F D] (k : Kernel F σ) (c : RunConfig) (announce : ℕ → List (Event F))

theorem adds_write : Adds Quiet (write k : ChainM F σ W D Unit) := by
  refine (adds_silent fun _ => rfl).bind fun r => ?_
  refine (adds_silent fun _ => rfl).bind fun _ => ?_
  refine (adds_observe (by simp [Quiet, Observation.isInterrupt, Observation.iteration?])).bind
    fun _ => ?_
  refine (adds_silent fun _ => rfl).bind fun _ => ?_
  exact adds_observe (by simp [Quiet, Observation.isInterrupt, Observation.iteration?])

theorem advance_trace (m n : ℕ) (r : ChainRun F σ W D) : ∃ tail, (∀ o ∈ tail, o.Quiet) ∧
    (advance k c m n r).2.trace = r.trace ++ .transition r.state :: tail := by
  have hmoved := Observation.quiet_events (k.transition r.kernel r.state).events
  rw [advance, run_bind, move_eq]
  cases (k.transition r.kernel r.state).result with
  | error e =>
    refine ⟨_, hmoved, ?_⟩
    simp [Except.map, moved]
  | ok state =>
    have hrest : Adds Quiet (orFault (c.isKept m) >>= fun kept =>
        if kept then (observe [.event (.writing n)] >>= fun _ => write k) else pure () :
          ChainM F σ W D Unit) := by
      refine (adds_silent fun _ => rfl).bind fun kept => ?_
      split
      · refine (adds_observe fun o ho => ?_).bind fun _ => adds_write k
        exact List.mem_singleton.mp ho ▸ ⟨rfl, rfl⟩
      · exact adds_silent fun _ => rfl
    obtain ⟨os, hos, hquiet⟩ := hrest (r.moved k)
    refine ⟨(k.transition r.kernel r.state).events.map .event ++ os, fun o ho => ?_, ?_⟩
    · exact (List.mem_append.mp ho).elim (hmoved o) (hquiet o)
    · refine hos.trans ?_
      simp [moved]

/-! ### The lines of a run -/

variable {k c}

theorem roundWithProgress_unnumbered {m : ℕ} (h : ¬ c.Numbered m) (r : ChainRun F σ W D) :
    roundWithProgress k c m r = (.error (.fault .overflow), r.shown [.interrupt]) := by
  rw [roundWithProgress, run_bind, enter_overflow h]

theorem roundWithProgress_of_lines {m : ℕ} {lines : List String} (h : c.Numbered m)
    (hlines : c.progress.lines (c.start + m + 1) = .ok lines) (r : ChainRun F σ W D) :
    roundWithProgress k c m r = advance k c m (c.start + m + 1)
      (r.shown ([.interrupt, .iteration (c.start + m + 1)] ++
        lines.map fun line => .event (.progress line))) := by
  rw [roundWithProgress, run_bind, enter_numbered h]
  simp only [orFault, hlines, observe, run_bind, run_modify, Except.mapError]
  simp [shown]

theorem roundWithProgress_of_fault {m : ℕ} {cause : Fault} (h : c.Numbered m)
    (hlines : c.progress.lines (c.start + m + 1) = .error cause) (r : ChainRun F σ W D) :
    roundWithProgress k c m r =
      (.error (.fault cause), r.shown [.interrupt, .iteration (c.start + m + 1)]) := by
  rw [roundWithProgress, run_bind, enter_numbered h]
  simp only [orFault, hlines, run_bind, Except.mapError]

/-- What `n` rounds from round `a` on announce, if `begun` of them have begun. -/
structure Announces (c : RunConfig) (a n begun : ℕ) (result : Outcome F Unit)
    (os : List (Observation F)) : Prop where
  begun_le : begun ≤ n
  interrupts : os.countP Observation.isInterrupt = begun
  complete : result = .ok () → begun = n
  detached : leadingEvents os = []
  announced : (∀ i ∈ c.reportedFrom a begun, RunConfig.Fits i) →
    announcements os = (c.reportedFrom a begun).map fun i => (i, .progress (c.lineOf i))
  overflow : (∃ i ∈ c.reportedFrom a begun, ¬ RunConfig.Fits i) →
    result = .error (.fault .overflow) ∧
      ∃ i ∈ c.reportedFrom a begun, i ∉ (announcements os).map Prod.fst

namespace Announces

variable {a n begun : ℕ} {result : Outcome F Unit} {os os' : List (Observation F)}

theorem stop {e : Failure F} (h : Announces c a 1 1 (.error e) os) (n : ℕ) :
    Announces c a (1 + n) 1 (.error e) os where
  begun_le := Nat.le_add_right 1 n
  interrupts := h.interrupts
  complete heq := by cases heq
  detached := h.detached
  announced := h.announced
  overflow := h.overflow

theorem append (h : Announces c a 1 1 (.ok ()) os) (h' : Announces c (a + 1) n begun result os') :
    Announces c a (1 + n) (1 + begun) result (os ++ os') := by
  have hfirst : ∀ i ∈ c.reportedFrom a 1, RunConfig.Fits i := by
    by_contra hnot
    push Not at hnot
    cases (h.overflow hnot).1
  have hos : announcements os = _ := h.announced hfirst
  refine ⟨Nat.add_le_add_left h'.begun_le 1, ?_, fun heq => congrArg (1 + ·) (h'.complete heq), ?_,
    fun hfits => ?_, fun hover => ?_⟩
  · rw [List.countP_append, h.interrupts, h'.interrupts]
  · rw [Observation.leadingEvents_append h'.detached]
    exact h.detached
  · rw [RunConfig.reportedFrom_add] at hfits ⊢
    rw [Observation.announcements_append os h'.detached, hos, List.map_append,
      h'.announced fun i hi => hfits i (List.mem_append_right _ hi)]
  · rw [RunConfig.reportedFrom_add] at hover ⊢
    obtain ⟨i, hi, hnot⟩ := hover
    have hlater : i ∈ c.reportedFrom (a + 1) begun :=
      (List.mem_append.mp hi).resolve_left fun hmem => hnot (hfirst i hmem)
    obtain ⟨hresult, j, hj, hmissing⟩ := h'.overflow ⟨i, hlater, hnot⟩
    refine ⟨hresult, j, List.mem_append_right _ hj, ?_⟩
    rw [Observation.announcements_append os h'.detached, List.map_append, hos, List.map_map,
      List.mem_append]
    refine not_or.mpr ⟨fun hmem => ?_, hmissing⟩
    obtain ⟨j', hj', rfl⟩ := List.mem_map.mp hmem
    have hle : j' ≤ c.start + a + 1 := (RunConfig.bounds_of_mem_reportedFrom hj').2
    have hlt : c.start + (a + 1) < j' := (RunConfig.bounds_of_mem_reportedFrom hj).1
    omega

end Announces

theorem eq_of_mem_reportedFrom_one {a i : ℕ} (h : i ∈ c.reportedFrom a 1) :
    i = c.start + a + 1 := by
  have hbounds := RunConfig.bounds_of_mem_reportedFrom h
  omega

/-- A round whose iteration has no number announces nothing, and nothing of it would fit. -/
theorem announces_unnumbered {a : ℕ} (h : ¬ c.Numbered a) :
    Announces c a 1 1 (.error (.fault .overflow)) ([.interrupt] : List (Observation F)) := by
  have hnofit : ∀ i ∈ c.reportedFrom a 1, ¬ RunConfig.Fits i := by
    intro i hi hfits
    rw [eq_of_mem_reportedFrom_one hi] at hfits
    unfold RunConfig.Fits at hfits
    unfold RunConfig.Numbered at h
    omega
  refine ⟨le_rfl, rfl, fun _ => rfl, rfl, fun hfits => ?_, fun hover => ?_⟩
  · have hnone : c.reportedFrom a 1 = [] :=
      List.eq_nil_iff_forall_not_mem.mpr fun i hi => hnofit i hi (hfits i hi)
    rw [hnone]
    rfl
  · obtain ⟨i, hi, -⟩ := hover
    exact ⟨rfl, i, hi, List.not_mem_nil⟩

theorem announces_lines {a : ℕ} {result : Outcome F Unit} {s : ChainState F}
    {tail : List (Observation F)} (hquiet : ∀ o ∈ tail, o.Quiet)
    (hfits : ∀ i ∈ c.reportedFrom a 1, RunConfig.Fits i) :
    Announces c a 1 1 result ([.interrupt, .iteration (c.start + a + 1)] ++
      ((((c.reportedFrom a 1).map c.lineOf).map Event.progress).map .event ++
        .transition s :: tail)) := by
  let lines : List (Event F) := ((c.reportedFrom a 1).map c.lineOf).map .progress
  refine ⟨le_rfl, ?_, fun _ => rfl, rfl, fun _ => ?_, fun ⟨i, hi, hnot⟩ => absurd (hfits i hi) hnot⟩
  · have hevents := Observation.countP_interrupt_quiet (Observation.quiet_events lines)
    change List.countP Observation.isInterrupt ([.interrupt, .iteration (c.start + a + 1)] ++
      (lines.map .event ++ .transition s :: tail)) = 1
    have htail : List.countP Observation.isInterrupt (.transition s :: tail) = 0 := by
      rw [List.countP_cons, Observation.countP_interrupt_quiet hquiet]
      rfl
    rw [List.countP_append, List.countP_append, hevents, htail]
    rfl
  · change (leadingEvents (lines.map .event ++ .transition s :: tail)).map _ ++
      announcements (lines.map .event ++ .transition s :: tail) = _
    rw [Observation.leadingEvents_map_event lines rfl, Observation.announcements_append _ rfl,
      Observation.announcements_quiet (Observation.quiet_events lines)]
    change _ ++ ([] ++ announcements tail) = _
    rw [Observation.announcements_quiet hquiet, List.append_nil, List.append_nil,
      List.map_map, List.map_map]
    refine List.map_congr_left fun i hi => ?_
    rw [eq_of_mem_reportedFrom_one hi]
    rfl

theorem roundWithProgress_announces {a : ℕ} (hfinish : c.start + a + 1 ≤ c.finish)
    (r : ChainRun F σ W D) : ∃ os, (roundWithProgress k c a r).2.trace = r.trace ++ os ∧
      Announces c a 1 1 (roundWithProgress k c a r).1 os := by
  by_cases hnumber : c.Numbered a
  · by_cases hfits : ∀ i ∈ c.reportedFrom a 1, RunConfig.Fits i
    · rw [roundWithProgress_of_lines hnumber (RunConfig.lines_of_fits hfinish hfits)]
      obtain ⟨tail, hquiet, htrace⟩ := advance_trace k c a (c.start + a + 1)
        (r.shown ([.interrupt, .iteration (c.start + a + 1)] ++
          ((c.reportedFrom a 1).map c.lineOf).map fun line => .event (.progress line)))
      refine ⟨_, htrace.trans ?_, announces_lines (s := r.state) hquiet hfits⟩
      simp [shown, Function.comp_def]
    · push Not at hfits
      obtain ⟨i, hi, hnot⟩ := hfits
      obtain rfl := eq_of_mem_reportedFrom_one hi
      have hreports : c.Reports (a + 1) := by
        rw [RunConfig.reportedFrom_one] at hi
        split at hi
        · next h => exact h
        · exact absurd hi List.not_mem_nil
      rw [roundWithProgress_of_fault hnumber (RunConfig.lines_of_not_fits hfinish hreports hnot)]
      refine ⟨_, rfl, le_rfl, rfl, fun _ => rfl, rfl, fun hfits => ?_, fun _ => ⟨rfl, _, hi, ?_⟩⟩
      · exact absurd (hfits _ hi) hnot
      · exact List.not_mem_nil
  · rw [roundWithProgress_unnumbered hnumber]
    exact ⟨_, rfl, announces_unnumbered hnumber⟩

theorem rounds_announce (n : ℕ) : ∀ (a : ℕ) (r : ChainRun F σ W D), c.start + a + n ≤ c.finish →
    ∃ begun os, ((List.range' a n).forM (roundWithProgress k c) r).2.trace = r.trace ++ os ∧
      Announces c a n begun ((List.range' a n).forM (roundWithProgress k c) r).1 os := by
  induction n with
  | zero =>
    intro a r _
    refine ⟨0, [], (List.append_nil _).symm, le_rfl, rfl, fun _ => rfl, rfl, fun _ => rfl, ?_⟩
    rintro ⟨i, hi, -⟩
    exact absurd hi List.not_mem_nil
  | succ n ih =>
    intro a r hfinish
    have hround : c.start + a + 1 ≤ c.finish := by omega
    obtain ⟨os, htrace, hfirst⟩ := roundWithProgress_announces (k := k) hround r
    rw [List.range'_succ, Nat.add_comm n 1]
    rcases hrun : roundWithProgress k c a r with ⟨e | u, r'⟩
    · rw [hrun] at htrace hfirst
      rw [forM_cons_error hrun]
      exact ⟨1, os, htrace, hfirst.stop n⟩
    · rw [hrun] at htrace hfirst
      have hone : [a].forM (roundWithProgress k c) r = (.ok ⟨⟩, r') := by
        change (roundWithProgress k c a >>= fun _ => pure PUnit.unit) r = _
        rw [run_bind, hrun]
        rfl
      have hrest : (a :: List.range' (a + 1) n).forM (roundWithProgress k c) r =
          (List.range' (a + 1) n).forM (roundWithProgress k c) r' := forM_append hone
      obtain ⟨begun, os', htrace', hlater⟩ := ih (a + 1) r' (by omega)
      rw [hrest]
      refine ⟨1 + begun, os ++ os', ?_, hfirst.append hlater⟩
      rw [htrace', ← List.append_assoc]
      exact congrArg (· ++ os') htrace

end ChainRun

/-! ### The log -/

/-- The lines of a run with `begun` rounds, each with its iteration number. -/
structure RegularLog (c : RunConfig) (begun : ℕ) (lines : List (ℕ × String)) : Prop where
  numbers : lines.map Prod.fst = c.reported begun
  increasing : (lines.map Prod.fst).Pairwise (· < ·)
  own : ∀ l ∈ lines, Progress.shownNumber l.2 = l.1
  length : ∀ l ∈ lines, ∀ l' ∈ lines, l.2.length = l'.2.length
  percent : ∀ l ∈ lines, Progress.shownPercent l.2 = 100 * l.1 / c.finish
  percent_le : ∀ l ∈ lines, Progress.shownPercent l.2 ≤ 100
  percent_mono : lines.Pairwise fun l l' => Progress.shownPercent l.2 ≤ Progress.shownPercent l'.2
  percent_done : ∀ l ∈ lines, Progress.shownPercent l.2 = 100 ↔ l.1 = c.finish
  phase : ∀ l ∈ lines, Progress.shownPhase l.2 = if c.warmup then "Warmup" else "Sampling"

namespace RunConfig

variable {c : RunConfig}

theorem pairwise_reported (begun : ℕ) : (c.reported begun).Pairwise (· < ·) := by
  have hrange : (List.range' 1 begun).Pairwise (· < ·) := List.pairwise_lt_range'
  exact (hrange.filter _).map _ fun m m' h => Nat.add_lt_add_left h c.start

theorem phaseAt_progress {n : ℕ} (hstart : c.start < n) (hfinish : n ≤ c.finish) :
    c.progress.phaseAt n = if c.warmup then "Warmup" else "Sampling" := by
  cases hwarmup : c.warmup with
  | true => simp [Progress.phaseAt, progress, hwarmup, hfinish]
  | false => simp [Progress.phaseAt, progress, hwarmup, hstart]

theorem percent_eq_hundred_iff {n : ℕ} (hn : 0 < n) (hfinish : n ≤ c.finish) :
    100 * n / c.finish = 100 ↔ n = c.finish := by
  have hpos : 0 < c.finish := Nat.lt_of_lt_of_le hn hfinish
  constructor
  · intro h
    have hle : 100 ≤ 100 * n / c.finish := h.ge
    rw [Nat.le_div_iff_mul_le hpos] at hle
    omega
  · rintro rfl
    exact Nat.mul_div_cancel 100 hpos

theorem regularLog {begun : ℕ} (hfinish : c.start + begun ≤ c.finish) :
    RegularLog c begun ((c.reported begun).map fun n => (n, c.lineOf n)) := by
  have hbounds : ∀ n ∈ c.reported begun, c.start < n ∧ n ≤ c.finish := fun n hn =>
    have h := bounds_of_mem_reportedFrom hn
    ⟨h.1, h.2.trans hfinish⟩
  have hpercent : ∀ n, Progress.shownPercent (c.lineOf n) = 100 * n / c.finish := fun n =>
    c.progress.shownPercent_lineAt n _
  have hle : ∀ n ∈ c.reported begun, 100 * n / c.finish ≤ 100 := fun n hn =>
    Nat.div_le_of_le_mul (Nat.mul_comm 100 c.finish ▸ Nat.mul_le_mul_left 100 (hbounds n hn).2)
  have hnumbers : ((c.reported begun).map fun n => (n, c.lineOf n)).map Prod.fst =
      c.reported begun := by
    rw [List.map_map]
    exact List.map_id _
  refine ⟨hnumbers, hnumbers.symm ▸ pairwise_reported begun, ?_, ?_, ?_, ?_, ?_, ?_, ?_⟩
  · exact List.forall_mem_map.mpr fun n _ => c.progress.shownNumber_lineAt n _
  · have hlength : ∀ n ∈ c.reported begun, (c.lineOf n).length =
        25 + 2 * (Progress.decimal c.finish).length +
          (if c.warmup then "Warmup" else "Sampling").length := by
      intro n hn
      rw [← phaseAt_progress (hbounds n hn).1 (hbounds n hn).2]
      exact c.progress.length_lineAt n _ (hbounds n hn).2 (hle n hn)
    refine List.forall_mem_map.mpr fun n hn => List.forall_mem_map.mpr fun n' hn' => ?_
    exact (hlength n hn).trans (hlength n' hn').symm
  · exact List.forall_mem_map.mpr fun n _ => hpercent n
  · exact List.forall_mem_map.mpr fun n hn => (hpercent n).trans_le (hle n hn)
  · refine (pairwise_reported begun).map _ fun n n' hlt => ?_
    rw [hpercent, hpercent]
    exact Nat.div_le_div_right (Nat.mul_le_mul_left 100 hlt.le)
  · refine List.forall_mem_map.mpr fun n hn => ?_
    rw [hpercent]
    exact percent_eq_hundred_iff (Nat.zero_lt_of_lt (hbounds n hn).1) (hbounds n hn).2
  · refine List.forall_mem_map.mpr fun n hn => ?_
    exact (c.progress.shownPhase_lineAt n _).trans
      (phaseAt_progress (hbounds n hn).1 (hbounds n hn).2)

end RunConfig

def ShowsLog (c : RunConfig) (begun : ℕ) (os : List (Observation F)) : Prop :=
  ∃ lines : List (ℕ × String),
    Observation.announcements os = lines.map (fun l => (l.1, .progress l.2)) ∧
      RegularLog c begun lines

variable [Sink F W] [Sink F D]

/-- The log of the rounds that have begun is regular exactly if no line overflows, and a run with
an overflowing line stops there. -/
theorem progress_log (k : Kernel F σ) (c : RunConfig) (hfinish : c.start + c.iterations ≤ c.finish)
    (hthin : c.save = true → 0 < c.thin) (r : ChainRun F σ W D) :
    ∃ begun os, (ChainRun.roundsWithProgress k c r).2.trace = r.trace ++ os ∧
      os.countP Observation.isInterrupt = begun ∧ begun ≤ c.iterations ∧
      ((ChainRun.roundsWithProgress k c r).1 = .ok () → begun = c.iterations) ∧
      (ShowsLog c begun os ↔ ∀ n ∈ c.reported begun, RunConfig.Fits n) ∧
      (¬ ShowsLog c begun os →
        (ChainRun.roundsWithProgress k c r).1 = .error (.fault .overflow)) := by
  have hrounds : ChainRun.roundsWithProgress k c =
      ((List.range' 0 c.iterations).forM (ChainRun.roundWithProgress k c) :
        ChainM F σ W D Unit) := by
    have hsaving : (c.save && c.thin == 0) = false := by
      cases hsave : c.save with
      | false => rfl
      | true => simp [Nat.pos_iff_ne_zero.mp (hthin hsave)]
    rw [ChainRun.roundsWithProgress, hsaving, List.range_eq_range']
    rfl
  obtain ⟨begun, os, htrace, h⟩ :=
    ChainRun.rounds_announce (k := k) c.iterations 0 r (by omega)
  rw [hrounds]
  have hregular : (∀ n ∈ c.reported begun, RunConfig.Fits n) → ShowsLog c begun os := by
    intro hfits
    refine ⟨_, ?_, RunConfig.regularLog (hfinish.trans' (Nat.add_le_add_left h.begun_le _))⟩
    rw [List.map_map]
    exact h.announced hfits
  -- If a line overflows it is due and missing, and a regular log misses none.
  have hcut : ¬ (∀ n ∈ c.reported begun, RunConfig.Fits n) → ¬ ShowsLog c begun os := by
    rintro hnot ⟨lines, hlines, hlog⟩
    push Not at hnot
    obtain ⟨-, n, hn, hmissing⟩ := h.overflow hnot
    rw [hlines, List.map_map] at hmissing
    exact hmissing (hlog.numbers.symm ▸ hn)
  refine ⟨begun, os, htrace, h.interrupts, h.begun_le, h.complete, ⟨?_, hregular⟩, ?_⟩
  · exact fun hlog => not_not.mp fun hnot => hcut hnot hlog
  · intro hnot
    have hover := mt hregular hnot
    push Not at hover
    exact (h.overflow hover).1

/-! ### A chain that fails in its third round -/

def fiveRounds : RunConfig := { RunConfig.fromOne 5 with refresh := 2 }

def lateRound : RunConfig :=
  { iterations := 1, start := 200000000000000000, finish := 200000000000000001 }

def stumbling : ChainRun ℚ (Scripted ℚ) (Table ℚ) (Table ℚ) where
  kernel := { script := [.add [1], .add [2], .exhausted 7] }
  streams := .ofSinks {} {}
  state := ⟨[0], 0, 0⟩

theorem progress_log_stumbling :
    fiveRounds.start + fiveRounds.iterations ≤ fiveRounds.finish ∧
      (fiveRounds.save = true → 0 < fiveRounds.thin) ∧
      ∃ begun os, (ChainRun.roundsWithProgress .scripted fiveRounds stumbling).2.trace = os ∧
        os.countP Observation.isInterrupt = begun ∧ begun ≤ fiveRounds.iterations ∧
        ShowsLog fiveRounds begun os := by
  have hfinish : fiveRounds.start + fiveRounds.iterations ≤ fiveRounds.finish := by decide
  have hthin : fiveRounds.save = true → 0 < fiveRounds.thin := by decide
  obtain ⟨begun, os, htrace, hcount, hle, -, hlog, -⟩ :=
    progress_log .scripted fiveRounds hfinish hthin stumbling
  refine ⟨hfinish, hthin, begun, os, htrace, hcount, hle, hlog.mpr fun n hn => ?_⟩
  have hbound : n ≤ 0 + 0 + begun := (RunConfig.bounds_of_mem_reportedFrom hn).2
  have hfive : begun ≤ 5 := hle
  have hsize : UInt64.size = 18446744073709551616 := rfl
  rw [RunConfig.Fits, hsize]
  omega

/-- The line of the last iteration is due and does not appear. -/
theorem progress_overflows :
    lateRound.start + lateRound.iterations ≤ lateRound.finish ∧
      (lateRound.save = true → 0 < lateRound.thin) ∧
      lateRound.reported 1 = [200000000000000001] ∧
      (ChainRun.roundsWithProgress .scripted lateRound stumbling).1 = .error (.fault .overflow) ∧
      (ChainRun.roundsWithProgress .scripted lateRound stumbling).2.trace =
        [.interrupt, .iteration 200000000000000001] ∧
      ¬ ShowsLog lateRound 1
        ([.interrupt, .iteration 200000000000000001] : List (Observation ℚ)) := by
  refine ⟨by decide, by decide, by decide, rfl, rfl, ?_⟩
  rintro ⟨lines, hlines, hlog⟩
  have hnone : lines = [] := List.map_eq_nil_iff.mp hlines.symm
  have hnumbers := hlog.numbers
  rw [hnone] at hnumbers
  cases hnumbers

end Autodiff
