import Mathlib
import Autodiff.Gradient.Evaluator
import Autodiff.Primitive.Catalog
import Autodiff.Proofs.Gradient.Limit
import Autodiff.Proofs.Program.Redating

set_option autoImplicit false

namespace Autodiff

open Interpretation (recording)
open Recording (begun epoch settle)

variable {F α β : Type}

namespace Tape

theorem pushInputs_redated (t : Tape F) (epoch : UInt32) (x : List F) :
    (t.redated epoch).pushInputs x = (t.pushInputs x).redated epoch := by
  induction x generalizing t with
  | nil => rfl
  | cons value x ih => exact ih (t.push .input [] value)

theorem nextEpoch_redated {t t' : Tape F} (hlimit : t'.limit = t.limit) :
    t'.nextEpoch = t.nextEpoch.redated (t'.epoch + 1) := by
  unfold nextEpoch
  rw [hlimit]
  rfl

theorem adjointsFrom_redated [Arith F] [Functions F] (t : Tape F) (epoch : UInt32)
    {x y : Handle F} (hnode : x.node = y.node) :
    (t.redated epoch).adjointsFrom [(y, 1)] = t.adjointsFrom [(x, 1)] := by
  have hseed : ∀ adjoints : Array F, addSeed adjoints (y, 1) = addSeed adjoints (x, 1) := by
    intro adjoints
    unfold addSeed
    rw [hnode]
  unfold adjointsFrom seedAdjoints
  rw [List.foldl_cons, List.foldl_cons, hseed]
  rfl

end Tape

namespace Recording

variable {s s' : Recorder F} {x : List F}

theorem dated_begun (hx : x.length ≤ s.tape.bound) : (begun s x).Dated s.events where
  isOpen := open_begun hx
  events := by
    rw [Tape.report_of_room exhausted_begun, List.append_nil]
    rfl

theorem redated_begun (hlimit : s'.tape.limit = s.tape.limit) (hx : x.length ≤ s.tape.bound) :
    Recorder.Redated s.events s'.events (begun s x) (begun s' x) where
  left := dated_begun hx
  right := by
    refine dated_begun ?_
    rw [Tape.bound, hlimit]
    exact hx
  tape := by
    have hpush : (begun s' x).tape = (begun s x).tape.redated (s'.tape.epoch + 1) := by
      change s'.tape.nextEpoch.pushInputs x = (s.tape.nextEpoch.pushInputs x).redated _
      rw [Tape.nextEpoch_redated hlimit, Tape.pushInputs_redated]
    rw [epoch_begun]
    exact hpush

theorem cognate_inputs (hlimit : s'.tape.limit = s.tape.limit) (hx : x.length ≤ s.tape.bound) :
    List.Forall₂ (Worlds.Cognate ⟨(begun s x, begun s' x), redated_begun hlimit hx⟩)
      (Handle.inputs (s.tape.epoch + 1) 0 x) (Handle.inputs (s'.tape.epoch + 1) 0 x) :=
  forall₂_begun_begun fun _ hi => ⟨rfl, rfl, live_inputs hi _, live_inputs hi _⟩

variable [Arith F] [Functions F]

/-- Two epochs of one program, the first from `s` to `w.1.1` and the second from `s'` to `w.1.2`. -/
structure Epochs (s s' : Recorder F) (n : ℕ) (r r' : Outcome F (Handle F))
    (w : (Worlds.redated F s.events s'.events).World) : Prop where
  epoch : w.1.1.tape.epoch = s.tape.epoch + 1
  epoch' : w.1.2.tape.epoch = s'.tape.epoch + 1
  limit : w.1.1.tape.limit = s.tape.limit
  rel : Outcome.Rel (Worlds.Cognate w) r r'
  inputs : ∀ y, r = .ok y → w.1.1.tape.exhausted = false ∧ n ≤ w.1.1.tape.size

theorem epochs_of_le (p : Program F) (hlimit : s'.tape.limit = s.tape.limit)
    (hx : x.length ≤ s.tape.bound) :
    ∃ r r' w, epoch (p.runScalar recording) x s = (r, w.1.1) ∧
      epoch (p.runScalar recording) x s' = (r', w.1.2) ∧ Epochs s s' x.length r r' w := by
  have hx' : x.length ≤ s'.tape.bound := by
    rw [Tape.bound, hlimit]
    exact hx
  obtain ⟨w, r, r', hle, hrun, hrun', hrel⟩ :=
    (Simulation.redated s.events s'.events).runScalar p (cognate_inputs hlimit hx)
  have hleft : epoch (p.runScalar recording) x s = settle (r, w.1.1) :=
    (epoch_room hx).trans (congrArg settle hrun)
  have hright : epoch (p.runScalar recording) x s' = settle (r', w.1.2) :=
    (epoch_room hx').trans (congrArg settle hrun')
  have hcapacity : w.1.2.tape.capacity = w.1.1.tape.capacity := by
    rw [w.2.tape]
    rfl
  have hex : w.1.2.tape.exhausted = w.1.1.tape.exhausted := by
    rw [w.2.tape]
    rfl
  refine ⟨_, _, w, hleft.trans (Prod.ext rfl (snd_settle r _)),
    hright.trans (Prod.ext rfl (snd_settle r' _)), hle.1.epoch.trans epoch_begun,
    hle.2.epoch.trans epoch_begun, hle.1.limit.trans limit_begun, settle_rel hrel hex hcapacity,
    fun y hy => ⟨(settle_eq_ok hy).2, ?_⟩⟩
  have hsize := hle.1.size_le
  rw [size_begun] at hsize
  exact hsize

theorem epochs_of_lt (p : Program F) (hlimit : s'.tape.limit = s.tape.limit)
    (hx : s.tape.bound < x.length) :
    ∃ r r' w, epoch (p.runScalar recording) x s = (r, w.1.1) ∧
      epoch (p.runScalar recording) x s' = (r', w.1.2) ∧ Epochs s s' x.length r r' w := by
  have hbound : s'.tape.bound = s.tape.bound := by
    rw [Tape.bound, hlimit]
    rfl
  have hx' : s'.tape.bound < x.length := hbound ▸ hx
  have hlen : (x.take s.tape.bound).length = s.tape.bound := by
    rw [List.length_take]
    omega
  have hfull : (begun s (x.take s.tape.bound)).tape.isFull = true := by
    rw [Tape.isFull_iff, bound_begun, size_begun, hlen]
  have hbegun := redated_begun (x := x.take s.tape.bound) hlimit (Nat.le_of_eq hlen)
  have hcapacity : (begun s' (x.take s.tape.bound)).tape.capacity =
      (begun s (x.take s.tape.bound)).tape.capacity := by
    rw [hbegun.tape]
    rfl
  have hright := epoch_full (f := p.runScalar recording) hx'
  rw [hbound, hcapacity] at hright
  exact ⟨_, _, ⟨(_, _), hbegun.refused hfull⟩, epoch_full hx, hright, epoch_begun, epoch_begun,
    limit_begun, .error _, fun y hy => by cases hy⟩

theorem epochs (p : Program F) (x : List F) (hlimit : s'.tape.limit = s.tape.limit) :
    ∃ r r' w, epoch (p.runScalar recording) x s = (r, w.1.1) ∧
      epoch (p.runScalar recording) x s' = (r', w.1.2) ∧ Epochs s s' x.length r r' w := by
  by_cases hx : x.length ≤ s.tape.bound
  · exact epochs_of_le p hlimit hx
  · exact epochs_of_lt p hlimit (Nat.lt_of_not_le hx)

structure Ended (n : ℕ) (r : Outcome F (F × List F)) (t : Tape F) : Prop where
  ok : ∀ y, r = .ok y → t.exhausted = false ∧ t.adjoints.size = t.size ∧
    y.2 = t.adjoints.toList.take n ∧ y.2.length = n
  error : ∀ e, r = .error e → t.adjoints = #[]

/-- The gradient `r` of one epoch is that of another one, and the tapes agree but for the epochs. -/
structure Repeated (s s' : Recorder F) (n : ℕ) (r : Outcome F (F × List F))
    (t t' : Recorder F) : Prop where
  tape : t'.tape = t.tape.redated t'.tape.epoch
  epoch : t.tape.epoch = s.tape.epoch + 1
  limit : t.tape.limit = s.tape.limit
  events : t.events = s.events ++ t.tape.report
  ended : Ended n r t.tape

theorem repeated (p : Program F) (x : List F) (s s' : Recorder F)
    (hlimit : s'.tape.limit = s.tape.limit) :
    ∃ r t t', p.recordGradient x s = (r, t) ∧ p.recordGradient x s' = (r, t') ∧
      Repeated s s' x.length r t t' := by
  obtain ⟨r, r', ⟨⟨t, t'⟩, hw⟩, hrun, hrun', h⟩ := epochs p x hlimit
  rw [recordGradient_eq_finish, recordGradient_eq_finish, hrun, hrun']
  obtain ⟨hepoch, hepoch', hlimit', hrel, hinputs⟩ := h
  cases hrel with
  | error e =>
    exact ⟨.error e, t, t', rfl, rfl, hw.tape, hepoch, hlimit', hw.left.events, nofun,
      fun _ _ => hw.left.isOpen.unswept⟩
  | @ok y y' hy =>
    obtain ⟨hex, hn⟩ := hinputs y rfl
    have hadjoints : t'.tape.adjointsFrom [(y', 1)] = t.tape.adjointsFrom [(y, 1)] := by
      have htape : t'.tape = t.tape.redated t'.tape.epoch := hw.tape
      rw [htape]
      exact Tape.adjointsFrom_redated t.tape _ hy.node
    refine ⟨.ok (y.value, (t.tape.adjointsFrom [(y, 1)]).toList.take x.length),
      t.swept [(y, 1)], t'.swept [(y', 1)], finish_ok hy.live, ?_, ?_, hepoch, hlimit', ?_, ?_⟩
    · rw [finish_ok hy.live', hadjoints, hy.value]
    · change { t'.tape with adjoints := t'.tape.adjointsFrom [(y', 1)] } = _
      rw [hadjoints, hw.tape]
      rfl
    · exact hw.left.events
    · refine ⟨fun g hg => ?_, nofun⟩
      cases hg
      exact ⟨hex, Tape.size_adjointsFrom _ _, rfl, Tape.length_take_adjointsFrom _ _ hn⟩

end Recording

def Evaluator.fresh (target : Target F) (limit : Option ℕ) : Evaluator F :=
  { target := target, tape := { limit := limit } }

namespace Evaluation

structure Fresh (first a : Evaluation F) : Prop where
  result : a.result = first.result
  tape : a.evaluator.tape = first.evaluator.tape.redated a.evaluator.tape.epoch

structure Complete (dim number : ℕ) (a : Evaluation F) : Prop where
  swept : ∀ y, a.result = .ok y →
    a.evaluator.tape.adjoints.size = a.evaluator.tape.size ∧
      y.2 = a.evaluator.tape.adjoints.toList.take dim ∧ y.2.length = dim ∧
      a.events = [.swept a.evaluator.tape.size a.evaluator.tape.epoch]
  rejected : ∀ cause, a.result = .error (.error cause) →
    a.evaluator.tape.adjoints = #[] ∧
      a.events = a.evaluator.tape.report ++ [.rejected cause number]

end Evaluation

namespace Evaluator

variable {e : Evaluator F} {x : List F} {r : Outcome F (F × List F)} {t : Recorder F}

def conclude (e : Evaluator F) (t : Recorder F) : Outcome F (F × List F) → Evaluation F
  | .ok y => ⟨.ok y, { e with tape := t.tape }, t.events ++ [.swept t.tape.size t.tape.epoch]⟩
  | .error (.error cause) =>
    ⟨.error (.error cause), { e with tape := t.tape, rejected := e.rejected + 1 },
      t.events ++ [.rejected cause e.evals]⟩
  | .error (.fault cause) => ⟨.error (.fault cause), { e with tape := t.tape }, t.events⟩

theorem result_conclude : (conclude e t r).result = r := by
  rcases r with (cause | cause) | y <;> rfl

theorem tape_conclude : (conclude e t r).evaluator.tape = t.tape := by
  rcases r with (cause | cause) | y <;> rfl

theorem target_conclude : (conclude e t r).evaluator.target = e.target := by
  rcases r with (cause | cause) | y <;> rfl

theorem evals_conclude : (conclude e t r).evaluator.evals = e.evals := by
  rcases r with (cause | cause) | y <;> rfl

theorem rejected_conclude (hfault : ∀ cause, r ≠ .error (.fault cause)) :
    (conclude e t r).evaluator.rejected = e.rejected + if r.toBool then 0 else 1 := by
  rcases r with (cause | cause) | y
  · rfl
  · exact absurd rfl (hfault cause)
  · rfl

variable [Arith F] [Functions F]

theorem evaluate_eq_conclude (hx : x.length = e.target.dim)
    (hrun : e.target.density.recordGradient x { tape := e.tape } = (r, t)) :
    e.evaluate x = conclude { e with evals := e.evals + 1 } t r := by
  have hrun' : (e.target.density.recordGradient x).run.run { tape := e.tape } = (r, t) := hrun
  unfold evaluate
  rw [if_neg (not_not.mpr hx)]
  simp only [hrun']
  rcases r with (cause | cause) | y <;> rfl

theorem result_evaluate_of_ne (hx : x.length ≠ e.target.dim) :
    (e.evaluate x).result = .error (.fault .parameterCount) := by
  unfold evaluate
  rw [if_pos hx]

theorem evaluate_repeated (hx : x.length = e.target.dim) :
    ∃ r t first, e.evaluate x = conclude { e with evals := e.evals + 1 } t r ∧
      (fresh e.target e.tape.limit).evaluate x =
        conclude { fresh e.target e.tape.limit with evals := 1 } first r ∧
      Recording.Repeated { tape := e.tape } { tape := { limit := e.tape.limit } } x.length r t
        first := by
  obtain ⟨r, t, first, hrun, hfirst, hrepeated⟩ := Recording.repeated e.target.density x
    { tape := e.tape } { tape := { limit := e.tape.limit } } rfl
  exact ⟨r, t, first, evaluate_eq_conclude hx hrun,
    evaluate_eq_conclude (e := fresh e.target e.tape.limit) hx hfirst, hrepeated⟩

theorem evaluate_fresh (hx : x.length = e.target.dim) :
    Evaluation.Fresh ((fresh e.target e.tape.limit).evaluate x) (e.evaluate x) := by
  obtain ⟨r, t, first, heval, hfirst, h⟩ := evaluate_repeated hx
  rw [heval, hfirst]
  refine ⟨by rw [result_conclude, result_conclude], ?_⟩
  rw [tape_conclude, tape_conclude, h.tape]
  rfl

theorem evaluate_complete (hx : x.length = e.target.dim) :
    Evaluation.Complete e.target.dim (e.evals + 1) (e.evaluate x) := by
  obtain ⟨r, t, first, heval, -, h⟩ := evaluate_repeated hx
  have hevents : t.events = t.tape.report := h.events
  rw [heval]
  refine ⟨fun y hy => ?_, fun cause hcause => ?_⟩
  · obtain rfl : r = .ok y := result_conclude.symm.trans hy
    obtain ⟨hex, hsize, hgradient, hlength⟩ := h.ended.ok y rfl
    rw [hx] at hgradient hlength
    refine ⟨hsize, hgradient, hlength, ?_⟩
    change t.events ++ [_] = _
    rw [hevents, Tape.report_of_room hex]
    rfl
  · obtain rfl : r = .error (.error cause) := result_conclude.symm.trans hcause
    refine ⟨h.ended.error _ rfl, ?_⟩
    change t.events ++ [_] = _
    rw [hevents]
    rfl

end Evaluator

inductive Call (F : Type) where
  | evaluate (x : List F)
  | logDensity (x : List F)
  | directional (x v : List F)

inductive Answer (F : Type) where
  | gradient (value : F) (gradient : List F)
  | density (value : F)
  | slope (value derivative : F)

namespace Call

def isEvaluate : Call F → Bool
  | .evaluate _ => true
  | _ => false

def isRejected : Call F × Outcome F (Answer F) → Bool
  | (.evaluate _, .error _) => true
  | _ => false

def isFault : Call F × Outcome F (Answer F) → Bool
  | (_, .error (.fault _)) => true
  | _ => false

theorem ne_fault {call : Call F} {answer : Outcome F (Answer F)}
    (h : isFault (call, answer) = false) (cause : Fault) : answer ≠ .error (.fault cause) := by
  rintro rfl
  cases h

end Call

def evaluations (log : List (Call F × Outcome F (Answer F))) : ℕ := log.countP (·.1.isEvaluate)

def rejections (log : List (Call F × Outcome F (Answer F))) : ℕ := log.countP Call.isRejected

namespace Evaluator

variable [Arith F] [Functions F]

def perform (e : Evaluator F) : Call F → Outcome F (Answer F) × Evaluator F
  | .evaluate x =>
    ((e.evaluate x).result.map fun y => .gradient y.1 y.2, (e.evaluate x).evaluator)
  | .logDensity x => ((e.logDensity x).map .density, e)
  | .directional x v => ((e.directional x v).map fun y => .slope y.1 y.2, e)

def session (e : Evaluator F) :
    List (Call F) → List (Call F × Outcome F (Answer F)) × Evaluator F
  | [] => ([], e)
  | call :: calls =>
    let (answer, e') := e.perform call
    let (log, e'') := e'.session calls
    ((call, answer) :: log, e'')

/-- How far an evaluator has come with the calls of a list. -/
structure Advanced (log : List (Call F × Outcome F (Answer F))) (e e' : Evaluator F) : Prop where
  target : e'.target = e.target
  limit : e'.tape.limit = e.tape.limit
  evals : e'.evals = e.evals + evaluations log
  rejected : e'.rejected = e.rejected + rejections log
  epoch : e'.tape.epoch = e.tape.epoch + UInt32.ofNat (evaluations log)

variable {e e' e'' : Evaluator F} {log log' : List (Call F × Outcome F (Answer F))}

omit [Arith F] [Functions F] in
theorem Advanced.trans (h : Advanced log e e') (h' : Advanced log' e' e'') :
    Advanced (log ++ log') e e'' where
  target := h'.target.trans h.target
  limit := h'.limit.trans h.limit
  evals := by
    rw [h'.evals, h.evals, evaluations, evaluations, evaluations, List.countP_append]
    omega
  rejected := by
    rw [h'.rejected, h.rejected, rejections, rejections, rejections, List.countP_append]
    omega
  epoch := by
    rw [h'.epoch, h.epoch, evaluations, evaluations, evaluations, List.countP_append,
      UInt32.ofNat_add, UInt32.add_assoc]

omit [Arith F] [Functions F] in
theorem advanced_of_read {call : Call F} {answer : Outcome F (Answer F)}
    (hread : call.isEvaluate = false) : Advanced [(call, answer)] e e where
  target := rfl
  limit := rfl
  evals := by simp [evaluations, hread]
  rejected := by cases call <;> cases hread <;> rfl
  epoch := by simp [evaluations, hread]

theorem advanced_evaluate {x : List F}
    (hfault : ∀ cause, (e.evaluate x).result ≠ .error (.fault cause)) :
    Advanced [(.evaluate x, (e.perform (.evaluate x)).1)] e (e.perform (.evaluate x)).2 := by
  by_cases hx : x.length = e.target.dim
  · obtain ⟨r, t, first, heval, -, h⟩ := evaluate_repeated hx
    rw [heval, result_conclude] at hfault
    unfold perform
    simp only [heval, result_conclude]
    refine ⟨target_conclude, ?_, evals_conclude, ?_, ?_⟩
    · rw [tape_conclude]
      exact h.limit
    · rw [rejected_conclude hfault]
      cases r <;> rfl
    · rw [tape_conclude]
      exact h.epoch
  · exact absurd (result_evaluate_of_ne hx) (hfault .parameterCount)

theorem advanced_perform (call : Call F)
    (hfault : ∀ cause, (e.perform call).1 ≠ .error (.fault cause)) :
    Advanced [(call, (e.perform call).1)] e (e.perform call).2 := by
  cases call with
  | evaluate x =>
    refine advanced_evaluate fun cause hcause => hfault cause ?_
    change (e.evaluate x).result.map _ = _
    rw [hcause]
    rfl
  | logDensity x => exact advanced_of_read rfl
  | directional x v => exact advanced_of_read rfl

theorem advanced_session (calls : List (Call F))
    (hfault : ∀ a ∈ (e.session calls).1, Call.isFault a = false) :
    Advanced (e.session calls).1 e (e.session calls).2 := by
  induction calls generalizing e with
  | nil => exact ⟨rfl, rfl, rfl, rfl, (UInt32.add_zero _).symm⟩
  | cons call calls ih =>
    have hfirst := Call.ne_fault (hfault (call, (e.perform call).1) List.mem_cons_self)
    have hrest := ih fun a ha => hfault a (List.mem_cons_of_mem _ ha)
    exact (advanced_perform call hfirst).trans hrest

end Evaluator

variable [Arith F] [Functions F]

theorem Evaluator.answer_of_mem_session {e : Evaluator F} {calls : List (Call F)}
    (hfault : ∀ a ∈ (e.session calls).1, Call.isFault a = false) {x : List F}
    {answer : Outcome F (Answer F)} (hmem : (.evaluate x, answer) ∈ (e.session calls).1) :
    answer = ((fresh e.target e.tape.limit).perform (.evaluate x)).1 := by
  induction calls generalizing e with
  | nil => exact absurd hmem List.not_mem_nil
  | cons call calls ih =>
    have hfirst := Call.ne_fault (hfault (call, (e.perform call).1) List.mem_cons_self)
    have hrest : ∀ a ∈ ((e.perform call).2.session calls).1, Call.isFault a = false :=
      fun a ha => hfault a (List.mem_cons_of_mem _ ha)
    rcases List.mem_cons.mp hmem with hhead | htail
    · cases hhead
      by_cases hx : x.length = e.target.dim
      · exact congrArg (Except.map fun y => Answer.gradient y.1 y.2) (evaluate_fresh hx).result
      · refine absurd ?_ (hfirst .parameterCount)
        change (e.evaluate x).result.map _ = _
        rw [result_evaluate_of_ne hx]
        rfl
    · have hadvanced := advanced_perform call hfirst
      rw [← hadvanced.target, ← hadvanced.limit]
      exact ih hrest htail

/-- An evaluator on the tape `t` after the calls of a list. -/
structure HistoryFree (target : Target F) (t : Tape F)
    (log : List (Call F × Outcome F (Answer F))) (e : Evaluator F) : Prop where
  evals : e.evals = evaluations log
  rejected : e.rejected = rejections log
  epoch : e.tape.epoch = t.epoch + UInt32.ofNat e.evals
  answer : ∀ x r, (.evaluate x, r) ∈ log →
    r = ((Evaluator.fresh target t.limit).perform (.evaluate x)).1
  read : ∀ call : Call F, call.isEvaluate = false → (e.perform call).2 = e
  fresh : ∀ x, x.length = target.dim →
    Evaluation.Fresh ((Evaluator.fresh target t.limit).evaluate x) (e.evaluate x)
  complete : ∀ x, x.length = target.dim →
    Evaluation.Complete target.dim (e.evals + 1) (e.evaluate x)

/-- No call leaves a trace in a later evaluation. -/
theorem history_free (target : Target F) (t : Tape F) (calls : List (Call F))
    (hfault : ∀ a ∈ (Evaluator.session { target := target, tape := t } calls).1,
      Call.isFault a = false) :
    HistoryFree target t (Evaluator.session { target := target, tape := t } calls).1
      (Evaluator.session { target := target, tape := t } calls).2 := by
  obtain ⟨htarget, hlimit, hevals, hrejected, hepoch⟩ := Evaluator.advanced_session calls hfault
  rw [Nat.zero_add] at hevals hrejected
  refine ⟨hevals, hrejected, ?_, fun x r => Evaluator.answer_of_mem_session hfault,
    fun call hread => ?_, fun x hx => ?_, fun x hx => ?_⟩
  · rw [hevals]
    exact hepoch
  · cases call <;> cases hread <;> rfl
  · have hfresh := Evaluator.evaluate_fresh (hx.trans (congrArg Target.dim htarget).symm)
    rw [htarget, hlimit] at hfresh
    exact hfresh
  · have hcomplete := Evaluator.evaluate_complete (hx.trans (congrArg Target.dim htarget).symm)
    rw [htarget] at hcomplete
    exact hcomplete

def logTarget : Target ℚ where
  dim := 1
  density := { steps := [.apply .log [0]] }

def usedTape : Tape ℚ where
  nodes := #[⟨.input, 9, 0⟩, ⟨.neg, -9, 1⟩]
  operands := #[0]
  partials := #[-1]
  epoch := 4
  limit := some 2
  exhausted := true

theorem history_free_logTarget :
    (∀ a ∈ (Evaluator.session { target := logTarget, tape := usedTape }
        [.evaluate [-1], .logDensity [2], .evaluate [2]]).1, Call.isFault a = false) ∧
    HistoryFree logTarget usedTape
      (Evaluator.session { target := logTarget, tape := usedTape }
        [.evaluate [-1], .logDensity [2], .evaluate [2]]).1
      (Evaluator.session { target := logTarget, tape := usedTape }
        [.evaluate [-1], .logDensity [2], .evaluate [2]]).2 := by
  have hfault : ∀ a ∈ (Evaluator.session { target := logTarget, tape := usedTape }
      [.evaluate [-1], .logDensity [2], .evaluate [2]]).1, Call.isFault a = false := by
    decide +kernel
  exact ⟨hfault, history_free logTarget usedTape _ hfault⟩

end Autodiff
