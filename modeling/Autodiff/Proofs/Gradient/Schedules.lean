import Mathlib
import Autodiff.Gradient.Batch
import Autodiff.Proofs.Gradient.History

set_option autoImplicit false

namespace Autodiff

variable {F α : Type}

def Schedule.Covers (schedule : Schedule) (n : ℕ) : Prop :=
  schedule.flatten.Perm (List.range n)

namespace Batch

variable {schedule : Schedule} {work : List F → Recording F α} {alone : List F → Outcome F α}
variable {points : List (List F)}

/-- On every tape without a limit the work has the result that it has alone, and the tape stays
without a limit. -/
def Repeatable (work : List F → Recording F α) (alone : List F → Outcome F α) : Prop :=
  ∀ (x : List F) (t : Tape F), t.limit = none →
    ∃ s, work x { tape := t } = (alone x, s) ∧ s.tape.limit = none

theorem runJob_eq (h : Repeatable work alone) (job : List ℕ) {t : Tape F} (ht : t.limit = none) :
    runJob work points job t = job.map fun i => (i, alone (points.getD i [])) := by
  induction job generalizing t with
  | nil => rfl
  | cons i job ih =>
    obtain ⟨s, hrun, hs⟩ := h (points.getD i []) t ht
    have hrun' : (work (points.getD i [])).run.run { tape := t } =
        (alone (points.getD i []), s) := hrun
    rw [List.map_cons, ← ih hs]
    simp only [runJob, hrun']

theorem run_eq (h : Repeatable work alone) (hcovers : schedule.Covers points.length) :
    run schedule work points = points.map alone := by
  have hjobs : (schedule.flatMap fun job => runJob work points job .empty) =
      schedule.flatten.map fun i => (i, alone (points.getD i [])) := by
    simp only [runJob_eq h _ (rfl : (Tape.empty : Tape F).limit = none)]
    rw [List.map_flatten, List.flatMap_def]
  have hpoint : ∀ i ∈ List.range points.length,
      (schedule.flatten.map fun i => (i, alone (points.getD i []))).lookup i =
        some (alone (points.getD i [])) :=
    fun i hi => List.lookup_graph _ (hcovers.mem_iff.mpr hi)
  unfold run
  simp only [hjobs]
  rw [List.filterMap_congr hpoint, List.filterMap_eq_map']
  refine List.ext_getElem (by simp) fun i hi hi' => ?_
  have hi : i < points.length := by simpa using hi
  simp [hi]

def settled (answer : Except (EvalError F) α) : Outcome F α := answer.mapError .error

theorem collect_settled (answer : Except (EvalError F) α) (results : List (Outcome F α)) :
    collect (settled answer :: results) = (collect results).map (answer :: ·) := by
  have hcons : collect (settled answer :: results) =
      collect results >>= fun answers => pure (answer :: answers) := by
    cases answer <;> exact List.mapM_cons
  rw [hcons]
  cases collect results <;> rfl

theorem settled_or_fault (r : Outcome F α) :
    (∃ answer, r = settled answer) ∨ ∃ cause, r = .error (.fault cause) := by
  rcases r with (cause | cause) | y
  · exact .inl ⟨.error cause, rfl⟩
  · exact .inr ⟨cause, rfl⟩
  · exact .inl ⟨.ok y, rfl⟩

theorem settled_ne_fault (answer : Except (EvalError F) α) (cause : Fault) :
    settled answer ≠ .error (.fault cause) := by
  cases answer <;> simp [settled, Except.mapError]

theorem settled_inj {a b : Except (EvalError F) α} : settled a = settled b ↔ a = b := by
  cases a <;> cases b <;> simp [settled, Except.mapError]

theorem collect_eq_ok {results : List (Outcome F α)} {answers : List (Except (EvalError F) α)} :
    collect results = .ok answers ↔ results = answers.map settled := by
  induction results generalizing answers with
  | nil =>
    cases answers with
    | nil => simp [collect, pure, Except.pure]
    | cons answer answers => simp [collect, pure, Except.pure]
  | cons r results ih =>
    rcases settled_or_fault r with ⟨answer, rfl⟩ | ⟨cause, rfl⟩
    · rw [collect_settled]
      cases answers with
      | nil => cases collect results <;> simp [Except.map]
      | cons answer' answers =>
        rw [List.map_cons, List.cons.injEq, ← ih, settled_inj]
        cases collect results <;> simp [Except.map]
    · have hfault : collect (.error (.fault cause) :: results) = .error cause := rfl
      rw [hfault]
      cases answers with
      | nil => simp
      | cons answer answers => simp [(settled_ne_fault answer cause).symm]

structure Returns (results alone : List (Outcome F α)) : Prop where
  answers : ∀ answers, collect results = .ok answers ↔ alone = answers.map settled
  answered : (∃ answers, collect results = .ok answers) ↔
    ∀ r ∈ alone, ∀ cause, r ≠ .error (.fault cause)

theorem returns_self (results : List (Outcome F α)) : Returns results results where
  answers _ := collect_eq_ok
  answered := by
    refine ⟨fun ⟨answers, hanswers⟩ r hr cause => ?_, fun hfault => ?_⟩
    · rw [collect_eq_ok.mp hanswers] at hr
      obtain ⟨answer, -, rfl⟩ := List.mem_map.mp hr
      exact settled_ne_fault answer cause
    · induction results with
      | nil => exact ⟨[], rfl⟩
      | cons r results ih =>
        obtain ⟨answers, hanswers⟩ := ih fun r' hr' => hfault r' (List.mem_cons_of_mem r hr')
        obtain ⟨answer, rfl⟩ := (settled_or_fault r).resolve_right
          fun ⟨cause, hr⟩ => hfault r List.mem_cons_self cause hr
        exact ⟨answer :: answers, by rw [collect_settled, hanswers]; rfl⟩

variable [Arith F] [Functions F]

theorem repeatable_gradient (p : Program F) :
    Repeatable p.recordGradient p.valueGradient := by
  intro x t ht
  obtain ⟨r, s, s', hrun, hfresh, h⟩ :=
    Recording.repeated p x { tape := t } { tape := .empty } ht.symm
  refine ⟨s, ?_, h.limit.trans ht⟩
  have halone : p.valueGradient x = r := congrArg Prod.fst hfresh
  rw [hrun, halone]

theorem result_fresh (target : Target F) {x : List F} (hx : x.length = target.dim) :
    ((Evaluator.fresh target none).evaluate x).result = target.density.valueGradient x := by
  rcases hrun : target.density.recordGradient x { tape := .empty } with ⟨r, s⟩
  have hresult : target.density.valueGradient x = r := congrArg Prod.fst hrun
  rw [Evaluator.evaluate_eq_conclude (e := Evaluator.fresh target none) hx hrun,
    Evaluator.result_conclude, hresult]

theorem repeatable_evaluate (target : Target F) :
    Repeatable
      (fun x => do
        if x.length ≠ target.dim then Recording.fault .parameterCount
        else target.density.recordGradient x)
      fun x => ((Evaluator.fresh target none).evaluate x).result := by
  intro x t ht
  by_cases hx : x.length = target.dim
  · simp only [if_neg (not_not.mpr hx), result_fresh target hx]
    exact repeatable_gradient target.density x t ht
  · have halone : ((Evaluator.fresh target none).evaluate x).result =
        .error (.fault .parameterCount) :=
      Evaluator.result_evaluate_of_ne hx
    simp only [if_pos hx, halone]
    exact ⟨{ tape := t }, rfl, ht⟩

omit [Arith F] [Functions F] in
theorem Repeatable.map {β : Type} (h : Repeatable work alone) (f : α → β) :
    Repeatable (fun x => do return f (← work x)) fun x => (alone x).map f := by
  intro x t ht
  obtain ⟨s, hrun, hs⟩ := h x t ht
  refine ⟨s, ?_, hs⟩
  change (work x >>= fun y => pure (f y)) { tape := t } = ((alone x).map f, s)
  rw [run_bind, hrun]
  cases alone x <;> rfl

/-- What the points of a batch give alone is what the batch returns, and replacing one point
changes no result but its own. -/
structure Separate (schedule : Schedule) (target : Target F) (points : List (List F)) : Prop where
  evaluate : Returns (Batch.evaluate schedule target points)
    (points.map fun x => ((Evaluator.fresh target none).evaluate x).result)
  gradient : Returns (Batch.gradient schedule target.density points)
    (points.map fun x => (target.density.valueGradient x).map Prod.snd)
  isolated : ∀ i j x, i ≠ j →
    (Batch.evaluate schedule target (points.set j x))[i]? =
        (Batch.evaluate schedule target points)[i]? ∧
      (Batch.gradient schedule target.density (points.set j x))[i]? =
        (Batch.gradient schedule target.density points)[i]?

theorem evaluate_eq (target : Target F) (hcovers : schedule.Covers points.length) :
    Batch.evaluate schedule target points =
      points.map fun x => ((Evaluator.fresh target none).evaluate x).result :=
  run_eq (repeatable_evaluate target) hcovers

theorem gradient_eq (p : Program F) (hcovers : schedule.Covers points.length) :
    Batch.gradient schedule p points = points.map fun x => (p.valueGradient x).map Prod.snd :=
  run_eq ((repeatable_gradient p).map Prod.snd) hcovers

/-- However a schedule divides and orders the points, each of them gets what it gets alone. -/
theorem batch_separate (target : Target F) (hcovers : schedule.Covers points.length) :
    Separate schedule target points where
  evaluate := by
    rw [evaluate_eq target hcovers]
    exact returns_self _
  gradient := by
    rw [gradient_eq target.density hcovers]
    exact returns_self _
  isolated i j x hij := by
    have hset : schedule.Covers (points.set j x).length := by rwa [List.length_set]
    rw [evaluate_eq target hcovers, evaluate_eq target hset, gradient_eq target.density hcovers,
      gradient_eq target.density hset]
    simp [List.getElem?_set_ne hij.symm]

theorem batch_separate_logTarget :
    Schedule.Covers [[2, 0], [], [1]] [[(-1 : ℚ)], [2], [3]].length ∧
      Separate [[2, 0], [], [1]] logTarget [[-1], [2], [3]] := by
  have hcovers : Schedule.Covers [[2, 0], [], [1]] [[(-1 : ℚ)], [2], [3]].length := by
    unfold Schedule.Covers
    decide
  exact ⟨hcovers, batch_separate logTarget hcovers⟩

end Batch

end Autodiff
