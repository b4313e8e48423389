import Autodiff.Gradient.Evaluator

set_option autoImplicit false

namespace Autodiff

/-- Point numbers of every job, in the order in which the job treats them. -/
abbrev Schedule := List (List Nat)

def Schedule.separate (n : Nat) : Schedule := (List.range n).map fun i => [i]

namespace Batch

variable {F α : Type}

/-- Results of one job, each with its point number. The tape goes from point to point, also after an
error. -/
def runJob (work : List F → Recording F α) (points : List (List F)) :
    List Nat → Tape F → List (Nat × Outcome F α)
  | [], _ => []
  | i :: rest, t =>
    let (result, recorder) := (work (points.getD i [])).run.run { tape := t }
    (i, result) :: runJob work points rest recorder.tape

def run (schedule : Schedule) (work : List F → Recording F α) (points : List (List F)) :
    List (Outcome F α) :=
  let results := schedule.flatMap fun job => runJob work points job .empty
  -- However the jobs were ordered, the results come in the order of the points.
  (List.range points.length).filterMap fun i => results.lookup i

/-- Errors stay with their points, but a fault ends the whole batch. -/
def collect (results : List (Outcome F α)) : Except Fault (List (Except (EvalError F) α)) :=
  results.mapM fun r =>
    match r with
    | .ok y => .ok (.ok y)
    | .error (.error cause) => .ok (.error cause)
    | .error (.fault cause) => .error cause

variable [Arith F] [Functions F]

def evaluate (schedule : Schedule) (target : Target F) (points : List (List F)) :
    List (Outcome F (F × List F)) :=
  run schedule
    (fun x => do
      if x.length ≠ target.dim then Recording.fault .parameterCount
      else target.density.recordGradient x)
    points

def gradient (schedule : Schedule) (p : Program F) (points : List (List F)) :
    List (Outcome F (List F)) :=
  run schedule (fun x => do return (← p.recordGradient x).2) points

end Batch

end Autodiff
