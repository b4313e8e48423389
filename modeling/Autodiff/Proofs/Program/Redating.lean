import Autodiff.Proofs.Program.Nodal
import Autodiff.Proofs.Tape.Growth

set_option autoImplicit false

namespace Autodiff

open Interpretation (recording)

variable {F : Type}

def Tape.redated (t : Tape F) (epoch : UInt32) : Tape F := { t with epoch := epoch }

def Tape.report (t : Tape F) : List (Event F) :=
  if t.exhausted then [.exhausted t.capacity t.epoch] else []

theorem Tape.report_of_room {t : Tape F} (hex : t.exhausted = false) : t.report = [] :=
  if_neg (Bool.eq_false_iff.mp hex)

namespace Recorder

variable {events events' : List (Event F)} {s s' : Recorder F}

structure Dated (events : List (Event F)) (s : Recorder F) : Prop where
  isOpen : s.tape.Open
  events : s.events = events ++ s.tape.report

theorem Dated.refused (h : s.Dated events) (hfull : s.tape.isFull = true) :
    s.refused.Dated events where
  isOpen := open_refused h.isOpen hfull
  events := by
    cases hex : s.tape.exhausted with
    | false => simp [Recorder.refused, Tape.report, Tape.capacity, h.events, hex]
    | true => rw [refused_of_exhausted hex, h.events]

theorem Dated.pushed (h : s.Dated events) (hroom : s.tape.isFull = false) (kind : NodeKind)
    {args : List (Handle F)} (hargs : ∀ x ∈ args, s.tape.Live x) (partials : List F) (value : F) :
    (s.pushed kind (Tape.liveEdges (args.map Handle.node) partials) value).Dated events where
  isOpen := open_pushed h.isOpen hroom kind hargs partials value
  events := by
    have hex : s.tape.exhausted = false := h.isOpen.unspent hroom
    have hevents : s.events = events := by rw [h.events, Tape.report_of_room hex, List.append_nil]
    rw [Tape.report_of_room (t := (s.pushed _ _ _).tape) hex, List.append_nil]
    exact hevents

/-- Two recorders that differ in their epochs and in what they had reported before. -/
structure Redated (events events' : List (Event F)) (s s' : Recorder F) : Prop where
  left : s.Dated events
  right : s'.Dated events'
  tape : s'.tape = s.tape.redated s'.tape.epoch

theorem Redated.isFull_eq (h : s.Redated events events' s') : s'.tape.isFull = s.tape.isFull := by
  rw [h.tape]
  rfl

theorem Redated.refused (h : s.Redated events events' s') (hfull : s.tape.isFull = true) :
    s.refused.Redated events events' s'.refused where
  left := h.left.refused hfull
  right := h.right.refused (h.isFull_eq.trans hfull)
  tape := congrArg (fun t : Tape F => { t with exhausted := true }) h.tape

theorem Redated.pushed (h : s.Redated events events' s') (kind : NodeKind) (es : List (ℕ × F))
    (value : F) (hleft : (s.pushed kind es value).Dated events)
    (hright : (s'.pushed kind es value).Dated events') :
    (s.pushed kind es value).Redated events events' (s'.pushed kind es value) where
  left := hleft
  right := hright
  tape := congrArg (fun t : Tape F => t.push kind es value) h.tape

end Recorder

namespace Worlds

def redated (F : Type) (events events' : List (Event F)) : Worlds (Recorder F) (Recorder F) where
  World := {w : Recorder F × Recorder F // w.1.Redated events events' w.2}
  order :=
    { le := fun w w' => w.1.1.tape.Grows w'.1.1.tape ∧ w.1.2.tape.Grows w'.1.2.tape
      le_refl := fun w => ⟨.refl w.1.1.tape, .refl w.1.2.tape⟩
      le_trans := fun _ _ _ h h' => ⟨h.1.trans h'.1, h.2.trans h'.2⟩ }
  left w := w.1.1
  right w := w.1.2

variable {events events' : List (Event F)}

/-- Handles on the same node with the same value, each live in its own epoch. -/
structure Cognate (w : (redated F events events').World) (x y : Handle F) : Prop where
  value : x.value = y.value
  node : x.node = y.node
  live : w.1.1.tape.Live x
  live' : w.1.2.tape.Live y

theorem stable_cognate : Stable (V := redated F events events') Cognate := by
  intro w w' x y hle h
  exact ⟨h.value, h.node, hle.1.live h.live, hle.2.live h.live'⟩

theorem cognate_constant (w : (redated F events events').World) (c : F) :
    Cognate w (Handle.constant c) (Handle.constant c) :=
  ⟨rfl, rfl, Tape.live_constant _ _, Tape.live_constant _ _⟩

theorem agree_cognate_node {w : (redated F events events').World} {xs ys : List (Handle F)}
    (kind : NodeKind) (partials : List F) (y : F) (h : List.Forall₂ (Cognate w) xs ys)
    (hlen : partials.length = xs.length) :
    (redated F events events').Agree Cognate w (Recording.node kind xs partials y)
      (Recording.node kind ys partials y) := by
  obtain ⟨⟨s, s'⟩, hw⟩ := w
  have hlive : ∀ x ∈ xs, s.tape.Live x := forall_left_of_forall₂ h fun _ _ hxy => hxy.live
  have hlive' : ∀ x ∈ ys, s'.tape.Live x := forall_right_of_forall₂ h fun _ _ hxy => hxy.live'
  have hnodes : ys.map Handle.node = xs.map Handle.node :=
    (map_eq_of_forall₂ h fun _ _ hxy => hxy.node).symm
  have hrun' := Recording.node_of_live kind y hlive' (h.length_eq.symm.trans hlen.symm)
  rw [Recording.all_isConstant, hw.isFull_eq, hnodes, ← Recording.all_isConstant] at hrun'
  rcases Recording.node_cases kind y hlive hlen.symm with
    ⟨hall, hrun⟩ | ⟨hall, hfull, hrun⟩ | ⟨hall, hroom, hrun⟩
  · rw [hall, if_pos rfl] at hrun'
    exact ⟨⟨(s, s'), hw⟩, _, _, le_refl _, hrun, hrun', .ok (cognate_constant _ y)⟩
  · rw [hall, hfull, if_neg Bool.false_ne_true, if_pos rfl] at hrun'
    exact ⟨⟨(s.refused, s'.refused), hw.refused hfull⟩, _, _,
      ⟨Recorder.grows_refused s, Recorder.grows_refused s'⟩, hrun, hrun',
      .ok (cognate_constant _ y)⟩
  · rw [hall, hroom, if_neg Bool.false_ne_true, if_neg Bool.false_ne_true] at hrun'
    have hright := hw.right.pushed (hw.isFull_eq.trans hroom) kind hlive' partials y
    rw [hnodes] at hright
    have hsize : s.tape.size = s'.tape.size := by
      rw [hw.tape]
      rfl
    exact ⟨⟨(s.pushed kind _ y, s'.pushed kind _ y),
        hw.pushed kind _ y (hw.left.pushed hroom kind hlive partials y) hright⟩, _, _,
      ⟨Tape.grows_push _ _ _ _, Tape.grows_push _ _ _ _⟩, hrun, hrun',
      .ok ⟨rfl, congrArg some hsize, Tape.live_push _ _ _ _, Tape.live_push _ _ _ _⟩⟩

end Worlds

theorem Simulation.redated [Arith F] [Functions F] (events events' : List (Event F)) :
    Simulation (recording (F := F)) recording (Worlds.redated F events events') Worlds.Cognate :=
  .ofNodal nodal_recording nodal_recording Worlds.stable_cognate (fun h => h.value)
    Worlds.cognate_constant (fun _ _ => rfl) (fun _ _ => rfl) Worlds.agree_cognate_node

end Autodiff
