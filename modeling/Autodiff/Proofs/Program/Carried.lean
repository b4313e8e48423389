import Mathlib
import Autodiff.Proofs.Dual.Linear
import Autodiff.Proofs.Tape.Tangents

set_option autoImplicit false

namespace Autodiff

open Interpretation (forward recording)
open Recording (Mirrors begun)

variable {F : Type} [Field F]

namespace Worlds

/-- One run has no state, the other has recorded a tape that carries tangents, unless it has too many
operands. -/
def carried (F : Type) [Field F] (n : ℕ) : Worlds Unit (Recorder F) where
  World := {w : Recorder F × (ℕ → F) //
    w.1.tape.Open ∧ (w.1.tape.Addressable → w.1.tape.Carries n w.2)}
  order :=
    { le := fun w w' => w.1.1.tape.Grows w'.1.1.tape ∧
        ∀ i, i < w.1.1.tape.size → w'.1.2 i = w.1.2 i
      le_refl := fun w => ⟨.refl w.1.1.tape, fun _ _ => rfl⟩
      le_trans := fun _ _ _ h h' => ⟨h.1.trans h'.1, fun i hi =>
        (h'.2 i (Nat.lt_of_lt_of_le hi h.1.size_le)).trans (h.2 i hi)⟩ }
  left _ := ()
  right w := w.1.1

variable {n : ℕ}

theorem recorded_carried : (carried F n).Recorded where
  isOpen w := w.2.1
  grows h := h.1

/-- A live handle with the value of the dual number and, as long as nothing was refused, with its
tangent. -/
structure Carried (w : (carried F n).World) (d : Dual F) (h : Handle F) : Prop where
  value : d.value = h.value
  live : w.1.1.tape.Live h
  tangent : w.1.1.tape.exhausted = false → d.tangent = Tape.tangentAt w.1.2 h

theorem stable_carried : Stable (V := carried F n) Carried := by
  intro w w' d h hle hd
  refine ⟨hd.value, hle.1.live hd.live, fun hex => ?_⟩
  rw [hd.tangent (hle.1.unspent hex), Tape.tangentAt_congr hle.2 hd.live]

theorem carried_constant (w : (carried F n).World) (c : F) :
    Carried w (Dual.constant c) (Handle.constant c) :=
  ⟨rfl, Tape.live_constant _ _, fun _ => rfl⟩

theorem map_tangent_of_carried {w : (carried F n).World} {ds : List (Dual F)}
    {hs : List (Handle F)} (h : List.Forall₂ (Carried w) ds hs)
    (hex : w.1.1.tape.exhausted = false) :
    ds.map Dual.tangent = hs.map (Tape.tangentAt w.1.2) :=
  map_eq_of_forall₂ h fun _ _ hd => hd.tangent hex

theorem agree_tangent_node {w : (carried F n).World} {ds : List (Dual F)} {hs : List (Handle F)}
    (kind : NodeKind) (partials : List F) (y : F) (h : List.Forall₂ (Carried w) ds hs)
    (hlen : partials.length = ds.length) :
    (carried F n).Agree Carried w (tangentRule kind ds partials y)
      (Recording.node kind hs partials y) := by
  obtain ⟨⟨s, τ⟩, hopen, hcarries⟩ := w
  have hlive : ∀ x ∈ hs, s.tape.Live x := forall_right_of_forall₂ h fun _ _ hd => hd.live
  rcases Recording.node_cases kind y hlive (h.length_eq.symm.trans hlen.symm) with
    ⟨hall, hrun⟩ | ⟨-, hfull, hrun⟩ | ⟨-, hroom, hrun⟩
  · refine ⟨⟨(s, τ), hopen, hcarries⟩, _, _, le_refl _, rfl, hrun, .ok ⟨rfl, ?_, fun hex => ?_⟩⟩
    · exact Tape.live_constant _ _
    · change dot partials (ds.map Dual.tangent) = 0
      rw [map_tangent_of_carried h hex]
      refine dot_eq_zero _ fun z hz => ?_
      obtain ⟨x, hx, rfl⟩ := List.mem_map.mp hz
      exact Tape.tangentAt_of_isConstant τ (List.all_eq_true.mp hall x hx)
  · refine ⟨⟨(s.refused, τ), Recorder.open_refused hopen hfull, ?_⟩, _, _,
      ⟨Recorder.grows_refused s, fun _ _ => rfl⟩, rfl, hrun, .ok ⟨rfl, ?_, fun hex => ?_⟩⟩
    · exact fun haddr => ⟨(hcarries haddr).inputs_le, (hcarries haddr).bare, (hcarries haddr).linked⟩
    · exact Tape.live_constant _ _
    · cases hex
  · have hes : ∀ e ∈ Tape.liveEdges (hs.map Handle.node) partials, e.1 < s.tape.size :=
      fun e he => Tape.lt_of_mem_liveEdges hlive he
    refine ⟨⟨(s.pushed kind _ y, _), Recorder.open_pushed hopen hroom kind hlive partials y,
      fun haddr => (hcarries (Tape.addressable_of_push haddr)).push hopen.toWellFormed hes haddr⟩,
      _, _,
      ⟨Tape.grows_push _ _ _ _, fun i hi => Function.update_of_ne (Nat.ne_of_lt hi) _ _⟩, rfl, hrun,
      .ok ⟨rfl, Tape.live_push _ _ _ _, fun hex => ?_⟩⟩
    have htangents := map_tangent_of_carried h hex
    change dot partials (ds.map Dual.tangent) = Function.update τ s.tape.size _ s.tape.size
    rw [Function.update_self, Tape.sum_liveEdges, htangents]

end Worlds

variable [Functions F] [ExactField F]

theorem Simulation.forwardRecording (n : ℕ) :
    Simulation (forward (F := F)) recording (Worlds.carried F n) Worlds.Carried :=
  .ofNodal nodal_forward nodal_recording Worlds.stable_carried (fun h => h.value)
    Worlds.carried_constant (fun _ _ => rfl) (fun _ _ => rfl) Worlds.agree_tangent_node

end Autodiff
