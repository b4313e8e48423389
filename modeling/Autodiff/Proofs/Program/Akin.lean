import Mathlib
import Autodiff.Proofs.Program.Lockstep
import Autodiff.Proofs.Tape.Akin

set_option autoImplicit false

namespace Autodiff

open Interpretation (recording)

variable {F α β γ : Type} {E : List (ℕ × F) → List (ℕ × F) → Prop}

namespace Worlds

/-- Two runs on tapes of one size whose edges are related. -/
def akin (E : List (ℕ × F) → List (ℕ × F) → Prop) : Worlds (Recorder F) (Recorder F) where
  World := {w : Recorder F × Recorder F // w.1.Akin E w.2}
  order :=
    { le := fun w w' => w.1.1.tape.Grows w'.1.1.tape
      le_refl := fun w => .refl w.1.1.tape
      le_trans := fun _ _ _ => Tape.Grows.trans }
  left w := w.1.1
  right w := w.1.2

def Shared (w : (akin E).World) (x y : Handle F) : Prop := y = x ∧ w.1.1.tape.Live x

theorem stable_shared : Stable (V := akin E) Shared :=
  fun _ _ _ _ hw h => ⟨h.1, Tape.Grows.live hw h.2⟩

theorem shared_constant (w : (akin E).World) (c : F) :
    Shared w (Handle.constant c) (Handle.constant c) :=
  ⟨rfl, Tape.live_constant _ _⟩

theorem eq_of_shared {w : (akin E).World} {xs ys : List (Handle F)}
    (h : List.Forall₂ (Shared w) xs ys) : ys = xs := by
  have hmap : xs.map id = ys.map id := map_eq_of_forall₂ h fun _ _ hxy => hxy.1.symm
  simpa using hmap.symm

theorem agree_shared_node {w : (akin E).World} {kind kind' : NodeKind} {xs ys : List (Handle F)}
    {partials partials' : List F} (value : F) (hxs : ∀ x ∈ xs, w.1.1.tape.Live x)
    (hys : ∀ y ∈ ys, w.1.1.tape.Live y) (hlen : xs.length = partials.length)
    (hlen' : ys.length = partials'.length)
    (hconstant : ys.all Handle.isConstant = xs.all Handle.isConstant)
    (hE : E (Tape.liveEdges (xs.map Handle.node) partials)
      (Tape.liveEdges (ys.map Handle.node) partials')) :
    (akin E).Agree Shared w (Recording.node kind xs partials value)
      (Recording.node kind' ys partials' value) := by
  obtain ⟨⟨s, s'⟩, hakin⟩ := w
  have hys' : ∀ y ∈ ys, s'.tape.Live y := fun y hy => hakin.live (hys y hy)
  have hrun' := Recording.node_of_live kind' value hys' hlen'
  rw [hconstant, hakin.isFull_eq, hakin.size_eq, hakin.epoch_eq] at hrun'
  rcases Recording.node_cases kind value hxs hlen with
    ⟨hall, hrun⟩ | ⟨hall, hfull, hrun⟩ | ⟨hall, hroom, hrun⟩
  · rw [hall, if_pos rfl] at hrun'
    exact ⟨⟨(s, s'), hakin⟩, _, _, Tape.Grows.refl s.tape, hrun, hrun',
      .ok ⟨rfl, Tape.live_constant _ _⟩⟩
  · rw [hall, hfull, if_neg Bool.false_ne_true, if_pos rfl] at hrun'
    exact ⟨⟨(s.refused, s'.refused), hakin.refused hfull⟩, _, _, s.grows_refused, hrun, hrun',
      .ok ⟨rfl, Tape.live_constant _ _⟩⟩
  · rw [hall, hroom, if_neg Bool.false_ne_true, if_neg Bool.false_ne_true] at hrun'
    exact ⟨⟨(_, _), hakin.pushed hroom kind kind' (fun _ he => Tape.lt_of_mem_liveEdges hxs he)
      (fun _ he => Tape.lt_of_mem_liveEdges hys' he) hE value⟩, _, _, Tape.grows_push _ _ _ _,
      hrun, hrun', .ok ⟨rfl, Tape.live_push _ _ _ _⟩⟩

def first (w : (akin E).World) : (recorded F).World := ⟨w.1.1, w.2.left_open⟩

theorem Agree.following {Q : (akin E).World → α → β → Prop}
    {R : (recorded F).World → γ → α → Prop} {w : (akin E).World} {x : Recording F α}
    {y : Recording F β} {r : Outcome F γ} (h : (akin E).Agree Q w x y)
    (hplain : (recorded F).Agree R (first w) r x) :
    (akin E).Agree (fun w a b => Q w a b ∧ ∃ c, r = .ok c ∧ R (first w) c a) w x y := by
  obtain ⟨w', r₁, r₂, hle, hx, hy, hrel⟩ := h
  obtain ⟨⟨s, hopen⟩, q, q₁, -, hr, hx', hrel'⟩ := hplain
  obtain rfl : r = q := congrArg Prod.fst hr
  obtain ⟨rfl, rfl⟩ := Prod.mk.inj (hx'.symm.trans hx)
  refine ⟨w', q₁, r₂, hle, hx, hy, ?_⟩
  cases hrel with
  | ok hab => exact .ok ⟨hab, hrel'.ok_right⟩
  | error e => exact .error e

end Worlds

theorem Simulation.akin [Arith F] [Functions F] (hE : ∀ es, E es es) :
    Simulation (recording (F := F)) recording (Worlds.akin E) Worlds.Shared :=
  .ofNodal nodal_recording nodal_recording Worlds.stable_shared (fun h => congrArg _ h.1.symm)
    Worlds.shared_constant (fun _ _ => rfl) (fun _ _ => rfl)
    fun {w xs ys} kind partials value h hlen => by
      obtain rfl := Worlds.eq_of_shared h
      have hlive : ∀ x ∈ ys, w.1.1.tape.Live x := forall_left_of_forall₂ h fun _ _ hxy => hxy.2
      exact Worlds.agree_shared_node value hlive hlive hlen.symm hlen.symm rfl (hE _)

namespace Recording

variable {x : List F}

section Epochs

variable {Q : (Worlds.akin E).World → α → β → Prop} {f : List (Handle F) → Recording F α}
  {g : List (Handle F) → Recording F β}

theorem rel_epoch (hE : ∀ es, E es es)
    (h : ∀ w hs, List.Forall₂ (Worlds.Tracks (Worlds.first w)) x hs →
      (Worlds.akin E).Agree Q w (f hs) (g hs)) (s : Recorder F) :
    ∃ (w : (Worlds.akin E).World) (r : Outcome F α) (r' : Outcome F β),
      epoch f x s = (r, w.1.1) ∧ epoch g x s = (r', w.1.2) ∧ Outcome.Rel (Q w) r r' := by
  by_cases hx : x.length ≤ s.tape.bound
  · obtain ⟨w, r, r', -, hf, hg, hrel⟩ :=
      h ⟨(begun s x, begun s x), .refl hE (open_begun hx) madeOf_begun⟩ _ (tracks_inputs hx)
    change f _ (begun s x) = (r, w.1.1) at hf
    change g _ (begun s x) = (r', w.1.2) at hg
    refine ⟨w, (settle (r, w.1.1)).1, (settle (r', w.1.2)).1, ?_, ?_,
      settle_rel hrel w.2.exhausted_eq w.2.capacity_eq⟩
    · rw [epoch_room hx, hf]
      exact Prod.ext rfl (snd_settle r w.1.1)
    · rw [epoch_room hx, hg]
      exact Prod.ext rfl (snd_settle r' w.1.2)
  · have hfull := Nat.lt_of_not_le hx
    rw [epoch_full hfull, epoch_full hfull]
    exact ⟨⟨(_, _), .refl hE (open_refused_begun hfull) (madeOf_begun.congr rfl rfl rfl)⟩, _, _, rfl,
      rfl, .error _⟩

end Epochs

variable [Arith F] [Functions F] {P : Tape F → Prop} {D : List F → List F → Prop}

/-- From the same seeds the two tapes give the inputs related adjoints, if `P` holds of the second. -/
abbrev SweepsRelate (E : List (ℕ × F) → List (ℕ × F) → Prop) (P : Tape F → Prop)
    (D : List F → List F → Prop) : Prop :=
  ∀ (w : (Worlds.akin E).World) (seeds : List (Handle F × F)) (n : ℕ),
    P w.1.2.tape → (∀ e ∈ seeds, w.1.1.tape.Live e.1) →
    D ((w.1.1.tape.adjointsFrom seeds).toList.take n)
      ((w.1.2.tape.adjointsFrom seeds).toList.take n)

theorem rel_valueGradient {f g : List (Handle F) → Recording F (Handle F)} (hE : ∀ es, E es es)
    (hD : SweepsRelate E P D)
    (h : ∀ w hs, List.Forall₂ (Worlds.Tracks (Worlds.first w)) x hs →
      (Worlds.akin E).Agree Worlds.Shared w (f hs) (g hs)) (s : Recorder F)
    (hP : P (epoch g x s).2.tape) :
    Outcome.Rel (fun a b => b.1 = a.1 ∧ D a.2 b.2) (valueGradient f x s).1
      (valueGradient g x s).1 := by
  obtain ⟨w, r, r', hf, hg, hrel⟩ := rel_epoch hE h s
  rw [hg] at hP
  unfold valueGradient
  rw [run_bind, run_bind, hf, hg]
  cases hrel with
  | error e => exact .error e
  | @ok _ y hy =>
    obtain ⟨rfl, hlive⟩ := hy
    have hseeds : ∀ e ∈ [(y, (1 : F))], w.1.1.tape.Live e.1 := List.forall_mem_singleton.mpr hlive
    unfold backward
    dsimp only
    rw [backwardFrom_take hseeds, backwardFrom_take fun e he => w.2.live (hseeds e he)]
    exact .ok ⟨rfl, hD w _ _ hP hseeds⟩

theorem rel_vjp {f g : List (Handle F) → Recording F (List (Handle F))} (hE : ∀ es, E es es)
    (hD : SweepsRelate E P D)
    (h : ∀ w hs, List.Forall₂ (Worlds.Tracks (Worlds.first w)) x hs →
      (Worlds.akin E).Agree (fun w => List.Forall₂ (Worlds.Shared w)) w (f hs) (g hs))
    (weights : List F) (s : Recorder F) (hP : P (epoch g x s).2.tape) :
    Outcome.Rel (fun a b => b.1 = a.1 ∧ D a.2 b.2) (vjp f x weights s).1
      (vjp g x weights s).1 := by
  obtain ⟨w, r, r', hf, hg, hrel⟩ := rel_epoch hE h s
  rw [hg] at hP
  unfold vjp
  rw [run_bind, run_bind, hf, hg]
  cases hrel with
  | error e => exact .error e
  | @ok _ ys hys =>
    obtain rfl := Worlds.eq_of_shared hys
    have hlive : ∀ y ∈ ys, w.1.1.tape.Live y := forall_left_of_forall₂ hys fun _ _ hxy => hxy.2
    have hseeds : ∀ e ∈ ys.zip weights, w.1.1.tape.Live e.1 :=
      fun e he => hlive _ (List.of_mem_zip he).1
    dsimp only
    split
    · exact .error _
    · rw [backwardFrom_take hseeds, backwardFrom_take fun e he => w.2.live (hseeds e he)]
      exact .ok ⟨rfl, hD w _ _ hP hseeds⟩

theorem sweepsRelate_eq : SweepsRelate (F := F) Eq (fun _ => True) Eq := fun w seeds n _ _ => by
  rw [Tape.adjointsFrom_congr w.2.size_eq fun i hi => w.2.edges_eq hi]

theorem sweepsRelate_weight {K : Type} [CommRing K] [Div K] [Functions K] [ExactRing K] :
    SweepsRelate (F := K) Tape.EqualWeights Tape.Addressable Eq := by
  intro w _ n haddr hlive
  have hedges : ∀ i, i < w.1.1.tape.size →
      ∀ k, Tape.weight (w.1.2.tape.edges i) k = Tape.weight (w.1.1.tape.edges i) k :=
    fun i hi => (w.2.edges (w.2.addressable (fun _ _ h => h.1) haddr) haddr hi).2
  exact congrArg (List.take n) (Tape.adjointsFrom_of_weight w.2.left_open.toWellFormed
    w.2.right_open.toWellFormed w.2.size_eq hedges hlive fun e he => w.2.live (hlive e he)).symm

end Recording

end Autodiff
