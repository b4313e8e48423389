import Autodiff.Proofs.Program.Nodal
import Autodiff.Proofs.Program.Mirror

set_option autoImplicit false

namespace Autodiff

open Interpretation (plain forward recording)

variable {F S T σ τ α β γ δ : Type}

def Program.upTo (p : Program F) (k : ℕ) : Program F := { p with steps := p.steps.take k }

section

variable {m n : Type → Type} [Monad m] [Monad n]

def Slots.greater (I : Interpretation F S m) (slots : Slots S) (i j : ℕ) : Outcome F Bool := do
  return I.gt (← slots.scalar i) (← slots.scalar j)

/-- Equal values in equal shapes, and the same answer to every comparison. -/
structure Slots.Same (I : Interpretation F S m) (J : Interpretation F T n) (slots : Slots S)
    (slots' : Slots T) : Prop where
  values : Slots.Rel (fun x y => I.value x = J.value y) slots slots'
  branches : ∀ i j, slots.greater I i j = slots'.greater J i j

variable [Runs F σ m] [Runs F τ n]

theorem Simulation.same {I : Interpretation F S m} {J : Interpretation F T n} {V : Worlds σ τ}
    {R : V.World → S → T → Prop} (sim : Simulation I J V R) {w : V.World} {slots : Slots S}
    {slots' : Slots T} (h : Slots.Rel (R w) slots slots') : Slots.Same I J slots slots' where
  values := h.imp fun _ _ hxy => hxy.mono fun _ _ => sim.value
  branches i j := by
    have hgreater : Outcome.Rel (F := F) Eq (slots.greater I i j) (slots'.greater J i j) := by
      refine (h.scalar i).bind fun x y hxy => ?_
      exact (h.scalar j).bind fun x' y' hxy' => .ok (sim.gt hxy hxy')
    exact hgreater.eq

end

variable [Arith F] [Functions F]

namespace Worlds

def stateless : Worlds Unit Unit where
  World := Unit
  order := PUnit.instLinearOrder.toPreorder
  left _ := ()
  right _ := ()

omit [Arith F] [Functions F] in
theorem Agree.outcome {Q : stateless.World → α → β → Prop} {x : Outcome F α} {y : Outcome F β}
    (h : stateless.Agree Q () x y) : Outcome.Rel (Q ()) x y := by
  obtain ⟨w, r, r', _, hx, hy, hr⟩ := h
  obtain rfl : x = r := congrArg Prod.fst hx
  obtain rfl : y = r' := congrArg Prod.fst hy
  exact hr

end Worlds

theorem Simulation.plainForward :
    Simulation (plain (F := F)) forward Worlds.stateless fun _ x d => x = d.value where
  stable _ _ _ _ _ h := h
  value h := h
  gt hx hy := congrArg₂ Functions.gt hx hy
  const _ _ := rfl
  add hx hy := Worlds.agree_pure (congrArg₂ (· + ·) hx hy)
  sub hx hy := Worlds.agree_pure (congrArg₂ (· - ·) hx hy)
  mul hx hy := Worlds.agree_pure (congrArg₂ (· * ·) hx hy)
  div hx hy := Worlds.agree_pure (congrArg₂ (· / ·) hx hy)
  neg hx := Worlds.agree_pure (congrArg (- ·) hx)
  apply p h := by
    rw [nodal_plain.apply]
    refine (Worlds.agree_ofOutcome
      (Q := fun _ (a : Vector F p.arity) (b : Vector (Dual F) p.arity) =>
        List.Forall₂ (fun x d => x = d.value) a.toList b.toList)
      (f := (plain (F := F)).ofOutcome) (g := (forward (F := F)).ofOutcome)
      (fun _ _ => rfl) (fun _ _ => rfl) (p.operands_rel h)).bind fun _ a b _ hab => ?_
    rw [Vector.map_eq_of_forall₂ (f := (plain (F := F)).value) (g := Dual.value) hab
      fun _ _ hxy => hxy]
    refine (Worlds.agree_ofOutcome (Q := fun _ => Eq) (f := (plain (F := F)).ofOutcome)
      (g := (forward (F := F)).ofOutcome) (fun _ _ => rfl) (fun _ _ => rfl)
      (Outcome.Rel.refl _)).bind fun _ y y' _ hy => ?_
    exact Worlds.agree_pure hy
  applyJoint op h := by
    rw [nodal_plain.applyJoint,
      h.map_eq (f := (plain (F := F)).value) (g := Dual.value) fun _ _ hxy => hxy]
    refine (Worlds.agree_ofOutcome (Q := fun _ => Eq) (f := (plain (F := F)).ofOutcome)
      (g := (forward (F := F)).ofOutcome) (fun _ _ => rfl) (fun _ _ => rfl)
      (Outcome.Rel.refl _)).bind fun _ c c' _ hc => ?_
    subst hc
    have hcopy : Matrix.ofFnM c.rows c.cols (fun k l => (.ok (c.get k l) : Outcome F F)) =
        pure (.ofFn c.rows c.cols c.get) := Matrix.ofFnM_pure _ _ _
    rw [hcopy]
    exact Worlds.agree_pure (.ofFn fun _ _ => rfl)
  runLeft _ _ := rfl
  runRight _ _ := rfl

namespace Worlds

def recorded (F : Type) : Worlds Unit (Recorder F) where
  World := {s : Recorder F // s.tape.Open}
  order :=
    { le := fun s s' => s.1.tape.Grows s'.1.tape
      le_refl := fun s => .refl s.1.tape
      le_trans := fun _ _ _ => Tape.Grows.trans }
  left _ := ()
  right := Subtype.val

def Tracks (s : (recorded F).World) (x : F) (h : Handle F) : Prop :=
  x = h.value ∧ s.1.tape.Live h

omit [Arith F] [Functions F] in
theorem recorded_recorded : (recorded F).Recorded where
  isOpen s := s.2
  grows h := h

omit [Arith F] [Functions F] in
theorem agree_node {s : (recorded F).World} {xs : List F} {hs : List (Handle F)} (kind : NodeKind)
    (partials : List F) (y : F) (h : List.Forall₂ (Tracks s) xs hs)
    (hlen : partials.length = xs.length) :
    (recorded F).Agree Tracks s (.ok y : Outcome F F) (Recording.node kind hs partials y) := by
  obtain ⟨s, hopen⟩ := s
  have hlive : ∀ x ∈ hs, s.tape.Live x := forall_right_of_forall₂ h fun _ _ hxy => hxy.2
  obtain ⟨z, s', hrun, hvalue, hz, hgrows, hopen'⟩ :=
    Recording.node_open hopen kind y hlive (h.length_eq.symm.trans hlen.symm)
  exact ⟨⟨s', hopen'⟩, .ok y, _, hgrows, rfl, hrun, .ok ⟨hvalue.symm, hz⟩⟩

end Worlds

theorem Simulation.plainRecording :
    Simulation (plain (F := F)) recording (Worlds.recorded F) Worlds.Tracks :=
  .ofNodal nodal_plain nodal_recording
    (fun _ _ _ _ hw h => ⟨h.1, Tape.Grows.live hw h.2⟩) (fun h => h.1)
    (fun _ _ => ⟨rfl, Tape.live_constant _ _⟩) (fun _ _ => rfl) (fun _ _ => rfl) Worlds.agree_node

open Recording (Mirrors Swept)

/-- The runs of `p` at the values of `ds`: on plain numbers, on dual numbers with the tangents of
`ds`, and recorded on the tape of `s`. -/
structure Lockstep (p : Program F) (ds : List (Dual F)) (s : Recorder F) : Prop where
  forward : ∀ k, Outcome.Rel (Slots.Same plain forward)
    ((p.upTo k).slots plain (ds.map Dual.value)) ((p.upTo k).slots forward ds)
  reverse : ∀ k, Mirrors
    (fun s' slots slots' => s'.tape.WellFormed ∧ Slots.Same plain recording slots slots' ∧
      ∀ i x, slots'.scalar i = (.ok x : Outcome F (Handle F)) → s'.tape.Live x)
    s.tape ((p.upTo k).slots plain (ds.map Dual.value))
    (Recording.epoch ((p.upTo k).slots recording) (ds.map Dual.value) s)
  gradient : Mirrors
    (fun s' y g => y = g.1 ∧ g.2.length = ds.length ∧ Swept ds.length s'.tape)
    s.tape (p.runScalar plain (ds.map Dual.value)) (p.recordGradient (ds.map Dual.value) s)
  product : ∀ w, Mirrors
    (fun s' ys g => ys = g.1 ∧ g.2.length = ds.length ∧ Swept ds.length s'.tape)
    s.tape
    (do
      let ys ← p.run plain (ds.map Dual.value)
      if ys.length ≠ w.length then .error (.fault .weightLength) else return ys)
    (Recording.vjp (p.run recording) (ds.map Dual.value) w s)

omit [Arith F] [Functions F] in
theorem tracks_inputs {x : List F} {s : Recorder F} (hx : x.length ≤ s.tape.bound) :
    List.Forall₂ (Worlds.Tracks ⟨Recording.begun s x, Recording.open_begun hx⟩) x
      (Handle.inputs (s.tape.epoch + 1) 0 x) :=
  Recording.forall₂_begun rfl fun _ hi _ => ⟨rfl, Recording.live_inputs hi _⟩

omit [Arith F] [Functions F] in
theorem recorded_epoch {Q : (Worlds.recorded F).World → α → β → Prop} {r : Outcome F α}
    {f : List (Handle F) → Recording F β} {x : List F} {s : Recorder F}
    (h : ∀ w hs, List.Forall₂ (Worlds.Tracks w) x hs → (Worlds.recorded F).Agree Q w r (f hs)) :
    Mirrors (fun s' a b => ∃ hopen : s'.tape.Open, x.length ≤ s'.tape.size ∧ Q ⟨s', hopen⟩ a b)
      s.tape r (Recording.epoch f x s) := by
  refine (Recording.epoch_mirrors (Q := Q) Worlds.recorded_recorded
    (fun hx => ⟨Recording.begun s x, Recording.open_begun hx⟩) (fun _ => rfl) fun hx => ?_).mono
      fun s' a b _ hab => ?_
  · exact h _ _ (tracks_inputs hx)
  · obtain ⟨hx, ⟨_, hopen⟩, hgrows, rfl, hab⟩ := hab
    exact ⟨hopen, Recording.size_begun (s := s) ▸ Tape.Grows.size_le hgrows, hab⟩

/-- Whatever the base arithmetic does, the three runs agree at every step. -/
theorem lockstep (p : Program F) (ds : List (Dual F)) (s : Recorder F) : Lockstep p ds s where
  forward k := by
    have hinputs : List.Forall₂ (fun x d => x = d.value) (ds.map Dual.value) ds :=
      List.forall₂_map_left_iff.mpr (List.forall₂_same.mpr fun _ _ => rfl)
    exact (Simulation.plainForward.slots (w := ()) (p.upTo k) hinputs).outcome.mono fun _ _ =>
      Simulation.plainForward.same (w := ())
  reverse k := by
    refine (recorded_epoch fun w hs h =>
      Simulation.plainRecording.slots (p.upTo k) h).mono fun s' slots slots' _ h => ?_
    obtain ⟨hopen, -, hslots⟩ := h
    refine ⟨hopen.toWellFormed, Simulation.plainRecording.same hslots, fun i x hx => ?_⟩
    obtain ⟨_, -, hlive⟩ := (hx ▸ hslots.scalar (F := F) i).ok_right
    exact hlive.2
  gradient := by
    have hepoch := recorded_epoch (s := s) (f := p.runScalar recording) (Q := Worlds.Tracks)
      (x := ds.map Dual.value) fun w hs h => Simulation.plainRecording.runScalar p h
    refine (Recording.valueGradient_mirrors hepoch fun s' a b h => h.2.2.2).mono
      fun s' y g _ h => ?_
    obtain ⟨s₁, b, ⟨hopen, hk, hy, -⟩, rfl, rfl⟩ := h
    rw [List.length_map] at hk ⊢
    refine ⟨hy, ?_, Recording.swept_of_open hopen hk⟩
    exact Tape.length_take_adjointsFrom _ _ hk
  product w := by
    have hepoch := recorded_epoch (s := s) (f := p.run recording)
      (Q := fun w => List.Forall₂ (Worlds.Tracks w)) (x := ds.map Dual.value) fun w hs h =>
        Simulation.plainRecording.run p h
    refine (Recording.vjp_mirrors hepoch (fun _ _ _ h => h.2.2.length_eq) fun _ _ _ h =>
      forall_right_of_forall₂ h.2.2 fun _ _ hxy => hxy.2).mono fun s' ys g _ h => ?_
    obtain ⟨-, s₁, bs, ⟨hopen, hk, hys⟩, rfl, rfl⟩ := h
    rw [List.length_map] at hk ⊢
    refine ⟨?_, ?_, Recording.swept_of_open hopen hk⟩
    · rw [← List.forall₂_eq_eq_eq, List.forall₂_map_right_iff]
      exact hys.imp fun _ _ hxy => hxy.1
    · exact Tape.length_take_adjointsFrom _ _ hk

end Autodiff
