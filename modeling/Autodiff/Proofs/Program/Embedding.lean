import Autodiff.Proofs.Program.Insertion
import Autodiff.Proofs.Program.Lockstep
import Autodiff.Proofs.Tape.Embedding

set_option autoImplicit false

namespace Autodiff

open Interpretation (plain recording)

variable {F : Type}

theorem Tape.liveEdges_place {place : ℕ → ℕ} {xs ys : List (Handle F)}
    (hnodes : ys.map Handle.node = xs.map fun x => x.node.map place) (partials : List F) :
    liveEdges (ys.map Handle.node) partials =
      (liveEdges (xs.map Handle.node) partials).map (Prod.map place id) := by
  have hmap : ys.map Handle.node = (xs.map Handle.node).map (Option.map place) := by
    rw [hnodes, List.map_map]
    rfl
  rw [hmap]
  generalize xs.map Handle.node = operands
  induction operands generalizing partials with
  | nil => rfl
  | cons operand operands ih =>
    cases partials with
    | nil => rfl
    | cons p partials =>
      unfold liveEdges at ih ⊢
      simp only [List.map_cons, List.zip_cons_cons]
      cases operand with
      | none => exact ih partials
      | some i => exact congrArg ((place i, p) :: ·) (ih partials)

theorem Recording.all_isConstant_place {place : ℕ → ℕ} {xs ys : List (Handle F)}
    (hnodes : ys.map Handle.node = xs.map fun x => x.node.map place) :
    ys.all Handle.isConstant = xs.all Handle.isConstant := by
  rw [all_isConstant, hnodes, List.all_map]
  exact congrArg xs.all (funext fun x => Option.isNone_map)

/-- Two recorders in the middle of an epoch. Until the second one refuses a recording, its tape
holds that of the first one at the given places. -/
structure Embedding (F : Type) where
  source : Recorder F
  target : Recorder F
  place : ℕ → ℕ
  source_open : source.tape.Open
  target_open : target.tape.Open
  limit : source.tape.limit = target.tape.limit
  embeds : target.tape.exhausted = false →
    source.tape.exhausted = false ∧ source.tape.Embeds place target.tape

namespace Embedding

theorem bound_eq (w : Embedding F) : w.source.tape.bound = w.target.tape.bound := by
  rw [Tape.bound, Tape.bound, w.limit]

theorem isFull_source (w : Embedding F) (hex : w.target.tape.exhausted = false)
    (hroom : w.target.tape.isFull = false) : w.source.tape.isFull = false := by
  have hsize := (w.embeds hex).2.size_le
  have hbound := w.bound_eq
  rw [← Bool.not_eq_true, Tape.isFull_iff] at hroom ⊢
  omega

theorem node (w : Embedding F) {s s' : Recorder F} {xs ys : List (Handle F)} {x y : Handle F}
    {kind : NodeKind} {partials : List F} {value : F} (hlive : ∀ x ∈ xs, w.source.tape.Live x)
    (hlive' : ∀ y ∈ ys, w.target.tape.Live y)
    (hnodes : ys.map Handle.node = xs.map fun x => x.node.map w.place)
    (hlen : xs.length = partials.length)
    (hrun : Recording.node kind xs partials value w.source = (.ok x, s))
    (hrun' : Recording.node kind ys partials value w.target = (.ok y, s'))
    (hex : w.target.tape.exhausted = false) (hex' : s'.tape.exhausted = false) :
    ∃ place, (∀ i, i < w.source.tape.size → place i = w.place i) ∧ s.tape.exhausted = false ∧
      s.tape.Embeds place s'.tape ∧ y.node = x.node.map place := by
  obtain ⟨hex₀, hembeds⟩ := w.embeds hex
  have hlen' : ys.length = partials.length := by
    have hsame : ys.length = xs.length := by simpa using congrArg List.length hnodes
    rw [hsame, hlen]
  have hconstants : ys.all Handle.isConstant = xs.all Handle.isConstant :=
    Recording.all_isConstant_place hnodes
  rcases Recording.node_cases kind value hlive' hlen' with
    ⟨hall, hnode'⟩ | ⟨-, -, hnode'⟩ | ⟨hall, hroom', hnode'⟩
  · obtain ⟨hy, rfl⟩ := Prod.mk.inj (hrun'.symm.trans hnode')
    have hnode := Recording.node_constant kind partials value hlive (hconstants ▸ hall)
    obtain ⟨hx, rfl⟩ := Prod.mk.inj (hrun.symm.trans hnode)
    obtain rfl := Except.ok.inj hy
    obtain rfl := Except.ok.inj hx
    exact ⟨w.place, fun _ _ => rfl, hex₀, hembeds, rfl⟩
  -- A refusal by the target contradicts its success.
  · obtain ⟨-, rfl⟩ := Prod.mk.inj (hrun'.symm.trans hnode')
    cases hex'
  · obtain ⟨hy, rfl⟩ := Prod.mk.inj (hrun'.symm.trans hnode')
    obtain rfl := Except.ok.inj hy
    have hnode := Recording.node_of_live (s := w.source) kind value hlive hlen
    rw [← hconstants, hall, w.isFull_source hex hroom'] at hnode
    obtain ⟨hx, rfl⟩ := Prod.mk.inj (hrun.symm.trans hnode)
    obtain rfl := Except.ok.inj hx
    refine ⟨Function.update w.place w.source.tape.size w.target.tape.size,
      fun i hi => Function.update_of_ne (Nat.ne_of_lt hi) _ _, hex₀, ?_, ?_⟩
    · rw [Tape.liveEdges_place hnodes]
      exact hembeds.push w.source_open.toWellFormed w.target_open.toWellFormed
        fun _ he => Tape.lt_of_mem_liveEdges hlive he
    · rw [Option.map_some, Function.update_self]

def advance (w : Embedding F) (s : Recorder F) (hopen : s.tape.Open)
    (hgrows : w.target.tape.Grows s.tape) : Embedding F where
  source := w.source
  target := s
  place := w.place
  source_open := w.source_open
  target_open := hopen
  limit := w.limit.trans hgrows.limit.symm
  embeds hex := by
    obtain ⟨hex', hembeds⟩ := w.embeds (hgrows.unspent hex)
    exact ⟨hex', hembeds.grow w.target_open.toWellFormed hgrows.toInitial⟩

end Embedding

namespace Worlds

def embedded (F : Type) : Worlds (Recorder F) (Recorder F) where
  World := Embedding F
  order :=
    { le := fun w w' => w.source.tape.Grows w'.source.tape ∧ w.target.tape.Grows w'.target.tape ∧
        ∀ i, i < w.source.tape.size → w'.place i = w.place i
      le_refl := fun w => ⟨.refl _, .refl _, fun _ _ => rfl⟩
      le_trans := fun _ _ _ h h' => ⟨h.1.trans h'.1, h.2.1.trans h'.2.1, fun i hi =>
        (h'.2.2 i (Nat.lt_of_lt_of_le hi h.1.size_le)).trans (h.2.2 i hi)⟩ }
  left w := w.source
  right w := w.target

/-- Live handles with one value and, as long as nothing was refused, on a node and on its place. -/
structure Placed (w : (embedded F).World) (x y : Handle F) : Prop where
  value : x.value = y.value
  live : w.source.tape.Live x
  live' : w.target.tape.Live y
  node : w.target.tape.exhausted = false → y.node = x.node.map w.place

theorem stable_placed : Stable (V := embedded F) Placed := by
  rintro w w' x y ⟨hgrows, hgrows', hplace⟩ h
  refine ⟨h.value, hgrows.live h.live, hgrows'.live h.live', fun hex => ?_⟩
  rw [h.node (hgrows'.unspent hex)]
  cases hx : x.node with
  | none => rfl
  | some i => exact congrArg some (hplace i (h.live i hx).2).symm

theorem placed_constant (w : (embedded F).World) (c : F) :
    Placed w (Handle.constant c) (Handle.constant c) :=
  ⟨rfl, Tape.live_constant _ _, Tape.live_constant _ _, fun _ => rfl⟩

theorem map_node_of_placed {w : (embedded F).World} {xs ys : List (Handle F)}
    (h : List.Forall₂ (Placed w) xs ys) (hex : w.target.tape.exhausted = false) :
    ys.map Handle.node = xs.map fun x => x.node.map w.place :=
  (map_eq_of_forall₂ h fun _ _ hxy => (hxy.node hex).symm).symm

theorem agree_placed_node {w : (embedded F).World} {xs ys : List (Handle F)} (kind : NodeKind)
    (partials : List F) (value : F) (h : List.Forall₂ (Placed w) xs ys)
    (hlen : partials.length = xs.length) :
    (embedded F).Agree Placed w (Recording.node kind xs partials value)
      (Recording.node kind ys partials value) := by
  have hlive : ∀ x ∈ xs, w.source.tape.Live x :=
    forall_left_of_forall₂ h fun _ _ hxy => hxy.live
  have hlive' : ∀ y ∈ ys, w.target.tape.Live y :=
    forall_right_of_forall₂ h fun _ _ hxy => hxy.live'
  obtain ⟨x, s₁, hrun, hx, hlx, hgrows, hopen⟩ :=
    Recording.node_open w.source_open kind value hlive hlen.symm
  obtain ⟨y, s₁', hrun', hy, hly, hgrows', hopen'⟩ :=
    Recording.node_open w.target_open kind value hlive' (h.length_eq.symm.trans hlen.symm)
  have hlimit : s₁.tape.limit = s₁'.tape.limit := by rw [hgrows.limit, hgrows'.limit, w.limit]
  cases hex : s₁'.tape.exhausted with
  | true =>
    have hne : s₁'.tape.exhausted ≠ false := by simp [hex]
    exact ⟨⟨s₁, s₁', w.place, hopen, hopen', hlimit, fun hex' => absurd hex' hne⟩, _, _,
      ⟨hgrows, hgrows', fun _ _ => rfl⟩, hrun, hrun',
      .ok ⟨hx.trans hy.symm, hlx, hly, fun hex' => absurd hex' hne⟩⟩
  | false =>
    have hex₀ := hgrows'.unspent hex
    obtain ⟨place, hplace, hex₁, hembeds, hnode⟩ :=
      w.node hlive hlive' (map_node_of_placed h hex₀) hlen.symm hrun hrun' hex₀ hex
    exact ⟨⟨s₁, s₁', place, hopen, hopen', hlimit, fun _ => ⟨hex₁, hembeds⟩⟩, _, _,
      ⟨hgrows, hgrows', hplace⟩, hrun, hrun', .ok ⟨hx.trans hy.symm, hlx, hly, fun _ => hnode⟩⟩

end Worlds

variable [Arith F] [Functions F]

theorem Simulation.embedded :
    Simulation (recording (F := F)) recording (Worlds.embedded F) Worlds.Placed :=
  .ofNodal nodal_recording nodal_recording Worlds.stable_placed (fun h => h.value)
    Worlds.placed_constant (fun _ _ => rfl) (fun _ _ => rfl) Worlds.agree_placed_node

/-- How far two runs have come: the slots of the run without dead code, those of the other run that
belong to them, and all of the other run. -/
structure Alongside (ρ : ℕ → ℕ) (w : (Worlds.embedded F).World)
    (slots chosen slots' : Slots (Handle F)) : Prop where
  placed : Slots.Rel (Worlds.Placed w) slots chosen
  selects : Slots.Selects ρ chosen slots'
  tracked : ∃ values, Slots.Rel
    (Worlds.Tracks (⟨w.target, w.target_open⟩ : (Worlds.recorded F).World)) values slots'

open Recording (fill)

variable {ρ : ℕ → ℕ} {w : (Worlds.embedded F).World} {slots chosen slots' filled : Slots (Handle F)}

theorem Alongside.dead (h : Alongside ρ w slots chosen slots') (hρ : StrictMono ρ)
    (hlt : slots'.size < ρ slots.size) {d : Step F} {y : Slot (Handle F)} {s : Recorder F}
    (hrun : d.run recording slots' w.target = (.ok y, s)) :
    ∃ w', w ≤ w' ∧ w'.source = w.source ∧ w'.target = s ∧
      Alongside ρ w' slots chosen (slots'.push y) := by
  obtain ⟨values, hvalues⟩ := h.tracked
  obtain ⟨⟨s₁, hopen⟩, _, r', hgrows, -, hrun', hrel⟩ := Simulation.plainRecording.step d hvalues
  obtain ⟨rfl, rfl⟩ := Prod.mk.inj (hrun'.symm.trans hrun)
  obtain ⟨v, -, hv⟩ := hrel.ok_right
  have hle : w ≤ w.advance s₁ hopen hgrows := ⟨.refl _, hgrows, fun _ _ => rfl⟩
  refine ⟨w.advance s₁ hopen hgrows, hle, rfl, rfl, ?_, ?_, values.push v, ?_⟩
  · exact Simulation.embedded.stable_slots hle h.placed
  · exact h.selects.push_right hρ (h.placed.size_eq ▸ hlt) y
  · exact (Simulation.plainRecording.stable_slots hgrows hvalues).push hv

theorem Alongside.kept (h : Alongside ρ w slots chosen slots') (hρ : StrictMono ρ)
    (heq : ρ slots.size = slots'.size) {step : Step F} {y : Slot (Handle F)} {s : Recorder F}
    (hrun : (step.rename ρ).run recording slots' w.target = (.ok y, s)) :
    ∃ w' x, w ≤ w' ∧ step.run recording slots w.source = (.ok x, w'.source) ∧ w'.target = s ∧
      Alongside ρ w' (slots.push x) (chosen.push y) (slots'.push y) := by
  obtain ⟨values, hvalues⟩ := h.tracked
  obtain ⟨⟨s₁, hopen⟩, _, r', hgrows, -, hrun', hrel⟩ :=
    Simulation.plainRecording.step (step.rename ρ) hvalues
  obtain ⟨rfl, rfl⟩ := Prod.mk.inj (hrun'.symm.trans hrun)
  obtain ⟨v, -, hv⟩ := hrel.ok_right
  obtain ⟨w', r, r₁, hle, hleft, hright, hplaced⟩ := Simulation.embedded.step step h.placed
  rw [← h.selects.run recording step] at hright
  obtain ⟨rfl, htarget⟩ := Prod.mk.inj (hright.symm.trans hrun)
  obtain ⟨x, rfl, hxy⟩ := hplaced.ok_right
  refine ⟨w', x, hle, hleft, htarget, ?_, ?_, values.push v, ?_⟩
  · exact (Simulation.embedded.stable_slots hle h.placed).push hxy
  · exact h.selects.push hρ (h.placed.size_eq ▸ heq) y
  · have hworld : (⟨s₁, hopen⟩ : (Worlds.recorded F).World) = ⟨w'.target, w'.target_open⟩ :=
      Subtype.ext htarget.symm
    rw [← hworld]
    exact (Simulation.plainRecording.stable_slots hgrows hvalues).push hv

theorem Alongside.fill {k k' : ℕ} {steps steps' : List (Step F)}
    (h : Alongside ρ w slots chosen slots') (hρ : StrictMono ρ) (hk : slots.size = k)
    (hk' : slots'.size = k') (hsteps : Inserted ρ k k' steps steps') {s : Recorder F}
    (hrun : fill steps' slots' w.target = (.ok filled, s)) :
    ∃ w' slots₁ chosen₁, w ≤ w' ∧ fill steps slots w.source = (.ok slots₁, w'.source) ∧
      w'.target = s ∧ Alongside ρ w' slots₁ chosen₁ filled ∧
      slots₁.size = k + steps.length ∧ filled.size = k' + steps'.length := by
  induction hsteps generalizing w slots chosen slots' with
  | nil _ =>
    obtain ⟨hfilled, rfl⟩ := Prod.mk.inj hrun
    obtain rfl := Except.ok.inj hfilled
    exact ⟨w, slots, chosen, le_refl w, rfl, rfl, h, hk, hk'⟩
  | @dead k k' steps steps' d hsteps ih =>
    rw [Recording.fill_cons] at hrun
    rcases hstep : d.run recording slots' w.target with ⟨e | y, s₁⟩
    · rw [hstep] at hrun
      cases hrun
    · rw [hstep] at hrun
      have hlt : k' < ρ k := hsteps.le
      obtain ⟨w₁, hle, hsource, rfl, h₁⟩ := h.dead hρ (by rw [hk, hk']; exact hlt) hstep
      obtain ⟨w', slots₁, chosen₁, hle', hleft, htarget, h', hsize, hsize'⟩ :=
        ih h₁ hk (by rw [Array.size_push, hk']) hrun
      rw [hsource] at hleft
      refine ⟨w', slots₁, chosen₁, hle.trans hle', hleft, htarget, h', hsize, ?_⟩
      rw [hsize', List.length_cons]
      omega
  | @kept k k' steps steps' step heq hsteps ih =>
    rw [Recording.fill_cons] at hrun
    rcases hstep : (step.rename ρ).run recording slots' w.target with ⟨e | y, s₁⟩
    · rw [hstep] at hrun
      cases hrun
    · rw [hstep] at hrun
      obtain ⟨w₁, x, hle, hleft, rfl, h₁⟩ := h.kept hρ (by rw [hk, hk', heq]) hstep
      obtain ⟨w', slots₁, chosen₁, hle', hleft', htarget, h', hsize, hsize'⟩ :=
        ih h₁ (by rw [Array.size_push, hk]) (by rw [Array.size_push, hk']) hrun
      refine ⟨w', slots₁, chosen₁, hle.trans hle', ?_, htarget, h', ?_, ?_⟩
      · rw [Recording.fill_cons, hleft]
        exact hleft'
      · rw [hsize, List.length_cons]
        omega
      · rw [hsize', List.length_cons]
        omega

end Autodiff
