import Autodiff.Number.Double
import Autodiff.Proofs.Gradient.Limit
import Autodiff.Proofs.Gradient.Trace
import Autodiff.Proofs.Program.Embedding

/-!
# Dead code and derivatives

Dead code leaves values and derivatives as they are, bit for bit. No law of arithmetic is used but
that zero equals itself, so the dead steps may overflow or divide by zero. But their operands count:
with `2 ^ 32` of them or more the other nodes lose theirs.
-/

set_option autoImplicit false

namespace Autodiff

open Interpretation (recording)
open Recording (begun epoch)

variable {F : Type}

/-- Nodes that keep their numbers keep their adjoints. -/
theorem Tape.Spread.take_eq [Arith F] {place : ℕ → ℕ} {t : Tape F} {adjoints adjoints' : Array F}
    (hs : t.Spread place adjoints adjoints') {n : ℕ} (hn : n ≤ t.size)
    (hplace : ∀ i, i < n → place i = i) : adjoints'.toList.take n = adjoints.toList.take n := by
  refine List.ext_getElem? fun i => ?_
  rw [List.getElem?_take, List.getElem?_take]
  split
  · rename_i hi
    rw [Array.getElem?_toList, Array.getElem?_toList, ← hs.placed i (Nat.lt_of_lt_of_le hi hn),
      hplace i hi]
  · rfl

namespace Recording

variable {x : List F} {s : Recorder F}

def embeddingBegun (hx : x.length ≤ s.tape.bound) : Embedding F where
  source := begun s x
  target := begun s x
  place := id
  source_open := open_begun hx
  target_open := open_begun hx
  limit := rfl
  embeds hex := ⟨hex, .refl _⟩

theorem placed_inputs (hx : x.length ≤ s.tape.bound) :
    List.Forall₂ (Worlds.Placed (embeddingBegun hx)) (Handle.inputs (s.tape.epoch + 1) 0 x)
      (Handle.inputs (s.tape.epoch + 1) 0 x) :=
  forall₂_begun_begun fun _ hi => ⟨rfl, live_inputs hi _, live_inputs hi _, fun _ => rfl⟩

end Recording

variable [Arith F] [Functions F]

namespace DeadCode

variable {ρ : ℕ → ℕ} {p p' : Program F} {x : List F} {s : Recorder F}

omit [Arith F] [Functions F] in
theorem alongside_inputs (h : DeadCode ρ x.length p p') (hx : x.length ≤ s.tape.bound) :
    Alongside ρ (Recording.embeddingBegun hx)
      ((Handle.inputs (s.tape.epoch + 1) 0 x).map Slot.scalar).toArray
      ((Handle.inputs (s.tape.epoch + 1) 0 x).map Slot.scalar).toArray
      ((Handle.inputs (s.tape.epoch + 1) 0 x).map Slot.scalar).toArray where
  placed := List.forall₂_map_left_iff.mpr (List.forall₂_map_right_iff.mpr
    ((Recording.placed_inputs hx).imp fun _ _ => .scalar))
  selects := .inputs h.mono h.inputs (by simp [Handle.length_inputs])
  tracked := ⟨(x.map Slot.scalar).toArray, List.forall₂_map_left_iff.mpr
    (List.forall₂_map_right_iff.mpr ((tracks_inputs hx).imp fun _ _ => .scalar))⟩

theorem run (h : DeadCode ρ x.length p p') (hx : x.length ≤ s.tape.bound) {ys' : List (Handle F)}
    {s' : Recorder F} (hrun : p'.run recording (Handle.inputs (s.tape.epoch + 1) 0 x) (begun s x) =
      (.ok ys', s')) :
    ∃ (w : (Worlds.embedded F).World) (ys : List (Handle F)),
      p.run recording (Handle.inputs (s.tape.epoch + 1) 0 x) (begun s x) = (.ok ys, w.source) ∧
      w.target = s' ∧ List.Forall₂ (Worlds.Placed w) ys ys' ∧
      x.length ≤ w.source.tape.size ∧ ∀ i, i < x.length → w.place i = i := by
  obtain ⟨filled, hfilled, hys'⟩ := Program.fill_of_run hrun
  have hinputs : ((Handle.inputs (s.tape.epoch + 1) 0 x).map Slot.scalar).toArray.size =
      x.length := by simp [Handle.length_inputs]
  obtain ⟨w, slots, chosen, hle, hslots, htarget, halong, hsize, hsize'⟩ :=
    (h.alongside_inputs hx).fill h.mono hinputs hinputs h.steps hfilled
  have houtputs' : p'.outputs.getD [filled.size - 1] = (p.outputSlots x.length).map ρ := by
    rw [hsize', ← h.outputs, Program.outputSlots]
  have houtputs : p.outputs.getD [slots.size - 1] = p.outputSlots x.length := by
    rw [hsize, Program.outputSlots]
  rw [houtputs', halong.selects.outputs] at hys'
  -- The outputs read the slots that both runs fill alike.
  have hrel : Outcome.Rel (List.Forall₂ (Worlds.Placed w))
      (((p.outputSlots x.length).mapM slots.flatten).map List.flatten)
      (((p.outputSlots x.length).mapM chosen.flatten).map List.flatten :
        Outcome F (List (Handle F))) :=
    (halong.placed.outputs _).bind fun _ _ hz => .ok (List.rel_flatten hz)
  rw [hys'] at hrel
  obtain ⟨ys, hys, hplaced⟩ := hrel.ok_right
  obtain ⟨hgrows, -, hplace⟩ := hle
  have hsize₀ : (begun s x).tape.size = x.length := Recording.size_begun
  refine ⟨w, ys, ?_, htarget, hplaced, hsize₀ ▸ hgrows.size_le, fun i hi => ?_⟩
  · have hrun₀ := Program.run_of_fill hslots
    rw [houtputs, hys] at hrun₀
    exact hrun₀
  · exact hplace i (hsize₀.symm ▸ hi)

structure Epochs (x : List F) (ys ys' : List (Handle F)) (s s' : Recorder F) (place : ℕ → ℕ) :
    Prop where
  embeds : s.tape.Embeds place s'.tape
  wellFormed : s.tape.WellFormed
  values : ys'.map Handle.value = ys.map Handle.value
  nodes : ys'.map Handle.node = ys.map fun y => y.node.map place
  live : ∀ y ∈ ys, s.tape.Live y
  live' : ∀ y ∈ ys', s'.tape.Live y
  inputs_le : x.length ≤ s.tape.size
  inputs : ∀ i, i < x.length → place i = i

theorem epochs (h : DeadCode ρ x.length p p') {ys' : List (Handle F)}
    (hok : (epoch (p'.run recording) x s).1 = .ok ys') :
    ∃ ys s₁ s₁' place, epoch (p.run recording) x s = (.ok ys, s₁) ∧
      epoch (p'.run recording) x s = (.ok ys', s₁') ∧ Epochs x ys ys' s₁ s₁' place := by
  obtain ⟨hx, s₁', hrun', hex'⟩ := Recording.run_of_epoch hok
  obtain ⟨w, ys, hrun, rfl, hplaced, hle, hinputs⟩ := h.run hx hrun'
  obtain ⟨hex, hembeds⟩ := w.embeds hex'
  refine ⟨ys, w.source, w.target, w.place, Recording.epoch_of_run hx hrun hex,
    Recording.epoch_of_run hx hrun' hex', hembeds, w.source_open.toWellFormed, ?_,
    Worlds.map_node_of_placed hplaced hex', ?_, ?_, hle, hinputs⟩
  · exact (map_eq_of_forall₂ hplaced fun _ _ hxy => hxy.value).symm
  · exact forall_left_of_forall₂ hplaced fun _ _ hxy => hxy.live
  · exact forall_right_of_forall₂ hplaced fun _ _ hxy => hxy.live'

end DeadCode

namespace Recording

variable {x : List F} {s s₁ : Recorder F} {ys : List (Handle F)}

theorem epoch_runScalar {p : Program F} (hepoch : epoch (p.run recording) x s = (.ok ys, s₁)) :
    epoch (p.runScalar recording) x s =
      (ys.head?.elim (.error (.fault .outOfRange)) .ok, s₁) := by
  obtain ⟨hx, s₂, hrun, hex⟩ := run_of_epoch (congrArg Prod.fst hepoch)
  obtain rfl : s₂ = s₁ := congrArg Prod.snd ((epoch_of_run hx hrun hex).symm.trans hepoch)
  refine epoch_of_run hx ?_ hex
  unfold Program.runScalar
  rw [run_bind, hrun]
  cases ys <;> rfl

theorem recordGradient_of_epoch {p : Program F}
    (hepoch : epoch (p.run recording) x s = (.ok ys, s₁)) (hlive : ∀ y ∈ ys, s₁.tape.Live y) :
    (p.recordGradient x s).1 = ys.head?.elim (.error (.fault .outOfRange)) fun y =>
      .ok (y.value, (s₁.tape.adjointsFrom [(y, 1)]).toList.take x.length) := by
  rw [recordGradient_eq_finish, epoch_runScalar hepoch]
  cases ys with
  | nil => rfl
  | cons y ys => exact congrArg Prod.fst (finish_ok (hlive y List.mem_cons_self))

end Recording

namespace DeadCode.Epochs

variable {x : List F} {ys ys' : List (Handle F)} {s s' : Recorder F} {place : ℕ → ℕ}

theorem adjoints (hz : Functions.eq (0 : F) 0 = true) (h : Epochs x ys ys' s s' place)
    (haddr : s'.tape.Addressable) (w : List F) :
    (s'.tape.adjointsFrom (ys'.zip w)).toList.take x.length =
      (s.tape.adjointsFrom (ys.zip w)).toList.take x.length :=
  (h.embeds.adjointsFrom hz h.wellFormed haddr h.live h.nodes w).take_eq h.inputs_le h.inputs

variable {t : Recorder F} {p p' : Program F}

theorem vjp (h : Epochs x ys ys' s s' place) (hepoch : epoch (p.run recording) x t = (.ok ys, s))
    (hepoch' : epoch (p'.run recording) x t = (.ok ys', s')) (w : List F) :
    Outcome.Rel (fun a b => b.1 = a.1 ∧
        (Functions.eq (0 : F) 0 = true → s'.tape.Addressable → b.2 = a.2))
      (Recording.vjp (p.run recording) x w t).1 (Recording.vjp (p'.run recording) x w t).1 := by
  have hlen : ys'.length = ys.length := by simpa using congrArg List.length h.values
  rw [Recording.vjp_of_epoch hepoch h.live, Recording.vjp_of_epoch hepoch' h.live', hlen]
  split
  · exact .error _
  · exact .ok ⟨h.values, fun hz haddr => h.adjoints hz haddr w⟩

theorem recordGradient (h : Epochs x ys ys' s s' place)
    (hepoch : epoch (p.run recording) x t = (.ok ys, s))
    (hepoch' : epoch (p'.run recording) x t = (.ok ys', s')) :
    Outcome.Rel (fun a b => b.1 = a.1 ∧
        (Functions.eq (0 : F) 0 = true → s'.tape.Addressable → b.2 = a.2))
      (p.recordGradient x t).1 (p'.recordGradient x t).1 := by
  rw [Recording.recordGradient_of_epoch hepoch h.live,
    Recording.recordGradient_of_epoch hepoch' h.live']
  have hvalues := h.values
  have hseeds := fun hz haddr => h.adjoints hz haddr [1]
  cases ys with
  | nil =>
    obtain rfl : ys' = [] := List.map_eq_nil_iff.mp hvalues
    exact .error _
  | cons y ys =>
    cases ys' with
    | nil => cases hvalues
    | cons y' ys' =>
      simp only [List.zip_cons_cons, List.zip_nil_right] at hseeds
      exact .ok ⟨(List.cons.inj hvalues).1, hseeds⟩

end DeadCode.Epochs

/-- Both programs give the same values at `x`, and the same derivatives if `p'` records fewer than
`2 ^ 32` operands. They do so whenever there is an output to differentiate and a weight for each. -/
structure SameDerivatives (p p' : Program F) (x : List F) (outputs : ℕ) : Prop where
  gradient : Outcome.Rel (fun a b => b.1 = a.1 ∧ (p'.operandCount x < 2 ^ 32 → b.2 = a.2))
    (p.valueGradient x) (p'.valueGradient x)
  product : ∀ w, Outcome.Rel (fun a b => b.1 = a.1 ∧ (p'.operandCount x < 2 ^ 32 → b.2 = a.2))
    (p.vjp x w) (p'.vjp x w)
  gradient_ok : 0 < outputs → ∃ g, p.valueGradient x = .ok g
  product_ok : ∀ w, w.length = outputs → ∃ d, p.vjp x w = .ok d

/-- Dead code that runs does not change a value, nor a derivative while there are few operands. -/
theorem dead_code (hz : Functions.eq (0 : F) 0 = true) {ρ : ℕ → ℕ} {p p' : Program F} {x : List F}
    (h : DeadCode ρ x.length p p') {ys : List (Handle F)}
    (hok : (epoch (p'.run recording) x).fresh = .ok ys) :
    SameDerivatives p p' x ys.length := by
  obtain ⟨zs, s, s', place, hepoch, hepoch', hboth⟩ := h.epochs (s := { tape := .empty }) hok
  have hlen : ys.length = zs.length := by simpa using congrArg List.length hboth.values
  have haddr : p'.operandCount x < 2 ^ 32 → s'.tape.Addressable := fun hfew => by
    have haddr := p'.addressable_run hfew { tape := .empty }
    rwa [hepoch'] at haddr
  refine ⟨(hboth.recordGradient hepoch hepoch').mono fun _ _ hab => ⟨hab.1, fun hfew => ?_⟩,
    fun w => (hboth.vjp hepoch hepoch' w).mono fun _ _ hab => ⟨hab.1, fun hfew => ?_⟩,
    fun hpos => ?_, fun w hw => ?_⟩
  · exact hab.2 hz (haddr hfew)
  · exact hab.2 hz (haddr hfew)
  · have hgradient := Recording.recordGradient_of_epoch hepoch hboth.live
    cases zs with
    | nil => exact absurd hlen (Nat.ne_of_gt hpos)
    | cons z zs => exact ⟨_, hgradient⟩
  · have hproduct := Recording.vjp_of_epoch hepoch hboth.live w
    rw [if_neg (not_not.mpr (hlen.symm.trans hw.symm))] at hproduct
    exact ⟨_, congrArg Prod.fst hproduct⟩

def squareProgram {F : Type} : Program F where
  steps := [.mul 0 0]

def spoiledSquare : Program Float where
  steps := [.zero, .div 0 1, .mul 0 0, .mul 2 1]
  outputs := some [3]

theorem deadCode_spoiledSquare : DeadCode (3 * ·) 1 squareProgram spoiledSquare where
  mono := strictMono_mul_left_of_pos (by decide)
  inputs i hi := by
    obtain rfl : i = 0 := Nat.lt_one_iff.mp hi
    rfl
  steps := .dead _ (.dead _ (.kept (.mul 0 0) rfl (.dead _ (.nil (by decide)))))
  outputs := rfl

theorem dead_code_spoiledSquare :
    (({ spoiledSquare with outputs := some [2, 4] }.values [3]).toOption.map
      (List.map fun y : Float => (y.isInf, y.isNaN)) = some [(true, false), (false, true)]) ∧
    Functions.eq (0 : Float) 0 = true ∧ DeadCode (3 * ·) 1 squareProgram spoiledSquare ∧
    spoiledSquare.operandCount [3] = 4 ∧
    ∃ ys, (epoch (spoiledSquare.run recording) [3]).fresh = .ok ys ∧
      SameDerivatives squareProgram spoiledSquare [3] ys.length := by
  have hz : Functions.eq (0 : Float) 0 = true := by decide
  obtain ⟨ys, hys⟩ : ∃ ys, (epoch (spoiledSquare.run recording) [3]).fresh = .ok ys := ⟨_, rfl⟩
  exact ⟨by decide +kernel, hz, deadCode_spoiledSquare, by decide +kernel, ys, hys,
    dead_code hz deadCode_spoiledSquare hys⟩

omit [Arith F] [Functions F] in
theorem eq_ok_of_toOption {α : Type} {r : Outcome F α} {a : α} (h : r.toOption = some a) :
    r = .ok a := by
  cases r with
  | ok b => exact congrArg Except.ok (Option.some.inj h)
  | error e => cases h

theorem deadCode_wideBefore (n : ℕ) :
    DeadCode (2 * ·) 1 squareProgram (wideBefore n (.mul 0 0)) where
  mono := strictMono_mul_left_of_pos (by decide)
  inputs i hi := by
    obtain rfl : i = 0 := Nat.lt_one_iff.mp hi
    rfl
  steps := .dead _ (.kept (.mul 0 0) rfl (.nil (by decide)))
  outputs := rfl

theorem vjp_wideBefore_square {n : ℕ} (hn : n % 2 ^ 32 = 0) (hlt : 1 < n) :
    (wideBefore n (.mul 0 0)).vjp [3] [1] = .ok ([3 * 3], [2]) := by
  have hmade := madeOf_wideBefore n .mul [(0, 3), (0, 3)] (3 * 3)
  have hedges : ((wideRun n).pushed .mul [(0, 3), (0, 3)] (3 * 3)).tape.edges 2 =
      [(0, 1), (0, 1)] := by
    have hstart : ((wideRun n).pushed .mul [(0, 3), (0, 3)] (3 * 3)).tape.spanStart 2 = 0 :=
      (hmade.spanStart_eq (by simp)).trans (by simpa [operandCount] using hn)
    have hstop : ((wideRun n).pushed .mul [(0, 3), (0, 3)] (3 * 3)).tape.spanStop 2 = 2 :=
      (hmade.spanStop_eq (by simp)).trans (by simp [operandCount]; omega)
    obtain ⟨m, rfl⟩ : ∃ m, n = m + 2 := ⟨n - 2, by omega⟩
    rw [Tape.edges_eq, hstart, hstop, hmade.zip_eq]
    simp [List.replicate_succ]
  refine vjp_wideBefore (Nat.zero_lt_of_lt hlt) (mul_wideRun n) ?_
  simp only [Tape.propagate, hedges]
  decide +kernel

/-- Before the square `2 ^ 32` operands are summed for nothing, and its derivative is 2, not 6. -/
theorem wide_dead_code :
    Functions.eq (0 : ℚ) 0 = true ∧
      DeadCode (2 * ·) 1 squareProgram (wideBefore (2 ^ 32) (.mul 0 0)) ∧
      squareProgram.vjp [(3 : ℚ)] [1] = .ok ([3 * 3], [6]) ∧
      (wideBefore (2 ^ 32) (.mul 0 0)).vjp [3] [1] = .ok ([3 * 3], [2]) :=
  ⟨by decide, deadCode_wideBefore _, eq_ok_of_toOption (by decide +kernel),
    vjp_wideBefore_square (by decide) (by decide)⟩

end Autodiff
