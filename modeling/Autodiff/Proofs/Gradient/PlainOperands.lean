import Mathlib
import Autodiff.Gradient.Basic
import Autodiff.Proofs.Number.Exact
import Autodiff.Proofs.Program.Nodal
import Autodiff.Proofs.Tape.Epoch
import Autodiff.Proofs.Tape.PlainOperands
import Autodiff.Proofs.Tape.Sweep

set_option autoImplicit false

namespace Autodiff

open Interpretation (recording)

variable {F α β : Type}

structure AlikeRuns (a b : Outcome F α × Recorder F) : Prop where
  result : b.1 = a.1
  recorder : a.2.Alike b.2

namespace AlikeRuns

variable {s s' : Recorder F}

theorem refl (a : Outcome F α × Recorder F) : AlikeRuns a a := ⟨rfl, .refl a.2⟩

theorem bind {x y : Recording F α} {f g : α → Recording F β} (h : AlikeRuns (x s) (y s'))
    (hf : ∀ a s s', s.Alike s' → AlikeRuns (f a s) (g a s')) :
    AlikeRuns ((x >>= f) s) ((y >>= g) s') := by
  rw [run_bind, run_bind]
  generalize x s = a at h ⊢
  generalize y s' = b at h ⊢
  obtain ⟨r, s₁⟩ := a
  obtain ⟨r', s₂⟩ := b
  obtain rfl : r' = r := h.result
  cases r' with
  | ok a => exact hf a s₁ s₂ h.recorder
  | error e => exact ⟨rfl, h.recorder⟩

theorem settle {a b : Outcome F α × Recorder F} (h : AlikeRuns a b) :
    AlikeRuns (Recording.settle a) (Recording.settle b) := by
  obtain ⟨r, s⟩ := a
  obtain ⟨r', s'⟩ := b
  obtain rfl : r' = r := h.result
  have hrecorder : s.Alike s' := h.recorder
  have hsettled : AlikeRuns
      (if s.tape.exhausted then (.error (.error (.exhausted s.tape.capacity)), s) else (r', s))
      (if s'.tape.exhausted then (.error (.error (.exhausted s'.tape.capacity)), s')
        else (r', s')) := by
    rw [hrecorder.exhausted_eq, hrecorder.capacity_eq]
    split
    · exact ⟨rfl, hrecorder⟩
    · exact ⟨rfl, hrecorder⟩
  rcases r' with (cause | cause) | y
  · exact hsettled
  · exact ⟨rfl, hrecorder⟩
  · exact hsettled

theorem epoch {f g : List (Handle F) → Recording F α}
    (h : ∀ inputs s, AlikeRuns (f inputs s) (g inputs s)) (x : List F) (s : Recorder F) :
    AlikeRuns (Recording.epoch f x s) (Recording.epoch g x s) := by
  by_cases hx : x.length ≤ s.tape.bound
  · rw [Recording.epoch_room hx, Recording.epoch_room hx]
    exact (h _ _).settle
  · rw [Recording.epoch_full (Nat.lt_of_not_le hx), Recording.epoch_full (Nat.lt_of_not_le hx)]
    exact .refl _

variable [Arith F] [Functions F]

omit [Functions F] in
theorem seed (seeds : List (Handle F × F)) (h : s.Alike s') :
    AlikeRuns (Recording.seed seeds s) (Recording.seed seeds s') := by
  induction seeds generalizing s s' with
  | nil => exact ⟨rfl, h⟩
  | cons e seeds ih =>
    rw [Recording.seed_cons, Recording.seed_cons, h.requireLive_eq, h.adjoints_eq]
    cases s.tape.requireLive e.1 with
    | ok _ => exact ih (h.withAdjoints _)
    | error c => exact ⟨rfl, h⟩

theorem backwardFrom (seeds : List (Handle F × F)) (h : s.Alike s') :
    AlikeRuns (Recording.backwardFrom seeds s) (Recording.backwardFrom seeds s') := by
  have hseed := seed seeds (h.withAdjoints (Array.replicate s.tape.size 0))
  rw [Recording.run_backwardFrom, Recording.run_backwardFrom, h.size_eq]
  generalize Recording.seed seeds (s.withAdjoints _) = a at hseed ⊢
  generalize Recording.seed seeds (s'.withAdjoints _) = b at hseed ⊢
  obtain ⟨r, s₁⟩ := a
  obtain ⟨r', s₂⟩ := b
  obtain rfl : r' = r := hseed.result
  have hseeded : s₁.Alike s₂ := hseed.recorder
  cases r' with
  | error c => exact ⟨rfl, hseeded⟩
  | ok _ =>
    simp only [hseeded.sweep_eq, hseeded.adjoints_eq]
    exact ⟨rfl, hseeded.withAdjoints _⟩

theorem valueGradient {f g : List (Handle F) → Recording F (Handle F)}
    (h : ∀ inputs s, AlikeRuns (f inputs s) (g inputs s)) (x : List F) (s : Recorder F) :
    AlikeRuns (Recording.valueGradient f x s) (Recording.valueGradient g x s) := by
  refine (epoch h x s).bind fun y s₁ s₂ h₁ => ?_
  exact (backwardFrom [(y, 1)] h₁).bind fun adjoints s₃ s₄ h₃ => ⟨rfl, h₃⟩

theorem vjp {f g : List (Handle F) → Recording F (List (Handle F))}
    (h : ∀ inputs s, AlikeRuns (f inputs s) (g inputs s)) (x w : List F) (s : Recorder F) :
    AlikeRuns (Recording.vjp f x w s) (Recording.vjp g x w s) := by
  refine (epoch h x s).bind fun ys s₁ s₂ h₁ => ?_
  split
  · exact ⟨rfl, h₁⟩
  · exact (backwardFrom (ys.zip w) h₁).bind fun adjoints s₃ s₄ h₃ => ⟨rfl, h₃⟩

end AlikeRuns

inductive OperandSide where
  | left
  | right

def Handle.mixed (side : Option OperandSide) (op : Handle F → Handle F → Recording F (Handle F))
    (opPlain : Handle F → F → Recording F (Handle F))
    (plainOp : F → Handle F → Recording F (Handle F)) (x y : Handle F) :
    Recording F (Handle F) :=
  match side with
  | some .left => if x.isConstant then plainOp x.value y else op x y
  | some .right => if y.isConstant then opPlain x y.value else op x y
  | none => op x y

section Programs

variable [Arith F] [Functions F]

/-- Operations on the tape that take constants on the given side as plain numbers. -/
def Interpretation.mixing (side : Option OperandSide) : Interpretation F (Handle F) (Recording F) :=
  { recording with
    add := Handle.mixed side Handle.add Handle.addPlain Handle.plainAdd
    sub := Handle.mixed side Handle.sub Handle.subPlain Handle.plainSub
    mul := Handle.mixed side Handle.mul Handle.mulPlain Handle.plainMul
    div := Handle.mixed side Handle.div Handle.divPlain Handle.plainDiv }

namespace Program

/-- The slots after the last step, where step `i` takes constants on the side `choice i` as plain
numbers. -/
def mixedSlots (choice : ℕ → Option OperandSide) (p : Program F) (inputs : List (Handle F)) :
    Recording F (Slots (Handle F)) :=
  p.steps.zipIdx.foldlM
    (fun slots (step, i) => do return slots.push (← step.run (.mixing (choice i)) slots))
    (inputs.map Slot.scalar).toArray

def mixedRun (choice : ℕ → Option OperandSide) (p : Program F) (inputs : List (Handle F)) :
    Recording F (List (Handle F)) := do
  let slots ← p.mixedSlots choice inputs
  let outputs := p.outputs.getD [slots.size - 1]
  return (← Recording.ofOutcome (outputs.mapM slots.flatten)).flatten

def mixedRunScalar (choice : ℕ → Option OperandSide) (p : Program F) (inputs : List (Handle F)) :
    Recording F (Handle F) := do
  match ← p.mixedRun choice inputs with
  | y :: _ => return y
  | [] => Recording.ofOutcome (.error (.fault .outOfRange))

end Program

end Programs

namespace Worlds

def alike (F : Type) : Worlds (Recorder F) (Recorder F) where
  World := {w : Recorder F × Recorder F // w.1.Alike w.2}
  order :=
    { le := fun _ _ => True
      le_refl := fun _ => trivial
      le_trans := fun _ _ _ _ _ => trivial }
  left w := w.1.1
  right w := w.1.2

variable {w : (alike F).World}

theorem agree_of_alike {x y : Recording F α} (h : AlikeRuns (x w.1.1) (y w.1.2)) :
    (alike F).Agree (fun _ => Eq) w x y :=
  ⟨⟨((x w.1.1).2, (y w.1.2).2), h.recorder⟩, (x w.1.1).1, (y w.1.2).1, trivial, rfl, rfl,
    h.result ▸ .refl _⟩

theorem Agree.alike {x y : Recording F α} (h : (alike F).Agree (fun _ => Eq) w x y) :
    AlikeRuns (x w.1.1) (y w.1.2) := by
  obtain ⟨w', r, r', -, hx, hy, hr⟩ := h
  obtain rfl : r = r' := hr.eq
  change x w.1.1 = (r, w'.1.1) at hx
  change y w.1.2 = (r, w'.1.2) at hy
  rw [hx, hy]
  exact ⟨rfl, w'.2⟩

end Worlds

namespace AlikeRuns

variable {s s' : Recorder F}

theorem relabelled {a : Outcome F α × Recorder F} {y : Recording F α} (h : AlikeRuns a (y s'))
    (kind : NodeKind) : AlikeRuns a (y.relabelled kind s') :=
  ⟨h.result, h.recorder.relabelled _ kind⟩

theorem node (h : s.Alike s') (kind : NodeKind) {args : List (Handle F)} {partials : List F}
    (hlen : args.length = partials.length) (value : F) :
    AlikeRuns (Recording.node kind args partials value s)
      (Recording.node kind args partials value s') := by
  rcases s.tape.live_or_error args with hlive | ⟨e, he⟩
  · rw [Recording.node_of_live kind value hlive hlen,
      Recording.node_of_live kind value (fun x hx => h.live (hlive x hx)) hlen, h.isFull_eq,
      h.size_eq, h.epoch_eq]
    split
    · exact ⟨rfl, h⟩
    · split
      · exact ⟨rfl, h.refused⟩
      · exact ⟨rfl, h.pushed kind kind _ value⟩
  · have he' : args.forM s'.tape.requireLive = .error e := h.requireLive_eq ▸ he
    rw [Recording.node_error he, Recording.node_error he']
    exact ⟨rfl, h⟩

theorem mixed {op : Handle F → Handle F → Recording F (Handle F)}
    {opPlain : Handle F → F → Recording F (Handle F)}
    {plainOp : F → Handle F → Recording F (Handle F)}
    (hright : ∀ x y : Handle F, y.isConstant = true →
      opPlain x y.value = (op x y).relabelled .affine)
    (hleft : ∀ x y : Handle F, y.isConstant = true →
      plainOp y.value x = (op y x).relabelled .affine)
    (side : Option OperandSide) {x y : Handle F} (h : AlikeRuns (op x y s) (op x y s')) :
    AlikeRuns (op x y s) (Handle.mixed side op opPlain plainOp x y s') := by
  unfold Handle.mixed
  split
  · split
    next hx =>
      rw [hleft y x hx]
      exact h.relabelled .affine
    next => exact h
  · split
    next hy =>
      rw [hright x y hy]
      exact h.relabelled .affine
    next => exact h
  · exact h

end AlikeRuns

section Simulations

variable [Arith F] [Functions F]

theorem Simulation.alike :
    Simulation (recording (F := F)) recording (Worlds.alike F) fun _ => Eq :=
  .ofNodal nodal_recording nodal_recording (fun _ _ _ _ _ h => h) (fun h => congrArg _ h)
    (fun _ _ => rfl) (fun _ _ => rfl) (fun _ _ => rfl) fun {w xs ys} kind partials y h hlen => by
      rw [List.forall₂_eq_eq_eq] at h
      subst h
      exact Worlds.agree_of_alike (.node w.2 kind hlen.symm y)

theorem Simulation.mixing (hadd : ∀ a b : F, a + b = b + a) (hmul : ∀ a b : F, a * b = b * a)
    (side : Option OperandSide) :
    Simulation (recording (F := F)) (.mixing side) (Worlds.alike F) fun _ => Eq :=
  { Simulation.alike (F := F) with
    add := by
      rintro w x x' _ _ rfl rfl
      refine Worlds.agree_of_alike (.mixed ?_ ?_ side (Simulation.alike.add rfl rfl).alike)
      · exact fun _ _ => Handle.addPlain_eq
      · exact fun _ _ => Handle.plainAdd_eq hadd
    sub := by
      rintro w x x' _ _ rfl rfl
      refine Worlds.agree_of_alike (.mixed ?_ ?_ side (Simulation.alike.sub rfl rfl).alike)
      · exact fun _ _ => Handle.subPlain_eq
      · exact fun _ _ => Handle.plainSub_eq
    mul := by
      rintro w x x' _ _ rfl rfl
      refine Worlds.agree_of_alike (.mixed ?_ ?_ side (Simulation.alike.mul rfl rfl).alike)
      · exact fun _ _ => Handle.mulPlain_eq
      · exact fun _ _ => Handle.plainMul_eq hmul
    div := by
      rintro w x x' _ _ rfl rfl
      refine Worlds.agree_of_alike (.mixed ?_ ?_ side (Simulation.alike.div rfl rfl).alike)
      · exact fun _ _ => Handle.divPlain_eq
      · exact fun _ _ => Handle.plainDiv_eq }

namespace Program

variable (hadd : ∀ a b : F, a + b = b + a) (hmul : ∀ a b : F, a * b = b * a)
variable (choice : ℕ → Option OperandSide) (p : Program F) (inputs : List (Handle F))

include hadd hmul

theorem agree_mixedSlots (w : (Worlds.alike F).World) :
    (Worlds.alike F).Agree (fun _ => Slots.Rel Eq) w (p.slots recording inputs)
      (p.mixedSlots choice inputs) := by
  have hinputs : Slots.Rel Eq (inputs.map Slot.scalar).toArray (inputs.map Slot.scalar).toArray :=
    List.forall₂_same.mpr fun x hx => by
      obtain ⟨y, -, rfl⟩ := List.mem_map.mp hx
      exact .scalar rfl
  have hsteps : List.Forall₂ (fun step e => step = e.1) p.steps p.steps.zipIdx := by
    conv => arg 2; rw [← List.zipIdx_map_fst 0 p.steps]
    exact List.forall₂_map_left_iff.mpr (List.forall₂_same.mpr fun _ _ => rfl)
  refine Worlds.agree_foldlM (R := fun _ (step : Step F) (e : Step F × ℕ) => step = e.1)
    (fun _ _ _ _ _ h => h) hsteps hinputs ?_
  rintro w₁ c d step ⟨_, i⟩ - hcd rfl
  refine ((Simulation.mixing hadd hmul (choice i)).step (w := w₁) step hcd).bind ?_
  exact fun w₂ x y _ hxy => Worlds.agree_pure (hcd.push hxy)

theorem agree_mixedRun (w : (Worlds.alike F).World) :
    (Worlds.alike F).Agree (fun _ => List.Forall₂ Eq) w (p.run recording inputs)
      (p.mixedRun choice inputs) :=
  Simulation.alike.outputs p.outputs (agree_mixedSlots hadd hmul choice p inputs w)

theorem alike_mixedRun (s : Recorder F) :
    AlikeRuns (p.run recording inputs s) (p.mixedRun choice inputs s) := by
  have hrun := agree_mixedRun hadd hmul choice p inputs ⟨(s, s), .refl s⟩
  simp only [List.forall₂_eq_eq_eq] at hrun
  exact hrun.alike

theorem alike_mixedRunScalar (s : Recorder F) :
    AlikeRuns (p.runScalar recording inputs s) (p.mixedRunScalar choice inputs s) := by
  refine (alike_mixedRun hadd hmul choice p inputs s).bind fun ys s₁ s₂ h => ?_
  cases ys with
  | nil => exact ⟨rfl, h⟩
  | cons y ys => exact ⟨rfl, h⟩

end Program

end Simulations

/-- In every state of the tape an operation with the plain number `c` does what the general one does
with `c` as a constant, but the node it appends is of kind `affine`. -/
structure PlainOnTape (F : Type) [Arith F] [Functions F] : Prop where
  addPlain : ∀ (x : Handle F) c, x.addPlain c = (x.add (.constant c)).relabelled .affine
  plainAdd : ∀ c (x : Handle F),
    Handle.plainAdd c x = ((Handle.constant c).add x).relabelled .affine
  subPlain : ∀ (x : Handle F) c, x.subPlain c = (x.sub (.constant c)).relabelled .affine
  plainSub : ∀ c (x : Handle F),
    Handle.plainSub c x = ((Handle.constant c).sub x).relabelled .affine
  mulPlain : ∀ (x : Handle F) c, x.mulPlain c = (x.mul (.constant c)).relabelled .affine
  plainMul : ∀ c (x : Handle F),
    Handle.plainMul c x = ((Handle.constant c).mul x).relabelled .affine
  divPlain : ∀ (x : Handle F) c, x.divPlain c = (x.div (.constant c)).relabelled .affine
  plainDiv : ∀ c (x : Handle F),
    Handle.plainDiv c x = ((Handle.constant c).div x).relabelled .affine

structure PlainOnDuals {F : Type} [Arith F] (R : Dual F → Dual F → Prop) : Prop where
  addPlain : ∀ (x : Dual F) c, R (x.addPlain c) (x + .constant c)
  plainAdd : ∀ c (x : Dual F), R (.plainAdd c x) (.constant c + x)
  subPlain : ∀ (x : Dual F) c, R (x.subPlain c) (x - .constant c)
  plainSub : ∀ c (x : Dual F), R (.plainSub c x) (.constant c - x)
  mulPlain : ∀ (x : Dual F) c, R (x.mulPlain c) (x * .constant c)
  plainMul : ∀ c (x : Dual F), R (.plainMul c x) (.constant c * x)
  divPlain : ∀ (x : Dual F) c, R (x.divPlain c) (x / .constant c)
  plainDiv : ∀ c (x : Dual F), R (.plainDiv c x) (.constant c / x)

theorem plainOnTape [Arith F] [Functions F] (hadd : ∀ a b : F, a + b = b + a)
    (hmul : ∀ a b : F, a * b = b * a) : PlainOnTape F where
  addPlain x c := Handle.addPlain_eq (x := x) (y := .constant c) rfl
  plainAdd c x := Handle.plainAdd_eq (x := x) (y := .constant c) hadd rfl
  subPlain x c := Handle.subPlain_eq (x := x) (y := .constant c) rfl
  plainSub c x := Handle.plainSub_eq (x := x) (y := .constant c) rfl
  mulPlain x c := Handle.mulPlain_eq (x := x) (y := .constant c) rfl
  plainMul c x := Handle.plainMul_eq (x := x) (y := .constant c) hmul rfl
  divPlain x c := Handle.divPlain_eq (x := x) (y := .constant c) rfl
  plainDiv c x := Handle.plainDiv_eq (x := x) (y := .constant c) rfl

theorem plainOnDuals_value [Arith F] (hadd : ∀ a b : F, a + b = b + a)
    (hmul : ∀ a b : F, a * b = b * a) : PlainOnDuals fun d e : Dual F => d.value = e.value where
  addPlain _ _ := rfl
  plainAdd _ _ := hadd _ _
  subPlain _ _ := rfl
  plainSub _ _ := rfl
  mulPlain _ _ := rfl
  plainMul _ _ := hmul _ _
  divPlain _ _ := rfl
  plainDiv _ _ := rfl

theorem plainOnDuals_field {K : Type} [Field K] : PlainOnDuals fun d e : Dual K => d = e where
  addPlain x _ := Dual.ext rfl (add_zero x.tangent).symm
  plainAdd _ x := Dual.ext (add_comm _ _) (zero_add x.tangent).symm
  subPlain x _ := Dual.ext rfl (sub_zero x.tangent).symm
  plainSub _ x := Dual.ext rfl (zero_sub x.tangent).symm
  mulPlain x c := Dual.ext rfl (by
    change x.tangent * c = x.tangent * c + x.value * 0
    rw [mul_zero, add_zero])
  plainMul c x := Dual.ext (mul_comm _ _) (by
    change x.tangent * c = 0 * x.value + c * x.tangent
    rw [zero_mul, zero_add, mul_comm])
  divPlain x c := Dual.ext rfl (by
    change x.tangent / c = (x.tangent - x.value / c * 0) / c
    rw [mul_zero, sub_zero])
  plainDiv c x := Dual.ext rfl (by
    change -(c / x.value) * x.tangent / x.value = (0 - c / x.value * x.tangent) / x.value
    rw [zero_sub, neg_mul])

/-- A plain operand does what a constant does: on the tape up to the kind of the node, on dual
numbers up to the tangent, which is the same in exact arithmetic. Programs that take any of their
constants as plain numbers leave the same tape up to kinds, with the same values and gradients. -/
theorem plain_operands [Arith F] [Functions F] (hadd : ∀ a b : F, a + b = b + a)
    (hmul : ∀ a b : F, a * b = b * a) :
    PlainOnTape F ∧ (PlainOnDuals fun d e : Dual F => d.value = e.value) ∧
      (∀ (K : Type) [Field K], PlainOnDuals fun d e : Dual K => d = e) ∧
      ∀ (choice : ℕ → Option OperandSide) (p : Program F) (x w : List F) (s : Recorder F),
        AlikeRuns (Recording.valueGradient (p.runScalar recording) x s)
          (Recording.valueGradient (p.mixedRunScalar choice) x s) ∧
        AlikeRuns (Recording.vjp (p.run recording) x w s)
          (Recording.vjp (p.mixedRun choice) x w s) :=
  ⟨plainOnTape hadd hmul, plainOnDuals_value hadd hmul, fun _ _ => plainOnDuals_field,
    fun choice p x w s =>
      ⟨.valueGradient (p.alike_mixedRunScalar hadd hmul choice) x s,
        .vjp (p.alike_mixedRun hadd hmul choice) x w s⟩⟩

def lessThrice : Program ℚ where
  steps := [.const 3, .mul 1 0, .const 1, .sub 2 3]

def lessThriceSides (step : ℕ) : Option OperandSide := some (if step = 1 then .left else .right)

theorem plain_operands_lessThrice :
    (Recording.valueGradient (lessThrice.mixedRunScalar lessThriceSides) [2]
      { tape := .empty }).1.toOption = some (5, [3]) := by
  obtain ⟨-, -, -, hprograms⟩ := plain_operands (F := ℚ) add_comm mul_comm
  rw [(hprograms lessThriceSides lessThrice [2] [] { tape := .empty }).1.result]
  decide +kernel

end Autodiff
