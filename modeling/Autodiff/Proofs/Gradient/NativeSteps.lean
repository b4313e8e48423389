import Mathlib
import Autodiff.Proofs.Gradient.Trace
import Autodiff.Proofs.Primitive.Counterparts
import Autodiff.Proofs.Program.Akin

set_option autoImplicit false

namespace Autodiff

open Interpretation (plain recording)

variable {F : Type} [Arith F] [Functions F]

/-- A division by the primitive, and by the operator. -/
inductive Step.Quotient : Step F → Step F → Prop where
  | divide (i j : ℕ) : Step.Quotient (.apply .divide [i, j]) (.div i j)

inductive Step.Native : Step F → Step F → Prop where
  | divide (i j : ℕ) : Step.Native (.apply .divide [i, j]) (.div i j)
  | square (i : ℕ) : Step.Native (.apply .square [i]) (.mul i i)

/-- Some steps of `p` are replaced in `p'` as `Q` says. At the inputs `x` each of them succeeds if
the run comes to it. -/
structure Exchanged (Q : Step F → Step F → Prop) (p p' : Program F) (x : List F) : Prop where
  outputs : p'.outputs = p.outputs
  steps : List.Forall₂ (fun s s' => s' = s ∨ Q s s') p.steps p'.steps
  succeeds : ∀ k s s', p.steps[k]? = some s → p'.steps[k]? = some s' → Q s s' →
    ∀ slots, (p.upTo k).slots plain x = .ok slots → ∃ y, s.run plain slots = .ok y

/-- Both programs have the same values and fail alike, on plain numbers and on any tape, and their
derivatives are related by `D`. -/
structure SameResults (D : List F → List F → Prop) (p p' : Program F) (x : List F) : Prop where
  plain : p'.values x = p.values x
  gradient : ∀ s, Outcome.Rel (fun a b => b.1 = a.1 ∧ D a.2 b.2) (p.recordGradient x s).1
    (p'.recordGradient x s).1
  product : ∀ w s, Outcome.Rel (fun a b => b.1 = a.1 ∧ D a.2 b.2)
    (Recording.vjp (p.run recording) x w s).1 (Recording.vjp (p'.run recording) x w s).1

section Runs

variable {E : List (ℕ × F) → List (ℕ × F) → Prop} {Q : Step F → Step F → Prop}
  {p p' : Program F} {x : List F}

omit [Functions F] in
theorem Program.slots_upTo_succ {S : Type} {m : Type → Type} [Monad m] [LawfulMonad m]
    (I : Interpretation F S m) {k : ℕ} {s : Step F} (hs : p.steps[k]? = some s) (xs : List S) :
    (p.upTo (k + 1)).slots I xs = (p.upTo k).slots I xs >>= fun slots => do
      return slots.push (← s.run I slots) := by
  have htake : p.steps.take (k + 1) = p.steps.take k ++ [s] := by
    rw [List.take_add_one, hs]
    rfl
  unfold slots upTo
  simp only [htake, List.foldlM_append, List.foldlM_cons, List.foldlM_nil, bind_pure]

structure Step.GoTogether (E : List (ℕ × F) → List (ℕ × F) → Prop) (s s' : Step F) : Prop where
  onPlain : ∀ (slots : Slots F) y, s.run plain slots = .ok y → s'.run plain slots = .ok y
  onTape : ∀ {w : (Worlds.akin E).World} {values : Slots F} {slots slots' : Slots (Handle F)} {y},
    Slots.Rel (Worlds.Tracks (Worlds.first w)) values slots →
    Slots.Rel (Worlds.Shared w) slots slots' → s.run plain values = .ok y →
    (Worlds.akin E).Agree (Simulation.SlotRel Worlds.Shared) w (s.run recording slots)
      (s'.run recording slots')

namespace Exchanged

theorem step_cases (h : Exchanged Q p p' x) {k : ℕ} (hk : k < p.steps.length) :
    ∃ s s', p.steps[k]? = some s ∧ p'.steps[k]? = some s' ∧
      (s' = s ∨ Q s s' ∧ ∀ slots, (p.upTo k).slots plain x = .ok slots →
        ∃ y, s.run plain slots = .ok y) := by
  obtain ⟨hlen, hsteps⟩ := List.forall₂_iff_get.mp h.steps
  have hs : p.steps[k]? = some p.steps[k] := List.getElem?_eq_getElem hk
  have hs' : p'.steps[k]? = some p'.steps[k] := List.getElem?_eq_getElem (hlen ▸ hk)
  refine ⟨_, _, hs, hs', (hsteps k hk (hlen ▸ hk)).imp id fun hQ => ⟨hQ, ?_⟩⟩
  exact h.succeeds k _ _ hs hs' hQ

variable (h : Exchanged Q p p' x) (hE : ∀ es, E es es) (hQ : ∀ s s', Q s s' → s.GoTogether E s')

include h hE hQ

theorem agree_upTo {w : (Worlds.akin E).World} {hs : List (Handle F)}
    (hinputs : List.Forall₂ (Worlds.Tracks (Worlds.first w)) x hs) (k : ℕ)
    (hk : k ≤ p.steps.length) :
    (Worlds.akin E).Agree (fun w => Slots.Rel (Worlds.Shared w)) w ((p.upTo k).slots recording hs)
      ((p'.upTo k).slots recording hs) := by
  induction k with
  | zero =>
    refine Worlds.agree_pure (List.forall₂_same.mpr fun slot hslot => ?_)
    obtain ⟨y, hy, rfl⟩ := List.mem_map.mp hslot
    exact .scalar ⟨rfl, (forall_right_of_forall₂ hinputs fun _ _ hxy => hxy.2) y hy⟩
  | succ k ih =>
    obtain ⟨t, t', hs, hs', hcase⟩ := h.step_cases hk
    rw [Program.slots_upTo_succ recording hs, Program.slots_upTo_succ recording hs']
    refine ((ih (Nat.le_of_succ_le hk)).following
      (Simulation.plainRecording.slots (p.upTo k) hinputs)).bind fun w₁ slots slots' _ hslots => ?_
    obtain ⟨hshared, values, hvalues, htracks⟩ := hslots
    have hstep : (Worlds.akin E).Agree (Simulation.SlotRel Worlds.Shared) w₁
        (t.run recording slots) (t'.run recording slots') := by
      rcases hcase with rfl | ⟨hreplaced, hsucceeds⟩
      · exact (Simulation.akin hE).step _ hshared
      · obtain ⟨y, hy⟩ := hsucceeds values hvalues
        exact (hQ _ _ hreplaced).onTape htracks hshared hy
    exact hstep.bind fun w₂ y y' hle hy =>
      Worlds.agree_pure (((Simulation.akin hE).stable_slots hle hshared).push hy)

theorem agree_run {w : (Worlds.akin E).World} {hs : List (Handle F)}
    (hinputs : List.Forall₂ (Worlds.Tracks (Worlds.first w)) x hs) :
    (Worlds.akin E).Agree (fun w => List.Forall₂ (Worlds.Shared w)) w (p.run recording hs)
      (p'.run recording hs) := by
  have hall : ∀ q : Program F, q.upTo q.steps.length = q := fun q => by
    rw [Program.upTo, List.take_length]
  have hslots := h.agree_upTo hE hQ hinputs p.steps.length (le_refl _)
  have hlen : p.steps.length = p'.steps.length := h.steps.length_eq
  rw [hall p, hlen, hall p'] at hslots
  unfold Program.run
  rw [h.outputs]
  exact (Simulation.akin hE).outputs p.outputs hslots

theorem agree_runScalar {w : (Worlds.akin E).World} {hs : List (Handle F)}
    (hinputs : List.Forall₂ (Worlds.Tracks (Worlds.first w)) x hs) :
    (Worlds.akin E).Agree Worlds.Shared w (p.runScalar recording hs)
      (p'.runScalar recording hs) :=
  (Simulation.akin hE).first (h.agree_run hE hQ hinputs)

omit hE in
theorem values_eq : p'.values x = p.values x := by
  have hlen : p.steps.length = p'.steps.length := h.steps.length_eq
  have hupTo (k : ℕ) (hk : k ≤ p.steps.length) :
      (p'.upTo k).slots plain x = (p.upTo k).slots plain x := by
    induction k with
    | zero => rfl
    | succ k ih =>
      obtain ⟨t, t', hs, hs', hcase⟩ := h.step_cases hk
      rw [Program.slots_upTo_succ plain hs, Program.slots_upTo_succ plain hs',
        ih (Nat.le_of_succ_le hk)]
      rcases hslots : (p.upTo k).slots plain x with e | slots
      · rfl
      · change (t'.run plain slots >>= _) = (t.run plain slots >>= _)
        rcases hcase with rfl | ⟨hreplaced, hsucceeds⟩
        · rfl
        · obtain ⟨y, hy⟩ := hsucceeds slots hslots
          rw [hy, (hQ _ _ hreplaced).onPlain slots y hy]
  have hall : p'.slots plain x = p.slots plain x := by
    have hlast := hupTo p.steps.length (le_refl _)
    rwa [Program.upTo, Program.upTo, List.take_length, hlen, List.take_length] at hlast
  unfold Program.values Program.run
  rw [hall, h.outputs]

theorem sameResults {P : Tape F → Prop} {D : List F → List F → Prop}
    (hD : Recording.SweepsRelate E P D)
    (hscalar : ∀ s, P (Recording.epoch (p'.runScalar recording) x s).2.tape)
    (hrun : ∀ s, P (Recording.epoch (p'.run recording) x s).2.tape) : SameResults D p p' x where
  plain := h.values_eq hQ
  gradient s := Recording.rel_valueGradient hE hD
    (fun _ _ hinputs => h.agree_runScalar hE hQ hinputs) s (hscalar s)
  product w s := Recording.rel_vjp hE hD (fun _ _ hinputs => h.agree_run hE hQ hinputs) w s (hrun s)

end Exchanged

end Runs

omit [Arith F] [Functions F] in
theorem Primitive.onTape_of_eval {p : Primitive F} {args : List (Handle F)} {v : F}
    (heval : p.eval (args.map Handle.value) = .ok v) :
    ∃ partials, p.gradient (args.map Handle.value) v = .ok partials ∧
      p.onTape args = Recording.node (.primitive p.name) args partials v := by
  obtain ⟨vs, rfl, hoperands, hvalue, hgradient⟩ := operands_of_eval heval
  refine ⟨_, hgradient, ?_⟩
  rw [onTape, hoperands]
  change Recording.ofOutcome (p.value (vs.map Handle.value)) >>= _ = _
  rw [hvalue]
  rfl

namespace Slots

variable {S : Type} {slots : Slots S}

omit [Arith F] [Functions F] in
theorem scalars_cons_ok {i : ℕ} {is : List ℕ} {xs : List S}
    (h : (slots.scalars (i :: is) : Outcome F (List S)) = .ok xs) :
    ∃ y ys, (slots.scalar i : Outcome F S) = .ok y ∧
      (slots.scalars is : Outcome F (List S)) = .ok ys ∧ xs = y :: ys := by
  rw [scalars, List.mapM_cons] at h
  obtain ⟨y, hy, hrest⟩ := bind_eq_ok_iff.mp h
  obtain ⟨ys, hys, hxs⟩ := bind_eq_ok_iff.mp hrest
  exact ⟨y, ys, hy, hys, (Except.ok.inj hxs).symm⟩

omit [Arith F] [Functions F] in
theorem scalars_one_ok {i : ℕ} {xs : List S}
    (h : (slots.scalars [i] : Outcome F (List S)) = .ok xs) :
    ∃ x, (slots.scalar i : Outcome F S) = .ok x ∧ xs = [x] := by
  obtain ⟨x, _, hx, hnil, rfl⟩ := scalars_cons_ok h
  obtain rfl := Except.ok.inj hnil
  exact ⟨x, hx, rfl⟩

omit [Arith F] [Functions F] in
theorem scalars_two_ok {i j : ℕ} {xs : List S}
    (h : (slots.scalars [i, j] : Outcome F (List S)) = .ok xs) :
    ∃ x y, (slots.scalar i : Outcome F S) = .ok x ∧ (slots.scalar j : Outcome F S) = .ok y ∧
      xs = [x, y] := by
  obtain ⟨x, _, hx, hrest, rfl⟩ := scalars_cons_ok h
  obtain ⟨y, hy, rfl⟩ := scalars_one_ok hrest
  exact ⟨x, y, hx, hy, rfl⟩

end Slots

namespace Step

variable {E : List (ℕ × F) → List (ℕ × F) → Prop}

theorem run_apply_ok {p : Primitive F} {args : List ℕ} {slots : Slots F} {y : Slot F}
    (h : (Step.apply p args).run plain slots = .ok y) :
    ∃ xs v, (slots.scalars args : Outcome F (List F)) = .ok xs ∧ p.eval xs = .ok v ∧
      y = .scalar v := by
  obtain ⟨xs, hxs, happly⟩ := bind_eq_ok_iff.mp h
  obtain ⟨v, hv, hy⟩ := bind_eq_ok_iff.mp happly
  exact ⟨xs, v, hxs, hv, (Except.ok.inj hy).symm⟩

theorem run_apply_of_eval {p : Primitive F} {args : List ℕ} {slots : Slots F} {xs : List F} {v : F}
    (hxs : (slots.scalars args : Outcome F (List F)) = .ok xs) (hv : p.eval xs = .ok v) :
    (Step.apply p args).run plain slots = .ok (.scalar v) :=
  bind_eq_ok_iff.mpr ⟨xs, hxs, bind_eq_ok_iff.mpr ⟨v, hv, rfl⟩⟩

omit [Arith F] [Functions F] in
theorem operands_shared {w : (Worlds.akin E).World} {values : Slots F}
    {slots slots' : Slots (Handle F)}
    (htracks : Slots.Rel (Worlds.Tracks (Worlds.first w)) values slots)
    (hshared : Slots.Rel (Worlds.Shared w) slots slots') {args : List ℕ} {xs : List F}
    (h : (values.scalars args : Outcome F (List F)) = .ok xs) :
    ∃ hs : List (Handle F), xs = hs.map Handle.value ∧ (∀ x ∈ hs, w.1.1.tape.Live x) ∧
      (slots.scalars args : Outcome F (List (Handle F))) = .ok hs ∧
      (slots'.scalars args : Outcome F (List (Handle F))) = .ok hs := by
  obtain ⟨hs, hscalars, hxs⟩ := (h ▸ htracks.scalars (F := F) args).ok_left
  obtain ⟨hs', hscalars', hsame⟩ := (hscalars ▸ hshared.scalars (F := F) args).ok_left
  obtain rfl := Worlds.eq_of_shared hsame
  refine ⟨hs', ?_, forall_right_of_forall₂ hxs fun _ _ hxy => hxy.2, hscalars, hscalars'⟩
  simpa using map_eq_of_forall₂ (f := id) hxs fun _ _ hxy => hxy.1

theorem run_apply_recording {p : Primitive F} {args : List ℕ} {slots : Slots (Handle F)}
    {hs : List (Handle F)} (hscalars : (slots.scalars args : Outcome F (List (Handle F))) = .ok hs)
    {v : F} (heval : p.eval (hs.map Handle.value) = .ok v) {partials : List F}
    (hgradient : p.gradient (hs.map Handle.value) v = .ok partials) :
    (Step.apply p args).run recording slots =
      Recording.node (.primitive p.name) hs partials v >>= fun z => pure (.scalar z) := by
  obtain ⟨partials', hpartials, htape⟩ := Primitive.onTape_of_eval heval
  obtain rfl := Except.ok.inj (hpartials.symm.trans hgradient)
  unfold Step.run
  change Recording.ofOutcome (slots.scalars args) >>= _ = _
  rw [hscalars, ← htape]
  rfl

theorem goTogether_divide (hE : ∀ es, E es es) (i j : ℕ) :
    GoTogether E (Step.apply .divide [i, j] : Step F) (.div i j) where
  onPlain slots y h := by
    obtain ⟨xs, v, hxs, hv, rfl⟩ := run_apply_ok h
    obtain ⟨a, b, ha, hb, rfl⟩ := Slots.scalars_two_ok hxs
    obtain rfl : a / b = v := (Primitive.guarded_eq_ok_iff.mp hv).2
    simp only [Step.run, Step.run.binary, plain, ha, hb]
    rfl
  onTape {w values slots slots' y} htracks hshared h := by
    obtain ⟨xs, v, hxs, hv, rfl⟩ := run_apply_ok h
    obtain ⟨hs, rfl, hlive, hscalars, hscalars'⟩ := operands_shared htracks hshared hxs
    obtain ⟨a, b, ha, hb, rfl⟩ := Slots.scalars_two_ok hscalars'
    obtain rfl : a.value / b.value = v := (Primitive.guarded_eq_ok_iff.mp hv).2
    have hdiv : (Step.div i j).run recording slots' =
        Recording.binaryNode .div a (Functions.unary .reciprocal b.value) b
          (-(a.value / b.value) / b.value) (a.value / b.value) >>= fun z => pure (.scalar z) := by
      simp only [Step.run, Step.run.binary, recording, ha, hb]
      rfl
    rw [run_apply_recording hscalars hv rfl, hdiv]
    exact (Worlds.agree_shared_node _ hlive hlive rfl rfl rfl (hE _)).bind fun _ _ _ _ hz =>
      Worlds.agree_pure (.scalar hz)

/-- One edge of the square stands against two edges of the product. -/
theorem goTogether_square (hE : ∀ es, E es es)
    (hsplit : ∀ (k : ℕ) (v : F), E [(k, v + v)] [(k, v), (k, v)]) (i : ℕ) :
    GoTogether E (Step.apply .square [i] : Step F) (.mul i i) where
  onPlain slots y h := by
    obtain ⟨xs, v, hxs, hv, rfl⟩ := run_apply_ok h
    obtain ⟨a, ha, rfl⟩ := Slots.scalars_one_ok hxs
    obtain rfl : a * a = v := Except.ok.inj hv
    simp only [Step.run, Step.run.binary, plain, ha]
    rfl
  onTape {w values slots slots' y} htracks hshared h := by
    obtain ⟨xs, v, hxs, hv, rfl⟩ := run_apply_ok h
    obtain ⟨hs, rfl, hlive, hscalars, hscalars'⟩ := operands_shared htracks hshared hxs
    obtain ⟨a, ha, rfl⟩ := Slots.scalars_one_ok hscalars'
    obtain rfl : a.value * a.value = v := Except.ok.inj hv
    have hmul : (Step.mul i i).run recording slots' =
        Recording.binaryNode .mul a a.value a a.value (a.value * a.value) >>=
          fun z => pure (.scalar z) := by
      simp only [Step.run, Step.run.binary, recording, ha]
      rfl
    have hlive' : ∀ y ∈ [a, a], w.1.1.tape.Live y := by simpa using hlive
    have hedges : E (Tape.liveEdges [a.node] [a.value + a.value])
        (Tape.liveEdges [a.node, a.node] [a.value, a.value]) := by
      cases a.node with
      | none => exact hE []
      | some k => exact hsplit k a.value
    rw [run_apply_recording hscalars hv rfl, hmul]
    exact (Worlds.agree_shared_node _ hlive hlive' rfl rfl (by simp) hedges).bind
      fun _ _ _ _ hz => Worlds.agree_pure (.scalar hz)

end Step

/-- Where a primitive of the catalog succeeds, the native operation may take its place. On dual
numbers the value is the same in any arithmetic and the tangent in exact arithmetic; at a zero of
either sign neither derivative of the absolute value lets the tangent through. In a program nothing
changes but the gradient of a square, which is the same in exact arithmetic if fewer than `2 ^ 32`
operands are recorded. -/
theorem native_operations :
    (∀ p (ds : List (Dual F)) d v, Primitive.Counterpart p ds d →
      p.eval (ds.map Dual.value) = .ok v → ∃ e, p.onDuals ds = .ok e ∧ e.value = d.value) ∧
    (∀ d : Dual F, Functions.eq d.value 0 = true → Functions.gt d.value 0 = false →
      Functions.lt d.value 0 = false → Primitive.isNaN d.value = false →
      Primitive.abs.onDuals [d] = .ok ⟨Functions.unary .abs d.value, 0 + 0 * d.tangent⟩ ∧
        Functions.unary .abs d = ⟨Functions.unary .abs d.value, 0 * d.tangent⟩) ∧
    (∀ (K : Type) [Field K] [LinearOrder K] [Functions K] [ExactPartials K] p
      (ds : List (Dual K)) d v, Primitive.Counterpart p ds d →
      p.eval (ds.map Dual.value) = .ok v → p.onDuals ds = .ok d) ∧
    (∀ (p p' : Program F) x, Exchanged Step.Quotient p p' x → SameResults Eq p p' x) ∧
    (∀ (p p' : Program F) x, Exchanged Step.Native p p' x → SameResults (fun _ _ => True) p p' x) ∧
    (∀ (K : Type) [CommRing K] [Div K] [Functions K] [ExactRing K] (p p' : Program K) x,
      Exchanged Step.Native p p' x → p'.operandCount x < 2 ^ 32 → SameResults Eq p p' x) := by
  refine ⟨fun p ds d v h heval => ?_, fun d => Primitive.abs_flat, fun K _ _ _ _ p ds d v h =>
    h.onDuals_eq, fun p p' x h => ?_, fun p p' x h => ?_, fun K _ _ _ _ p p' x h hfew => ?_⟩
  · obtain ⟨partials, -, hrun⟩ := Primitive.onDuals_of_eval heval
    exact ⟨_, hrun, h.value_eq heval⟩
  · refine h.sameResults (fun _ => rfl) (fun s s' hs => ?_) Recording.sweepsRelate_eq
      (fun _ => trivial) fun _ => trivial
    cases hs with
    | divide i j => exact Step.goTogether_divide (fun _ => rfl) i j
  · refine h.sameResults (E := fun _ _ => True) (P := fun _ => True) (fun _ => trivial)
      (fun s s' hs => ?_) (fun _ _ _ _ _ => trivial) (fun _ => trivial) fun _ => trivial
    cases hs with
    | divide i j => exact Step.goTogether_divide (fun _ => trivial) i j
    | square i => exact Step.goTogether_square (fun _ => trivial) (fun _ _ => trivial) i
  · have hself : ∀ es : List (ℕ × K), Tape.EqualWeights es es := fun _ => ⟨le_refl _, fun _ => rfl⟩
    refine h.sameResults hself (fun s s' hs => ?_) Recording.sweepsRelate_weight
      (Program.addressable_runScalar hfew) (Program.addressable_run hfew)
    cases hs with
    | divide i j => exact Step.goTogether_divide hself i j
    | square i =>
      refine Step.goTogether_square hself (fun k v => ⟨Nat.le_succ 1, fun l => ?_⟩) i
      by_cases hkl : k = l
      · simp [Tape.weight, hkl]
      · simp [Tape.weight, hkl]

section Ratio

variable (F)

def squaredRatio : Program F where
  steps := [.apply .divide [0, 1], .apply .square [2]]

def nativeRatio : Program F where
  steps := [.div 0 1, .mul 2 2]

def mixedRatio : Program F where
  steps := [.div 0 1, .apply .square [2]]

variable {F}

theorem ratio_succeeds {a b q : F} (hq : Primitive.divide.eval [a, b] = .ok q) {k : ℕ}
    {s : Step F} (hs : (squaredRatio F).steps[k]? = some s) {slots : Slots F}
    (hslots : ((squaredRatio F).upTo k).slots plain [a, b] = .ok slots) :
    ∃ y, s.run plain slots = .ok y := by
  have hratio : (Step.apply .divide [0, 1]).run plain #[.scalar a, .scalar b] = .ok (.scalar q) :=
    Step.run_apply_of_eval rfl hq
  match k with
  | 0 =>
    obtain rfl := Option.some.inj hs
    obtain rfl := Except.ok.inj hslots
    exact ⟨_, hratio⟩
  | 1 =>
    obtain rfl := Option.some.inj hs
    rw [Program.slots_upTo_succ plain (k := 0) rfl] at hslots
    obtain ⟨slots₀, hslots₀, hstep⟩ := bind_eq_ok_iff.mp hslots
    obtain rfl := Except.ok.inj hslots₀
    obtain ⟨y, hy, hpush⟩ := bind_eq_ok_iff.mp hstep
    obtain rfl := Except.ok.inj (hratio.symm.trans hy)
    obtain rfl := Except.ok.inj hpush
    exact ⟨.scalar (q * q), Step.run_apply_of_eval rfl rfl⟩
  | k + 2 => cases hs

theorem exchanged_nativeRatio {a b q : F} (hq : Primitive.divide.eval [a, b] = .ok q) :
    Exchanged Step.Native (squaredRatio F) (nativeRatio F) [a, b] where
  outputs := rfl
  steps := .cons (.inr (.divide 0 1)) (.cons (.inr (.square 2)) .nil)
  succeeds _ _ _ hs _ _ _ hslots := ratio_succeeds hq hs hslots

theorem exchanged_mixedRatio {a b q : F} (hq : Primitive.divide.eval [a, b] = .ok q) :
    Exchanged Step.Quotient (squaredRatio F) (mixedRatio F) [a, b] where
  outputs := rfl
  steps := .cons (.inr (.divide 0 1)) (.cons (.inl rfl) .nil)
  succeeds _ _ _ hs _ _ _ hslots := ratio_succeeds hq hs hslots

end Ratio

theorem native_operations_ratio :
    (∃ e, Primitive.sqrt.onDuals [(⟨2, 1⟩ : Dual Float)] = .ok e ∧
      e.value = Functions.unary .sqrt 2) ∧
    (Functions.unary .abs (⟨-0, 3⟩ : Dual Float) = ⟨Functions.unary .abs (-0), 0 * 3⟩) ∧
    Primitive.pow.onDuals [(⟨2, 1⟩ : Dual ℝ), ⟨3, 0⟩] =
      .ok (Functions.binary .pow ⟨2, 1⟩ ⟨3, 0⟩) ∧
    SameResults Eq (squaredRatio Float) (mixedRatio Float) [1, 3] ∧
    SameResults (fun _ _ => True) (squaredRatio Float) (nativeRatio Float) [1, 3] ∧
    (nativeRatio ℚ).operandCount [6, 3] < 2 ^ 32 ∧
    SameResults Eq (squaredRatio ℚ) (nativeRatio ℚ) [6, 3] := by
  obtain ⟨hvalues, hflat, hduals, hquotient, hnative, hexact⟩ := native_operations (F := Float)
  have hfloat : Primitive.divide.eval [(1 : Float), 3] = .ok (1 / 3) := rfl
  have hrational : Primitive.divide.eval [(6 : ℚ), 3] = .ok (6 / 3) := rfl
  have hroot : Primitive.sqrt.eval [(2 : Float)] = .ok (Functions.unary .sqrt 2) := rfl
  have hpow : Primitive.pow.eval [(2 : ℝ), 3] = .ok (Functions.binary .pow 2 3) :=
    (Primitive.guarded_eq_ok_iff (c := Primitive.isNaN 2 || Functions.le 2 0)).mpr
      ⟨by simp [Primitive.isNaN, Functions.test, Functions.le], rfl⟩
  have hfew : (nativeRatio ℚ).operandCount [6, 3] < 2 ^ 32 := by decide +kernel
  exact ⟨hvalues _ _ _ _ (.sqrt ⟨2, 1⟩) hroot,
    (hflat ⟨-0, 3⟩ (by decide) (by decide) (by decide) (by decide)).2,
    hduals ℝ _ _ _ _ (.pow ⟨2, 1⟩ ⟨3, 0⟩) hpow,
    hquotient _ _ _ (exchanged_mixedRatio hfloat), hnative _ _ _ (exchanged_nativeRatio hfloat),
    hfew, hexact ℚ _ _ _ (exchanged_nativeRatio hrational) hfew⟩

theorem exchanged_wideBefore (n : ℕ) : Exchanged Step.Native
    (wideBefore n (.apply .square [0])) (wideBefore n (.mul 0 0)) [3] where
  outputs := rfl
  steps := .cons (.inl rfl) (.cons (.inr (.square 0)) .nil)
  succeeds k s s' hs hs' hQ slots hslots := by
    match k with
    | 0 =>
      obtain rfl := Option.some.inj hs
      obtain rfl := Option.some.inj hs'
      generalize Step.total n = step at hQ
      cases hQ
    | 1 =>
      obtain rfl := Option.some.inj hs
      rw [Program.slots_upTo_succ plain (k := 0) rfl] at hslots
      obtain ⟨slots₀, hslots₀, hstep⟩ := bind_eq_ok_iff.mp hslots
      obtain rfl := Except.ok.inj hslots₀
      obtain ⟨y, -, hpush⟩ := bind_eq_ok_iff.mp hstep
      obtain rfl := Except.ok.inj hpush
      have hscalars : (Slots.scalars #[.scalar 3, y] [0] : Outcome ℚ (List ℚ)) = .ok [3] := rfl
      exact ⟨.scalar (3 * 3), Step.run_apply_of_eval hscalars rfl⟩
    | k + 2 => cases hs

theorem vjp_wideBefore_primitive {n : ℕ} (hn : n + 2 = 2 ^ 32) :
    (wideBefore n (.apply .square [0])).vjp [3] [1] = .ok ([3 * 3], [6]) := by
  have hstep : (Step.apply .square [0]).run recording
      #[.scalar ⟨3, some 0, 1⟩, .scalar (wideSum n)] (wideRun n) =
        (.ok (.scalar ⟨3 * 3, some 2, 1⟩),
          (wideRun n).pushed (.primitive "square") [(0, 3 + 3)] (3 * 3)) := by
    have hscalars : (Slots.scalars #[.scalar ⟨3, some 0, 1⟩, .scalar (wideSum n)] [0] :
        Outcome ℚ (List (Handle ℚ))) = .ok [⟨3, some 0, 1⟩] := rfl
    have hgradient : (Primitive.square : Primitive ℚ).gradient [3] (3 * 3) = .ok [3 + 3] := rfl
    rw [Step.run_apply_recording hscalars rfl hgradient]
    rfl
  have hmade := madeOf_wideBefore n (.primitive "square") [(0, 3 + 3)] (3 * 3)
  have hedges : ((wideRun n).pushed (.primitive "square") [(0, 3 + 3)] (3 * 3)).tape.edges 2 =
      [(0, 3 + 3)] := hmade.edges_eq (i := 2) (by simp) (by simp [operandCount]; omega)
  refine vjp_wideBefore (by omega) hstep ?_
  simp only [Tape.propagate, hedges]
  decide +kernel

theorem vjp_wideBefore_product {n : ℕ} (hn : n + 2 = 2 ^ 32) :
    (wideBefore n (.mul 0 0)).vjp [3] [1] = .ok ([3 * 3], [0]) := by
  have hmade := madeOf_wideBefore n .mul [(0, 3), (0, 3)] (3 * 3)
  have hedges : ((wideRun n).pushed .mul [(0, 3), (0, 3)] (3 * 3)).tape.edges 2 = [] :=
    hmade.edges_wrapped (by simp) (by simp [operandCount, hn])
  exact vjp_wideBefore (by omega) (mul_wideRun n) (Tape.propagate_bare hedges _)

/-- After `2 ^ 32 - 2` operands the square of 3 has the derivative 6, and the product of 3 by itself
has none. -/
theorem wide_native_differs :
    Exchanged Step.Native (wideBefore (2 ^ 32 - 2) (.apply .square [0]))
        (wideBefore (2 ^ 32 - 2) (.mul 0 0)) [3] ∧
      (wideBefore (2 ^ 32 - 2) (.apply .square [0])).vjp [3] [1] = .ok ([3 * 3], [6]) ∧
      (wideBefore (2 ^ 32 - 2) (.mul 0 0)).vjp [3] [1] = .ok ([3 * 3], [0]) :=
  ⟨exchanged_wideBefore _, vjp_wideBefore_primitive rfl, vjp_wideBefore_product rfl⟩

end Autodiff
