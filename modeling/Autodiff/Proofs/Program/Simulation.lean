import Autodiff.Program.Basic
import Autodiff.Proofs.Matrix.Pointwise

/-!
# One program in two interpretations

A simulation relates the numbers of two scalar kinds so that every operation keeps the relation.
Then every program keeps it: step by step the slots stay related, and a failure on one side is the
same failure on the other. The argument looks at no number, so it holds for any base arithmetic.
-/

set_option autoImplicit false

namespace Autodiff

variable {F S T σ τ : Type} {m n : Type → Type}
variable [Monad m] [Monad n] [Runs F σ m] [Runs F τ n]

/-- `R w x y` says that `x` and `y` stand for one number in world `w`. Values decide comparisons
on both sides, and every operation on related numbers agrees. -/
structure Simulation (I : Interpretation F S m) (J : Interpretation F T n) (V : Worlds σ τ)
    (R : V.World → S → T → Prop) : Prop where
  stable : Worlds.Stable R
  value : ∀ {w x y}, R w x y → I.value x = J.value y
  gt : ∀ {w x x' y y'}, R w x y → R w x' y' → I.gt x x' = J.gt y y'
  const : ∀ w c, R w (I.const c) (J.const c)
  add : ∀ {w x x' y y'}, R w x y → R w x' y' → V.Agree R w (I.add x x') (J.add y y')
  sub : ∀ {w x x' y y'}, R w x y → R w x' y' → V.Agree R w (I.sub x x') (J.sub y y')
  mul : ∀ {w x x' y y'}, R w x y → R w x' y' → V.Agree R w (I.mul x x') (J.mul y y')
  div : ∀ {w x x' y y'}, R w x y → R w x' y' → V.Agree R w (I.div x x') (J.div y y')
  neg : ∀ {w x y}, R w x y → V.Agree R w (I.neg x) (J.neg y)
  apply : ∀ {w xs ys} (p : Primitive F), List.Forall₂ (R w) xs ys →
    V.Agree R w (I.apply p xs) (J.apply p ys)
  applyJoint : ∀ {w a b} (op : JointOp F), Matrix.Pointwise (R w) a b →
    V.Agree (fun w => Matrix.Pointwise (R w)) w (I.applyJoint op a) (J.applyJoint op b)
  runLeft : ∀ {α : Type} (r : Outcome F α) s, Runs.run (I.ofOutcome r) s = (r, s)
  runRight : ∀ {α : Type} (r : Outcome F α) s, Runs.run (J.ofOutcome r) s = (r, s)

theorem Worlds.agree_ofOutcome {V : Worlds σ τ} {α β : Type} {Q : V.World → α → β → Prop}
    {w : V.World} {f : {α : Type} → Outcome F α → m α} {g : {α : Type} → Outcome F α → n α}
    (hf : ∀ {α : Type} (r : Outcome F α) s, Runs.run (f r) s = (r, s))
    (hg : ∀ {α : Type} (r : Outcome F α) s, Runs.run (g r) s = (r, s))
    {r : Outcome F α} {r' : Outcome F β} (h : Outcome.Rel (Q w) r r') :
    V.Agree Q w (f r) (g r') :=
  ⟨w, r, r', le_refl w, hf _ _, hg _ _, h⟩

/-- Slots of one kind, scalars related by `R` and matrices entry by entry. -/
inductive Slot.Rel (R : S → T → Prop) : Slot S → Slot T → Prop where
  | scalar {x : S} {y : T} (h : R x y) : Slot.Rel R (.scalar x) (.scalar y)
  | matrix {a : Matrix S} {b : Matrix T} (h : a.Pointwise R b) : Slot.Rel R (.matrix a) (.matrix b)

theorem Slot.Rel.mono {R R' : S → T → Prop} {x : Slot S} {y : Slot T} (h : Slot.Rel R x y)
    (hR : ∀ x y, R x y → R' x y) : Slot.Rel R' x y := by
  cases h with
  | scalar h => exact .scalar (hR _ _ h)
  | matrix h => exact .matrix (h.mono hR)

namespace Slots

variable {R : S → T → Prop} {slots : Slots S} {slots' : Slots T}

abbrev Rel (R : S → T → Prop) (slots : Slots S) (slots' : Slots T) : Prop :=
  List.Forall₂ (Slot.Rel R) slots.toList slots'.toList

theorem Rel.size_eq (h : Rel R slots slots') : slots.size = slots'.size := h.length_eq

theorem Rel.push {x : Slot S} {y : Slot T} (h : Rel R slots slots') (hxy : Slot.Rel R x y) :
    Rel R (slots.push x) (slots'.push y) := by
  rw [Rel, Array.toList_push, Array.toList_push]
  exact List.rel_append h (.cons hxy .nil)

theorem Rel.lookup (h : Rel R slots slots') (i : ℕ) :
    (slots[i]? = none ∧ slots'[i]? = none) ∨
      ∃ x y, slots[i]? = some x ∧ slots'[i]? = some y ∧ Slot.Rel R x y := by
  have hsize : slots.size = slots'.size := h.size_eq
  by_cases hi : i < slots.size
  · have hi' : i < slots'.size := hsize ▸ hi
    exact .inr ⟨slots[i], slots'[i], Array.getElem?_eq_getElem hi, Array.getElem?_eq_getElem hi',
      (List.forall₂_iff_get.mp h).2 i hi hi'⟩
  · exact .inl ⟨Array.getElem?_eq_none (by omega), Array.getElem?_eq_none (by omega)⟩

theorem Rel.scalar (h : Rel R slots slots') (i : ℕ) :
    Outcome.Rel R (slots.scalar i : Outcome F S) (slots'.scalar i) := by
  rcases h.lookup i with ⟨hx, hy⟩ | ⟨x, y, hx, hy, hxy⟩
  · simp only [Slots.scalar, hx, hy]
    exact .error _
  · simp only [Slots.scalar, hx, hy]
    cases hxy with
    | scalar h => exact .ok h
    | matrix h => exact .error _

theorem Rel.matrix (h : Rel R slots slots') (i : ℕ) :
    Outcome.Rel (Matrix.Pointwise R) (slots.matrix i : Outcome F (Matrix S)) (slots'.matrix i) := by
  rcases h.lookup i with ⟨hx, hy⟩ | ⟨x, y, hx, hy, hxy⟩
  · simp only [Slots.matrix, hx, hy]
    exact .error _
  · simp only [Slots.matrix, hx, hy]
    cases hxy with
    | scalar h => exact .error _
    | matrix h => exact .ok h

theorem Rel.flatten (h : Rel R slots slots') (i : ℕ) :
    Outcome.Rel (List.Forall₂ R) (slots.flatten i : Outcome F (List S)) (slots'.flatten i) := by
  rcases h.lookup i with ⟨hx, hy⟩ | ⟨x, y, hx, hy, hxy⟩
  · simp only [Slots.flatten, hx, hy]
    exact .error _
  · simp only [Slots.flatten, hx, hy]
    cases hxy with
    | scalar h => exact .ok (.cons h .nil)
    | matrix h => exact .ok h.toList

theorem Rel.scalars (h : Rel R slots slots') (is : List ℕ) :
    Outcome.Rel (List.Forall₂ R) (slots.scalars is : Outcome F (List S)) (slots'.scalars is) :=
  .mapM h.scalar

theorem Rel.outputs (h : Rel R slots slots') (is : List ℕ) :
    Outcome.Rel (List.Forall₂ (List.Forall₂ R)) (is.mapM slots.flatten : Outcome F (List (List S)))
      (is.mapM slots'.flatten) :=
  .mapM h.flatten

end Slots

namespace Simulation

variable {I : Interpretation F S m} {J : Interpretation F T n} {V : Worlds σ τ}
variable {R : V.World → S → T → Prop} (sim : Simulation I J V R) {w : V.World}

include sim in
theorem ofOutcome {α β : Type} {Q : V.World → α → β → Prop} {r : Outcome F α} {r' : Outcome F β}
    (h : Outcome.Rel (Q w) r r') : V.Agree Q w (I.ofOutcome r) (J.ofOutcome r') :=
  Worlds.agree_ofOutcome sim.runLeft sim.runRight h

abbrev MatrixRel (R : V.World → S → T → Prop) (w : V.World) : Matrix S → Matrix T → Prop :=
  Matrix.Pointwise (R w)

abbrev SlotRel (R : V.World → S → T → Prop) (w : V.World) : Slot S → Slot T → Prop :=
  Slot.Rel (R w)

include sim

theorem stable_matrix : Worlds.Stable (MatrixRel R) :=
  fun _ _ _ _ hw h => h.mono fun _ _ hxy => sim.stable hw hxy

theorem stable_slots : Worlds.Stable fun w => Slots.Rel (R w) :=
  fun _ _ _ _ hw h => h.imp fun _ _ hxy => hxy.mono fun _ _ hxy => sim.stable hw hxy

theorem scalarAt {slots : Slots S} {slots' : Slots T} (h : Slots.Rel (R w) slots slots')
    (i : ℕ) : V.Agree R w (I.ofOutcome (slots.scalar i)) (J.ofOutcome (slots'.scalar i)) :=
  sim.ofOutcome (h.scalar i)

theorem scalarsAt {slots : Slots S} {slots' : Slots T} (h : Slots.Rel (R w) slots slots')
    (is : List ℕ) : V.Agree (fun w => List.Forall₂ (R w)) w
      (I.ofOutcome (slots.scalars is)) (J.ofOutcome (slots'.scalars is)) :=
  sim.ofOutcome (h.scalars is)

theorem matrixAt {slots : Slots S} {slots' : Slots T} (h : Slots.Rel (R w) slots slots')
    (i : ℕ) : V.Agree (MatrixRel R) w (I.ofOutcome (slots.matrix i))
      (J.ofOutcome (slots'.matrix i)) :=
  sim.ofOutcome (h.matrix i)

theorem constant (a : Matrix F) (w : V.World) :
    Matrix.Pointwise (R w) (Matrix.constant I a) (Matrix.constant J a) := by
  have hsame : Matrix.Pointwise Eq a a := .mk a.rows a.cols a.data a.data fun _ _ => rfl
  exact hsame.map fun x y hxy => hxy ▸ sim.const w x

theorem values {a : Matrix S} {b : Matrix T} (h : a.Pointwise (R w) b) :
    a.values I = b.values J :=
  h.map_eq fun _ _ => sim.value

theorem sumM [Arith F] {α β : Type} {Q : V.World → α → β → Prop} (hQ : Worlds.Stable Q)
    {f : α → m S} {g : β → n T} {xs : List α} {ys : List β} (hxs : List.Forall₂ (Q w) xs ys)
    (hf : ∀ w' a b, w ≤ w' → Q w' a b → V.Agree R w' (f a) (g b)) :
    V.Agree R w (I.sumM f xs) (J.sumM g ys) := by
  refine Worlds.agree_foldlM hQ hxs (sim.const w 0) fun w₁ c d a b hw₁ hcd hab => ?_
  refine (hf w₁ a b hw₁ hab).bind fun w₂ x y hw₂ hxy => ?_
  exact sim.add (sim.stable hw₂ hcd) hxy

theorem sumSquares [Arith F] {a : Matrix S} {b : Matrix T} (h : a.Pointwise (R w) b) :
    V.Agree R w (Matrix.sumSquares I a) (Matrix.sumSquares J b) :=
  sim.sumM sim.stable h.toList fun _ _ _ _ hxy => sim.mul hxy hxy

theorem sum [Arith F] {a : Matrix S} {b : Matrix T} (h : a.Pointwise (R w) b) :
    V.Agree R w (Matrix.sum I a) (Matrix.sum J b) :=
  sim.sumM sim.stable h.toList fun _ _ _ _ hxy => Worlds.agree_pure hxy

variable [LawfulMonad m] [LawfulMonad n]

theorem multiply [Arith F] {a a' : Matrix S} {b b' : Matrix T} (h : a.Pointwise (R w) b)
    (h' : a'.Pointwise (R w) b') :
    V.Agree (MatrixRel R) w (Matrix.multiply I a a')
      (Matrix.multiply J b b') := by
  cases h with
  | mk rows cols a b h =>
    cases h' with
    | mk rows' cols' a' b' h' =>
      by_cases hinner : cols = rows'
      · subst hinner
        simp only [Matrix.multiply, ↓reduceDIte]
        refine Worlds.agree_matrix sim.stable fun w₁ i j hw₁ => ?_
        refine sim.sumM (Q := fun _ => Eq) (fun _ _ _ _ _ h => h)
          (List.forall₂_same.mpr fun _ _ => rfl) fun w₂ k k' hw₂ hk => ?_
        subst hk
        exact sim.mul (sim.stable (hw₁.trans hw₂) (h _ (Matrix.flat_lt i.isLt k.isLt)))
          (sim.stable (hw₁.trans hw₂) (h' _ (Matrix.flat_lt k.isLt j.isLt)))
      · simp only [Matrix.multiply, hinner, ↓reduceDIte]
        exact sim.ofOutcome (.error _)

theorem checkedMultiply [Arith F] {a a' : Matrix S} {b b' : Matrix T} (h : a.Pointwise (R w) b)
    (h' : a'.Pointwise (R w) b') :
    V.Agree (MatrixRel R) w (Matrix.checkedMultiply I a a') (Matrix.checkedMultiply J b b') := by
  unfold Matrix.checkedMultiply
  rw [h.rows_eq, h.cols_eq, h'.rows_eq, h'.cols_eq]
  split
  · refine (sim.ofOutcome (Q := fun _ => Eq) (Outcome.Rel.refl _)).bind fun w' _ _ hw _ => ?_
    exact sim.multiply (sim.stable_matrix hw h) (sim.stable_matrix hw h')
  · exact sim.multiply h h'

theorem entrywise (p : Primitive F) {a : Matrix S} {b : Matrix T} (h : a.Pointwise (R w) b) :
    V.Agree (MatrixRel R) w (Matrix.entrywise I p a)
      (Matrix.entrywise J p b) := by
  cases h with
  | mk rows cols a b h =>
    refine Worlds.Agree.bind (Worlds.agree_mapM sim.stable sim.stable h fun w' x y hw hxy =>
      sim.apply p (.cons hxy .nil)) fun w' a b _ h => ?_
    exact Worlds.agree_pure (.mk rows cols a b h)

variable [Arith F] {ss : Slots S} {ts : Slots T}

omit [LawfulMonad m] [LawfulMonad n] [Arith F] in
theorem binary (h : Slots.Rel (R w) ss ts) {f : S → S → m S} {g : T → T → n T}
    (i j : ℕ) (hfg : ∀ w' x x' y y', R w' x y → R w' x' y' →
      V.Agree R w' (f x x') (g y y')) :
    V.Agree (SlotRel R) w (Step.run.binary I ss f i j)
      (Step.run.binary J ts g i j) := by
  refine (sim.scalarAt h i).bind fun w₁ x y hw₁ hxy => ?_
  refine (sim.scalarAt (sim.stable_slots hw₁ h) j).bind fun w₂ x' y' hw₂ hxy' => ?_
  exact (hfg w₂ x x' y y' (sim.stable hw₂ hxy) hxy').bind fun _ _ _ _ hz =>
    Worlds.agree_pure (.scalar hz)

omit [LawfulMonad m] [LawfulMonad n] [Arith F] in
theorem joint (h : Slots.Rel (R w) ss ts) {f : Matrix S → Matrix S → m (Matrix S)}
    {g : Matrix T → Matrix T → n (Matrix T)} (i j : ℕ)
    (hfg : ∀ w' a a' b b', a.Pointwise (R w') b → a'.Pointwise (R w') b' →
      V.Agree (MatrixRel R) w' (f a a') (g b b')) :
    V.Agree (SlotRel R) w (Step.run.joint I ss f i j)
      (Step.run.joint J ts g i j) := by
  refine (sim.matrixAt h i).bind fun w₁ a b hw₁ hab => ?_
  refine (sim.matrixAt (sim.stable_slots hw₁ h) j).bind fun w₂ a' b' hw₂ hab' => ?_
  exact (hfg w₂ a a' b b' (sim.stable_matrix hw₂ hab) hab').bind fun _ _ _ _ hc =>
    Worlds.agree_pure (.matrix hc)

theorem step (s : Step F) (h : Slots.Rel (R w) ss ts) :
    V.Agree (SlotRel R) w (s.run I ss) (s.run J ts) := by
  cases s with
  | const c => exact Worlds.agree_pure (.scalar (sim.const w c))
  | zero => exact Worlds.agree_pure (.scalar (sim.const w 0))
  | value i =>
    refine (sim.scalarAt h i).bind fun w' x y _ hxy => Worlds.agree_pure (.scalar ?_)
    exact sim.value hxy ▸ sim.const w' _
  | add i j => exact sim.binary h i j fun _ _ _ _ _ hx hy => sim.add hx hy
  | sub i j => exact sim.binary h i j fun _ _ _ _ _ hx hy => sim.sub hx hy
  | mul i j => exact sim.binary h i j fun _ _ _ _ _ hx hy => sim.mul hx hy
  | div i j => exact sim.binary h i j fun _ _ _ _ _ hx hy => sim.div hx hy
  | neg i =>
    refine (sim.scalarAt h i).bind fun w' x y _ hxy => ?_
    exact (sim.neg hxy).bind fun _ _ _ _ hz => Worlds.agree_pure (.scalar hz)
  | larger i j =>
    refine sim.binary h i j fun w' x x' y y' hx hy => Worlds.agree_pure ?_
    rw [sim.gt hx hy]
    split
    · exact hx
    · exact hy
  | apply p args =>
    refine (sim.scalarsAt h args).bind fun w' xs ys _ hxs => ?_
    exact (sim.apply p hxs).bind fun _ _ _ _ hz => Worlds.agree_pure (.scalar hz)
  | applyJoint op a =>
    refine (sim.matrixAt h a).bind fun w' a b _ hab => ?_
    exact (sim.applyJoint op hab).bind fun _ _ _ _ hc => Worlds.agree_pure (.matrix hc)
  | entry a i j =>
    refine (sim.matrixAt h a).bind fun w' a b _ hab => ?_
    exact (sim.ofOutcome (Q := R) (hab.entry i j)).bind fun _ _ _ _ hz =>
      Worlds.agree_pure (.scalar hz)
  | sumSquares a =>
    refine (sim.matrixAt h a).bind fun w' a b _ hab => ?_
    exact (sim.sumSquares hab).bind fun _ _ _ _ hz => Worlds.agree_pure (.scalar hz)
  | sum a =>
    refine (sim.matrixAt h a).bind fun w' a b _ hab => ?_
    exact (sim.sum hab).bind fun _ _ _ _ hz => Worlds.agree_pure (.scalar hz)
  | matrix rows cols entries =>
    refine (sim.scalarsAt h entries).bind fun w' xs ys _ hxs => ?_
    exact (sim.ofOutcome (Q := MatrixRel R) (Matrix.Pointwise.ofList hxs rows cols)).bind
      fun _ _ _ _ hc => Worlds.agree_pure (.matrix hc)
  | constMatrix rows cols entries =>
    refine (sim.ofOutcome (Q := fun _ => Eq) (Outcome.Rel.refl _)).bind fun w' a b _ hab => ?_
    exact Worlds.agree_pure (.matrix (hab ▸ sim.constant a w'))
  | column entries =>
    refine (sim.scalarsAt h entries).bind fun w' xs ys _ hxs => ?_
    exact Worlds.agree_pure (.matrix (.column hxs))
  | row entries =>
    refine (sim.scalarsAt h entries).bind fun w' xs ys _ hxs => ?_
    exact Worlds.agree_pure (.matrix (.row hxs))
  | identity n =>
    refine (sim.ofOutcome (Q := fun _ => Eq) (Outcome.Rel.refl _)).bind fun w' a b _ hab => ?_
    exact Worlds.agree_pure (.matrix (hab ▸ sim.constant a w'))
  | zeros rows cols =>
    refine (sim.ofOutcome (Q := fun _ => Eq) (Outcome.Rel.refl _)).bind fun w' a b _ hab => ?_
    exact Worlds.agree_pure (.matrix (hab ▸ sim.constant a w'))
  | values a =>
    refine (sim.matrixAt h a).bind fun w' a b _ hab => Worlds.agree_pure (.matrix ?_)
    exact sim.values hab ▸ sim.constant _ w'
  | transpose a =>
    refine (sim.matrixAt h a).bind fun w' a b _ hab => ?_
    exact Worlds.agree_pure (.matrix hab.transpose)
  | multiply a b => exact sim.joint h a b fun _ _ _ _ _ ha hb => sim.checkedMultiply ha hb
  | hcat a b => exact sim.joint h a b fun _ _ _ _ _ ha hb => sim.ofOutcome (ha.hcat hb)
  | vcat a b => exact sim.joint h a b fun _ _ _ _ _ ha hb => sim.ofOutcome (ha.vcat hb)
  | entrywise p a =>
    refine (sim.matrixAt h a).bind fun w' a b _ hab => ?_
    exact (sim.entrywise p hab).bind fun _ _ _ _ hc => Worlds.agree_pure (.matrix hc)

theorem slots (p : Program F) {xs : List S} {ys : List T} (h : List.Forall₂ (R w) xs ys) :
    V.Agree (fun w => Slots.Rel (R w)) w (p.slots I xs) (p.slots J ys) := by
  have hinputs : Slots.Rel (R w) (xs.map Slot.scalar).toArray (ys.map Slot.scalar).toArray :=
    List.forall₂_map_left_iff.mpr (List.forall₂_map_right_iff.mpr (h.imp fun _ _ => .scalar))
  refine Worlds.agree_foldlM (R := fun _ => Eq) (fun _ _ _ _ _ h => h)
    (List.forall₂_same.mpr fun _ _ => rfl) hinputs fun w₁ c d s s' hw₁ hcd hs => ?_
  subst hs
  exact (sim.step s hcd).bind fun w₂ x y hw₂ hxy =>
    Worlds.agree_pure ((sim.stable_slots hw₂ hcd).push hxy)

omit [LawfulMonad m] [LawfulMonad n] [Arith F] in
theorem outputs (outputs : Option (List ℕ)) {x : m (Slots S)} {y : n (Slots T)}
    (h : V.Agree (fun w => Slots.Rel (R w)) w x y) :
    V.Agree (fun w => List.Forall₂ (R w)) w
      (do
        let slots ← x
        return (← I.ofOutcome ((outputs.getD [slots.size - 1]).mapM slots.flatten)).flatten)
      (do
        let slots ← y
        return (← J.ofOutcome ((outputs.getD [slots.size - 1]).mapM slots.flatten)).flatten) := by
  refine h.bind fun w₁ slots slots' _ hs => ?_
  rw [hs.size_eq]
  refine (sim.ofOutcome (Q := fun w => List.Forall₂ (List.Forall₂ (R w)))
    (hs.outputs _)).bind fun w₂ zs zs' _ hz => Worlds.agree_pure ?_
  exact List.rel_flatten hz

omit [LawfulMonad m] [LawfulMonad n] [Arith F] in
theorem first {x : m (List S)} {y : n (List T)}
    (h : V.Agree (fun w => List.Forall₂ (R w)) w x y) :
    V.Agree R w
      (x >>= fun zs => match zs with
        | z :: _ => pure z
        | [] => I.ofOutcome (.error (.fault .outOfRange)))
      (y >>= fun zs => match zs with
        | z :: _ => pure z
        | [] => J.ofOutcome (.error (.fault .outOfRange))) := by
  refine h.bind fun w' zs zs' _ hz => ?_
  cases hz with
  | nil => exact sim.ofOutcome (.error _)
  | cons hz _ => exact Worlds.agree_pure hz

theorem run (p : Program F) {xs : List S} {ys : List T} (h : List.Forall₂ (R w) xs ys) :
    V.Agree (fun w => List.Forall₂ (R w)) w (p.run I xs) (p.run J ys) :=
  sim.outputs p.outputs (sim.slots p h)

theorem runScalar (p : Program F) {xs : List S} {ys : List T}
    (h : List.Forall₂ (R w) xs ys) :
    V.Agree R w (p.runScalar I xs) (p.runScalar J ys) :=
  sim.first (sim.run p h)

end Simulation

end Autodiff
