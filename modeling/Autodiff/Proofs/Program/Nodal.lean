import Autodiff.Proofs.Program.Simulation

set_option autoImplicit false

namespace Autodiff

variable {F S T σ τ : Type} {m n : Type → Type} [Monad m] [Monad n] [Arith F] [Functions F]

abbrev NodeRule (F S : Type) (m : Type → Type) := NodeKind → List S → List F → F → m S

/-- Every operation of `I` applies the rule `L`. -/
structure Nodal (I : Interpretation F S m) (L : NodeRule F S m) : Prop where
  gt : ∀ x y, I.gt x y = Functions.gt (I.value x) (I.value y)
  add : ∀ x y, I.add x y = L .add [x, y] [1, 1] (I.value x + I.value y)
  sub : ∀ x y, I.sub x y = L .sub [x, y] [1, -1] (I.value x - I.value y)
  mul : ∀ x y, I.mul x y = L .mul [x, y] [I.value y, I.value x] (I.value x * I.value y)
  div : ∀ x y, I.div x y = L .div [x, y]
    [Functions.unary .reciprocal (I.value y), -(I.value x / I.value y) / I.value y]
    (I.value x / I.value y)
  neg : ∀ x, I.neg x = L .neg [x] [-1] (-I.value x)
  apply : ∀ p xs, I.apply p xs = do
    let args ← I.ofOutcome (p.operands xs)
    let y ← I.ofOutcome (p.value (args.map I.value))
    L (.primitive p.name) args.toList (p.partials (args.map I.value) y).toList y
  applyJoint : ∀ op a, I.applyJoint op a = do
    let b ← I.ofOutcome (op.value (a.map I.value))
    Matrix.ofFnM b.rows b.cols fun k l =>
      L (.primitive op.name) a.toList (op.block (a.map I.value) b k l).toList (b.get k l)

def NodeRule.interpretation (L : NodeRule F S m) (const : F → S) (value : S → F)
    (ofOutcome : {α : Type} → Outcome F α → m α) : Interpretation F S m where
  const := const
  value := value
  gt x y := Functions.gt (value x) (value y)
  add x y := L .add [x, y] [1, 1] (value x + value y)
  sub x y := L .sub [x, y] [1, -1] (value x - value y)
  mul x y := L .mul [x, y] [value y, value x] (value x * value y)
  div x y := L .div [x, y]
    [Functions.unary .reciprocal (value y), -(value x / value y) / value y] (value x / value y)
  neg x := L .neg [x] [-1] (-value x)
  apply p xs := do
    let args ← ofOutcome (p.operands xs)
    let y ← ofOutcome (p.value (args.map value))
    L (.primitive p.name) args.toList (p.partials (args.map value) y).toList y
  applyJoint op a := do
    let b ← ofOutcome (op.value (a.map value))
    Matrix.ofFnM b.rows b.cols fun k l =>
      L (.primitive op.name) a.toList (op.block (a.map value) b k l).toList (b.get k l)
  ofOutcome := ofOutcome

theorem NodeRule.nodal (L : NodeRule F S m) (const : F → S) (value : S → F)
    (ofOutcome : {α : Type} → Outcome F α → m α) :
    Nodal (L.interpretation const value ofOutcome) L where
  gt _ _ := rfl
  add _ _ := rfl
  sub _ _ := rfl
  mul _ _ := rfl
  div _ _ := rfl
  neg _ := rfl
  apply _ _ := rfl
  applyJoint _ _ := rfl

theorem nodal_recording : Nodal (Interpretation.recording (F := F)) Recording.node where
  gt _ _ := rfl
  add _ _ := rfl
  sub _ _ := rfl
  mul _ _ := rfl
  div _ _ := rfl
  neg _ := rfl
  apply _ _ := rfl
  applyJoint _ _ := rfl

theorem nodal_plain :
    Nodal (Interpretation.plain (F := F)) fun _ _ _ value => (.ok value : Outcome F F) where
  gt _ _ := rfl
  add _ _ := rfl
  sub _ _ := rfl
  mul _ _ := rfl
  div _ _ := rfl
  neg _ := rfl
  apply p xs := by
    have hid : ∀ args : Vector F p.arity, args.map (Interpretation.plain (F := F)).value = args :=
      fun args => Vector.map_id' args
    simp only [hid]
    change p.operands xs >>= p.value = p.operands xs >>= fun args => p.value args >>= pure
    simp only [bind_pure]
  applyJoint op a := by
    have hid : a.map (Interpretation.plain (F := F)).value = a := by
      obtain ⟨rows, cols, data⟩ := a
      exact congrArg (Matrix.mk rows cols) (Vector.map_id' data)
    have hcopy : ∀ b : Matrix F, Matrix.ofFnM b.rows b.cols (fun k l =>
        (.ok (b.get k l) : Outcome F F)) = pure b := by
      intro b
      refine (Matrix.ofFnM_pure b.rows b.cols b.get).trans ?_
      rw [Matrix.ofFn_get]
    simp only [hcopy, hid]
    exact (bind_pure (op.value a)).symm

omit [Arith F] [Functions F] in
theorem Primitive.operands_rel {R : S → T → Prop} (p : Primitive F) {xs : List S} {ys : List T}
    (h : List.Forall₂ R xs ys) :
    Outcome.Rel (fun a b => List.Forall₂ R a.toList b.toList) (p.operands xs) (p.operands ys) := by
  have hlen : xs.length = ys.length := h.length_eq
  by_cases hx : xs.length = p.arity
  · simp only [operands, ← hlen, hx, ↓reduceDIte]
    exact .ok h
  · simp only [operands, ← hlen, hx, ↓reduceDIte]
    exact .error _

theorem Vector.map_eq_of_forall₂ {α β γ : Type} {k : ℕ} {R : α → β → Prop} {f : α → γ} {g : β → γ}
    {a : Vector α k} {b : Vector β k} (h : List.Forall₂ R a.toList b.toList)
    (hfg : ∀ x y, R x y → f x = g y) : a.map f = b.map g := by
  ext i hi
  rw [Vector.getElem_map, Vector.getElem_map]
  exact hfg _ _ ((List.forall₂_iff_get.mp h).2 i (by simpa using hi) (by simpa using hi))

namespace Simulation

variable [LawfulMonad m] [LawfulMonad n] [Runs F σ m] [Runs F τ n]
variable {I : Interpretation F S m} {J : Interpretation F T n} {V : Worlds σ τ}

/-- Two interpretations simulate each other as soon as their rules agree on related arguments. -/
theorem ofNodal {L : NodeRule F S m} {L' : NodeRule F T n} (hI : Nodal I L) (hJ : Nodal J L')
    {R : V.World → S → T → Prop} (stable : Worlds.Stable R)
    (value : ∀ {w x y}, R w x y → I.value x = J.value y)
    (const : ∀ w c, R w (I.const c) (J.const c))
    (runLeft : ∀ {α : Type} (r : Outcome F α) s, Runs.run (I.ofOutcome r) s = (r, s))
    (runRight : ∀ {α : Type} (r : Outcome F α) s, Runs.run (J.ofOutcome r) s = (r, s))
    (node : ∀ {w xs ys} kind partials y, List.Forall₂ (R w) xs ys →
      partials.length = xs.length → V.Agree R w (L kind xs partials y) (L' kind ys partials y)) :
    Simulation I J V R where
  stable := stable
  value := value
  gt hx hy := by rw [hI.gt, hJ.gt, value hx, value hy]
  const := const
  add hx hy := by
    rw [hI.add, hJ.add, value hx, value hy]
    exact node _ _ _ (.cons hx (.cons hy .nil)) rfl
  sub hx hy := by
    rw [hI.sub, hJ.sub, value hx, value hy]
    exact node _ _ _ (.cons hx (.cons hy .nil)) rfl
  mul hx hy := by
    rw [hI.mul, hJ.mul, value hx, value hy]
    exact node _ _ _ (.cons hx (.cons hy .nil)) rfl
  div hx hy := by
    rw [hI.div, hJ.div, value hx, value hy]
    exact node _ _ _ (.cons hx (.cons hy .nil)) rfl
  neg hx := by
    rw [hI.neg, hJ.neg, value hx]
    exact node _ _ _ (.cons hx .nil) rfl
  apply p h := by
    rw [hI.apply, hJ.apply]
    refine (Worlds.agree_ofOutcome (Q := fun w a b => List.Forall₂ (R w) a.toList b.toList)
      runLeft runRight (p.operands_rel h)).bind fun w₁ a b _ hab => ?_
    rw [Vector.map_eq_of_forall₂ hab fun _ _ => value]
    refine (Worlds.agree_ofOutcome (Q := fun _ => Eq) runLeft runRight
      (Outcome.Rel.refl _)).bind fun w₂ y y' hw₂ hy => ?_
    subst hy
    exact node _ _ _ (stable.forall₂ hw₂ hab) (by simp)
  applyJoint op h := by
    rw [hI.applyJoint, hJ.applyJoint, h.map_eq fun _ _ => value]
    refine (Worlds.agree_ofOutcome (Q := fun _ => Eq) runLeft runRight
      (Outcome.Rel.refl _)).bind fun w₁ b b' hw₁ hb => ?_
    subst hb
    refine Worlds.agree_matrix stable fun w₂ k l hw₂ => ?_
    have hargs := stable.forall₂ (hw₁.trans hw₂) h.toList
    refine node _ _ _ hargs ?_
    rw [Matrix.length_toList, Matrix.length_toList]
    exact congrArg₂ (· * ·) h.rows_eq.symm h.cols_eq.symm
  runLeft := runLeft
  runRight := runRight

end Simulation

end Autodiff
