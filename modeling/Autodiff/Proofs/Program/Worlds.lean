import Mathlib.Data.List.Forall2
import Mathlib.Order.Basic
import Autodiff.Proofs.Tape.Recording

/-!
# Runs side by side

Two computations are compared by running both from their states. A world holds the states that the
two runs have reached; what is known about their results may depend on it, and worlds only grow.
-/

set_option autoImplicit false

namespace Autodiff

variable {F : Type} {α β γ δ : Type}

theorem bind_eq_ok_iff {x : Outcome F α} {f : α → Outcome F β} {y : β} :
    x.bind f = .ok y ↔ ∃ a, x = .ok a ∧ f a = .ok y := by
  cases x with
  | error e =>
    constructor
    · intro h
      cases h
    · rintro ⟨a, ha, -⟩
      cases ha
  | ok a =>
    refine ⟨fun h => ⟨a, rfl, h⟩, ?_⟩
    rintro ⟨a', ha, h⟩
    obtain rfl := Except.ok.inj ha
    exact h

theorem map_eq_ok_iff {x : Outcome F α} {f : α → β} {y : β} :
    x.map f = .ok y ↔ ∃ a, x = .ok a ∧ f a = y := by
  cases x with
  | error e => exact iff_of_false nofun fun ⟨a, ha, _⟩ => nomatch ha
  | ok a => simp [Except.map]

inductive Outcome.Rel (R : α → β → Prop) : Outcome F α → Outcome F β → Prop where
  | ok {a : α} {b : β} (h : R a b) : Outcome.Rel R (.ok a) (.ok b)
  | error (e : Failure F) : Outcome.Rel R (.error e) (.error e)

theorem Outcome.Rel.refl (x : Outcome F α) : Outcome.Rel Eq x x := by
  cases x with
  | ok a => exact .ok rfl
  | error e => exact .error e

theorem Outcome.Rel.mono {R R' : α → β → Prop} {x : Outcome F α} {y : Outcome F β}
    (h : Outcome.Rel R x y) (hR : ∀ a b, R a b → R' a b) : Outcome.Rel R' x y := by
  cases h with
  | ok h => exact .ok (hR _ _ h)
  | error e => exact .error e

theorem Outcome.Rel.bind {R : α → β → Prop} {Q : γ → δ → Prop} {x : Outcome F α} {y : Outcome F β}
    {f : α → Outcome F γ} {g : β → Outcome F δ} (h : Outcome.Rel R x y)
    (hf : ∀ a b, R a b → Outcome.Rel Q (f a) (g b)) : Outcome.Rel Q (x >>= f) (y >>= g) := by
  cases h with
  | ok h => exact hf _ _ h
  | error e => exact .error e

theorem Outcome.Rel.mapM {Q : β → γ → Prop} {xs : List α} {f : α → Outcome F β}
    {g : α → Outcome F γ} (hf : ∀ a, Outcome.Rel Q (f a) (g a)) :
    Outcome.Rel (List.Forall₂ Q) (xs.mapM f) (xs.mapM g) := by
  induction xs with
  | nil => exact .ok .nil
  | cons a xs ih =>
    rw [List.mapM_cons, List.mapM_cons]
    refine (hf a).bind fun b c hbc => ?_
    exact ih.bind fun bs cs hs => .ok (.cons hbc hs)

theorem Outcome.Rel.ok_left {R : α → β → Prop} {a : α} {y : Outcome F β}
    (h : Outcome.Rel R (.ok a) y) : ∃ b, y = .ok b ∧ R a b := by
  cases h with
  | ok h => exact ⟨_, rfl, h⟩

theorem Outcome.Rel.ok_right {R : α → β → Prop} {x : Outcome F α} {b : β}
    (h : Outcome.Rel R x (.ok b)) : ∃ a, x = .ok a ∧ R a b := by
  cases h with
  | ok h => exact ⟨_, rfl, h⟩

theorem Outcome.Rel.error_right {R : α → β → Prop} {x : Outcome F α} {e : Failure F}
    (h : Outcome.Rel R x (.error e)) : x = .error e := by
  cases h with
  | error e => rfl

theorem Outcome.Rel.eq {x y : Outcome F α} (h : Outcome.Rel Eq x y) : x = y := by
  cases h with
  | ok h => exact congrArg Except.ok h
  | error e => rfl

theorem forall_right_of_forall₂ {R : α → β → Prop} {P : β → Prop} {xs : List α} {ys : List β}
    (h : List.Forall₂ R xs ys) (hR : ∀ x y, R x y → P y) : ∀ y ∈ ys, P y := by
  induction h with
  | nil => exact fun y hy => absurd hy List.not_mem_nil
  | cons hxy _ ih => exact List.forall_mem_cons.mpr ⟨hR _ _ hxy, ih⟩

theorem forall_left_of_forall₂ {R : α → β → Prop} {P : α → Prop} {xs : List α} {ys : List β}
    (h : List.Forall₂ R xs ys) (hR : ∀ x y, R x y → P x) : ∀ x ∈ xs, P x :=
  forall_right_of_forall₂ h.flip fun _ _ hxy => hR _ _ hxy

theorem map_eq_of_forall₂ {R : α → β → Prop} {f : α → γ} {g : β → γ} {xs : List α} {ys : List β}
    (h : List.Forall₂ R xs ys) (hfg : ∀ x y, R x y → f x = g y) : xs.map f = ys.map g := by
  rw [← List.forall₂_eq_eq_eq, List.forall₂_map_left_iff, List.forall₂_map_right_iff]
  exact h.imp hfg

theorem exists_left_of_forall₂ {R : α → β → Prop} {xs : List α} {ys : List β}
    (h : List.Forall₂ R xs ys) {y : β} (hy : y ∈ ys) : ∃ x ∈ xs, R x y := by
  induction h with
  | nil => exact absurd hy List.not_mem_nil
  | @cons x z xs ys hxz _ ih =>
    rcases List.mem_cons.mp hy with rfl | hy
    · exact ⟨x, List.mem_cons_self, hxz⟩
    · obtain ⟨x', hx', hR⟩ := ih hy
      exact ⟨x', List.mem_cons_of_mem x hx', hR⟩

/-- Computations that start in a state and leave one, also when they fail. -/
class Runs (F σ : outParam Type) (m : Type → Type) [Monad m] where
  run {α : Type} : m α → σ → Outcome F α × σ
  run_pure {α : Type} (a : α) (s : σ) : run (pure a) s = (.ok a, s)
  run_bind {α β : Type} (x : m α) (f : α → m β) (s : σ) :
    run (x >>= f) s = match run x s with
      | (.ok a, s) => run (f a) s
      | (.error e, s) => (.error e, s)

instance : Runs F Unit (Except (Failure F)) where
  run x s := (x, s)
  run_pure _ _ := rfl
  run_bind x f s := by cases x <;> rfl

instance : Runs F (Recorder F) (Recording F) where
  run x s := x s
  run_pure _ _ := rfl
  run_bind x f s := by
    rw [run_bind]
    rcases x s with ⟨r, s⟩
    cases r <;> rfl

theorem mapM_push {m : Type → Type} [Monad m] [LawfulMonad m] {k : ℕ} (f : α → m β)
    (as : Vector α k) (a : α) :
    (as.push a).mapM f = (do let bs ← as.mapM f; let b ← f a; pure (bs.push b)) := by
  have hs : Vector.toArray <$> as.mapM f = as.toArray.mapM f := Vector.toArray_mapM
  apply Vector.map_toArray_inj.mp
  rw [Vector.toArray_mapM, Vector.toArray_push, Array.push_eq_append, Array.mapM_append, ← hs]
  simp [-Vector.toArray_mapM]

theorem mapM_eq_ofFnM {m : Type → Type} [Monad m] [LawfulMonad m] {k : ℕ} (f : α → m β)
    (as : Vector α k) : as.mapM f = Vector.ofFnM fun i => f as[i] := by
  induction k with
  | zero =>
    obtain rfl : as = #v[] := by simp
    rw [Vector.mapM_mk_empty, Vector.ofFnM_zero]
  | succ k ih =>
    obtain ⟨bs, b, rfl⟩ : ∃ bs b, as = Vector.push bs b :=
      ⟨as.pop, as.back, as.push_pop_back.symm⟩
    rw [Vector.ofFnM_succ, mapM_push, ih]
    simp

/-- Worlds with the state of either run. -/
structure Worlds (σ τ : Type) where
  World : Type
  order : Preorder World
  left : World → σ
  right : World → τ

attribute [instance] Worlds.order

namespace Worlds

variable {σ τ : Type} (V : Worlds σ τ)
variable {m n : Type → Type} [Monad m] [Monad n] [Runs F σ m] [Runs F τ n]

/-- From world `w` both computations reach a later world, where their outcomes are related. -/
def Agree (Q : V.World → α → β → Prop) (w : V.World) (x : m α) (y : n β) : Prop :=
  ∃ (w' : V.World) (r : Outcome F α) (r' : Outcome F β), w ≤ w' ∧
    Runs.run x (V.left w) = (r, V.left w') ∧ Runs.run y (V.right w) = (r', V.right w') ∧
    Outcome.Rel (Q w') r r'

variable {V}

theorem agree_pure {Q : V.World → α → β → Prop} {w : V.World} {a : α} {b : β} (h : Q w a b) :
    V.Agree Q w (pure a : m α) (pure b : n β) :=
  ⟨w, .ok a, .ok b, le_refl w, Runs.run_pure _ _, Runs.run_pure _ _, .ok h⟩

theorem Agree.bind {Q : V.World → α → β → Prop} {R : V.World → γ → δ → Prop} {w : V.World}
    {x : m α} {y : n β} {f : α → m γ} {g : β → n δ} (h : V.Agree Q w x y)
    (hf : ∀ w' a b, w ≤ w' → Q w' a b → V.Agree R w' (f a) (g b)) :
    V.Agree R w (x >>= f) (y >>= g) := by
  obtain ⟨w₁, r, r', hw₁, hx, hy, hr⟩ := h
  cases hr with
  | ok hab =>
    obtain ⟨w₂, s, s', hw₂, hf', hg', hs⟩ := hf w₁ _ _ hw₁ hab
    refine ⟨w₂, s, s', le_trans hw₁ hw₂, ?_, ?_, hs⟩
    · rw [Runs.run_bind, hx]
      exact hf'
    · rw [Runs.run_bind, hy]
      exact hg'
  | error e =>
    refine ⟨w₁, .error e, .error e, hw₁, ?_, ?_, .error e⟩
    · rw [Runs.run_bind, hx]
    · rw [Runs.run_bind, hy]

def Stable (Q : V.World → α → β → Prop) : Prop :=
  ∀ ⦃w w' a b⦄, w ≤ w' → Q w a b → Q w' a b

theorem Stable.forall₂ {R : V.World → α → β → Prop} (hR : Stable R) :
    Stable fun w => List.Forall₂ (R w) :=
  fun _ _ _ _ hw h => h.imp fun _ _ hab => hR hw hab

theorem agree_foldlM {R : V.World → α → β → Prop} {Q : V.World → γ → δ → Prop} (hR : Stable R)
    {f : γ → α → m γ} {g : δ → β → n δ} {xs : List α} {ys : List β} {w : V.World} {c : γ} {d : δ}
    (hxs : List.Forall₂ (R w) xs ys) (hcd : Q w c d)
    (hf : ∀ w' c d a b, w ≤ w' → Q w' c d → R w' a b → V.Agree Q w' (f c a) (g d b)) :
    V.Agree Q w (xs.foldlM f c) (ys.foldlM g d) := by
  induction xs generalizing ys c d w with
  | nil =>
    cases hxs
    exact agree_pure hcd
  | cons a xs ih =>
    obtain ⟨b, ys, hab, hrest, rfl⟩ := List.forall₂_cons_left_iff.mp hxs
    rw [List.foldlM_cons, List.foldlM_cons]
    refine (hf w c d a b (le_refl w) hcd hab).bind fun w' c' d' hw hcd' => ?_
    exact ih (hR.forall₂ hw hrest) hcd' fun w'' c d a b hw' => hf w'' c d a b (hw.trans hw')

theorem agree_ofFnM [LawfulMonad m] [LawfulMonad n] {R : V.World → α → β → Prop} (hR : Stable R)
    {k : ℕ} {f : Fin k → m α} {g : Fin k → n β} {w : V.World}
    (hf : ∀ w' i, w ≤ w' → V.Agree R w' (f i) (g i)) :
    V.Agree (fun w (a : Vector α k) (b : Vector β k) => ∀ i (hi : i < k), R w a[i] b[i]) w
      (Vector.ofFnM f) (Vector.ofFnM g) := by
  induction k with
  | zero =>
    rw [Vector.ofFnM_zero, Vector.ofFnM_zero]
    exact agree_pure fun i hi => absurd hi (Nat.not_lt_zero i)
  | succ k ih =>
    rw [Vector.ofFnM_succ, Vector.ofFnM_succ]
    refine (ih fun w' i hw => hf w' i.castSucc hw).bind fun w₁ as bs hw₁ hs => ?_
    refine (hf w₁ (Fin.last k) hw₁).bind fun w₂ a b hw₂ hab => agree_pure fun i hi => ?_
    by_cases hik : i < k
    · simpa only [Vector.getElem_push_lt hik] using hR hw₂ (hs i hik)
    · obtain rfl : i = k := by omega
      simpa only [Vector.getElem_push_last] using hab

theorem agree_mapM [LawfulMonad m] [LawfulMonad n] {Q : V.World → α → β → Prop}
    {R : V.World → γ → δ → Prop} (hQ : Stable Q) (hR : Stable R) {k : ℕ} {as : Vector α k}
    {bs : Vector β k} {f : α → m γ} {g : β → n δ} {w : V.World}
    (h : ∀ i (hi : i < k), Q w as[i] bs[i])
    (hf : ∀ w' a b, w ≤ w' → Q w' a b → V.Agree R w' (f a) (g b)) :
    V.Agree (fun w (u : Vector γ k) (v : Vector δ k) => ∀ i (hi : i < k), R w u[i] v[i]) w
      (as.mapM f) (bs.mapM g) := by
  rw [mapM_eq_ofFnM, mapM_eq_ofFnM]
  exact agree_ofFnM hR fun w' i hw => hf w' _ _ hw (hQ hw (h i.val i.isLt))

end Worlds

end Autodiff
