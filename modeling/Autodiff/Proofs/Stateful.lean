import Mathlib.Data.Nat.Notation

set_option autoImplicit false

namespace Autodiff

variable {ε σ α β : Type}

theorem run_bind (x : ExceptT ε (StateM σ) α) (f : α → ExceptT ε (StateM σ) β) (s : σ) :
    (x >>= f) s = match x s with
      | (.ok a, s) => f a s
      | (.error e, s) => (.error e, s) := by
  change (match x s with
    | (r, s) => ExceptT.bindCont f r s) = _
  rcases x s with ⟨r, s⟩
  cases r <;> rfl

theorem run_map {x : ExceptT ε (StateM σ) α} {a : α} {s s' : σ} (h : x s = (.ok a, s'))
    (f : α → β) : (f <$> x) s = (.ok (f a), s') := by
  rw [map_eq_pure_bind, run_bind, h]
  rfl

theorem run_pure (a : α) (s : σ) : (pure a : ExceptT ε (StateM σ) α) s = (.ok a, s) := rfl

theorem run_get (s : σ) : (get : ExceptT ε (StateM σ) σ) s = (.ok s, s) := rfl

theorem run_modify (f : σ → σ) (s : σ) :
    (modify f : ExceptT ε (StateM σ) PUnit) s = (.ok ⟨⟩, f s) :=
  rfl

theorem forM_append {f : α → ExceptT ε (StateM σ) PUnit} {xs ys : List α} {s s' : σ}
    (h : xs.forM f s = (.ok ⟨⟩, s')) : (xs ++ ys).forM f s = ys.forM f s' := by
  induction xs generalizing s with
  | nil =>
    cases h
    rfl
  | cons x xs ih =>
    change (f x >>= fun _ => xs.forM f) s = _ at h
    change (f x >>= fun _ => (xs ++ ys).forM f) s = _
    rw [run_bind] at h ⊢
    rcases hx : f x s with ⟨r | r, m⟩
    · rw [hx] at h
      cases h
    · rw [hx] at h
      exact ih h

theorem forM_cons_error {f : α → ExceptT ε (StateM σ) PUnit} {x : α} {xs : List α} {s s' : σ}
    {e : ε} (h : f x s = (.error e, s')) : (x :: xs).forM f s = (.error e, s') := by
  change (f x >>= fun _ => xs.forM f) s = _
  rw [run_bind, h]

end Autodiff
