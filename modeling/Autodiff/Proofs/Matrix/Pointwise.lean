import Mathlib.Data.List.OfFn
import Autodiff.Matrix.Concatenation
import Autodiff.Proofs.Program.Worlds

set_option autoImplicit false

namespace Autodiff.Matrix

variable {F : Type} {α β γ δ : Type}

inductive Pointwise (R : α → β → Prop) : Matrix α → Matrix β → Prop where
  | mk (rows cols : ℕ) (a : Vector α (rows * cols)) (b : Vector β (rows * cols))
      (h : ∀ k (hk : k < rows * cols), R a[k] b[k]) : Pointwise R ⟨rows, cols, a⟩ ⟨rows, cols, b⟩

namespace Pointwise

variable {R : α → β → Prop} {Q : γ → δ → Prop} {a : Matrix α} {b : Matrix β}

theorem mono {R' : α → β → Prop} (h : Pointwise R a b) (hR : ∀ x y, R x y → R' x y) :
    Pointwise R' a b := by
  cases h with
  | mk rows cols a b h => exact .mk rows cols a b fun k hk => hR _ _ (h k hk)

theorem rows_eq (h : Pointwise R a b) : a.rows = b.rows := by
  cases h; rfl

theorem cols_eq (h : Pointwise R a b) : a.cols = b.cols := by
  cases h; rfl

theorem ofFn {rows cols : ℕ} {f : Fin rows → Fin cols → α} {g : Fin rows → Fin cols → β}
    (h : ∀ i j, R (f i j) (g i j)) : Pointwise R (ofFn rows cols f) (Matrix.ofFn rows cols g) := by
  refine .mk rows cols _ _ fun k hk => ?_
  rw [Vector.getElem_ofFn, Vector.getElem_ofFn]
  exact h _ _

theorem transpose (h : Pointwise R a b) : Pointwise R a.transpose b.transpose := by
  cases h with
  | mk rows cols a b h => exact .ofFn fun i j => h _ (flat_lt j.isLt i.isLt)

theorem toList (h : Pointwise R a b) : List.Forall₂ R a.toList b.toList := by
  cases h with
  | mk rows cols a b h =>
    refine List.forall₂_iff_get.mpr ⟨by simp [Matrix.toList], fun k hk _ => ?_⟩
    have hk : k < rows * cols := by simpa [Matrix.toList] using hk
    simpa [Matrix.toList] using h k hk

theorem map {f : α → γ} {g : β → δ} (h : Pointwise R a b) (hf : ∀ x y, R x y → Q (f x) (g y)) :
    Pointwise Q (a.map f) (b.map g) := by
  cases h with
  | mk rows cols a b h =>
    refine .mk rows cols _ _ fun k hk => ?_
    rw [Vector.getElem_map, Vector.getElem_map]
    exact hf _ _ (h k hk)

theorem map_eq {f : α → γ} {g : β → γ} (h : Pointwise R a b) (hf : ∀ x y, R x y → f x = g y) :
    a.map f = b.map g := by
  cases h with
  | mk rows cols a b h =>
    change Matrix.mk rows cols (a.map f) = Matrix.mk rows cols (b.map g)
    congr 1
    ext k hk
    rw [Vector.getElem_map, Vector.getElem_map]
    exact hf _ _ (h k hk)

theorem entry (h : Pointwise R a b) (i j : ℕ) :
    Outcome.Rel R (a.entry i j : Outcome F α) (b.entry i j) := by
  cases h with
  | mk rows cols a b h =>
    by_cases hij : i < rows ∧ j < cols
    · simp only [Matrix.entry, get?, hij, and_self, ↓reduceDIte]
      exact .ok (h _ (flat_lt hij.1 hij.2))
    · simp only [Matrix.entry, get?, hij, ↓reduceDIte]
      exact .error _

theorem of_toList (hrows : a.rows = b.rows) (hcols : a.cols = b.cols)
    (h : List.Forall₂ R a.toList b.toList) : Pointwise R a b := by
  obtain ⟨rows, cols, a⟩ := a
  obtain ⟨_, _, b⟩ := b
  obtain rfl : rows = _ := hrows
  obtain rfl : cols = _ := hcols
  refine .mk rows cols a b fun k hk => ?_
  exact (List.forall₂_iff_get.mp h).2 k (by simpa using hk) (by simpa using hk)

theorem ofList {xs : List α} {ys : List β} (h : List.Forall₂ R xs ys) (rows cols : ℕ) :
    Outcome.Rel (Pointwise R) (Matrix.ofList rows cols xs : Outcome F (Matrix α))
      (Matrix.ofList rows cols ys) := by
  have hlen : xs.length = ys.length := h.length_eq
  by_cases hfits : Fits rows cols
  · by_cases hx : xs.length = rows * cols
    · simp only [Matrix.ofList, requireFits_of_fits hfits, ← hlen, hx, ↓reduceDIte]
      exact .ok (.of_toList rfl rfl h)
    · simp only [Matrix.ofList, requireFits_of_fits hfits, ← hlen, hx, ↓reduceDIte]
      exact .error _
  · simp only [Matrix.ofList, requireFits_of_not_fits hfits]
    exact .error _

theorem column {xs : List α} {ys : List β} (h : List.Forall₂ R xs ys) :
    Pointwise R (column xs) (Matrix.column ys) :=
  .of_toList h.length_eq rfl h

theorem row {xs : List α} {ys : List β} (h : List.Forall₂ R xs ys) :
    Pointwise R (row xs) (Matrix.row ys) :=
  .of_toList rfl h.length_eq h

theorem hcat {a' : Matrix α} {b' : Matrix β} (h : Pointwise R a b) (h' : Pointwise R a' b') :
    Outcome.Rel (Pointwise R) (a.hcat a' : Outcome F (Matrix α)) (b.hcat b') := by
  cases h with
  | mk rows cols a b h =>
    cases h' with
    | mk rows' cols' a' b' h' =>
      by_cases hrows : rows = rows'
      · subst hrows
        by_cases hfits : Fits rows (cols + cols')
        · simp only [Matrix.hcat, requireFits_of_fits hfits, ↓reduceDIte]
          refine .ok (.ofFn fun i j => ?_)
          refine j.addCases (fun j => ?_) fun j => ?_
          · simp only [Fin.addCases_left]
            exact h _ (flat_lt i.isLt j.isLt)
          · simp only [Fin.addCases_right]
            exact h' _ (flat_lt i.isLt j.isLt)
        · simp only [Matrix.hcat, requireFits_of_not_fits hfits, ↓reduceDIte]
          exact .error _
      · simp only [Matrix.hcat, hrows, ↓reduceDIte]
        exact .error _

theorem vcat {a' : Matrix α} {b' : Matrix β} (h : Pointwise R a b) (h' : Pointwise R a' b') :
    Outcome.Rel (Pointwise R) (a.vcat a' : Outcome F (Matrix α)) (b.vcat b') := by
  cases h with
  | mk rows cols a b h =>
    cases h' with
    | mk rows' cols' a' b' h' =>
      by_cases hcols : cols = cols'
      · subst hcols
        by_cases hfits : Fits (rows + rows') cols
        · simp only [Matrix.vcat, requireFits_of_fits hfits, ↓reduceDIte]
          refine .ok (.ofFn fun i j => ?_)
          refine i.addCases (fun i => ?_) fun i => ?_
          · simp only [Fin.addCases_left]
            exact h _ (flat_lt i.isLt j.isLt)
          · simp only [Fin.addCases_right]
            exact h' _ (flat_lt i.isLt j.isLt)
        · simp only [Matrix.vcat, requireFits_of_not_fits hfits, ↓reduceDIte]
          exact .error _
      · simp only [Matrix.vcat, hcols, ↓reduceDIte]
        exact .error _

end Pointwise

theorem ofFnM_pure {m : Type → Type} [Monad m] [LawfulMonad m] (rows cols : ℕ)
    (f : Fin rows → Fin cols → α) :
    ofFnM rows cols (fun i j => (pure (f i j) : m α)) = pure (ofFn rows cols f) := by
  unfold ofFnM ofFn
  rw [Vector.ofFnM_pure, pure_bind]

theorem ofFn_get (a : Matrix α) : ofFn a.rows a.cols a.get = a := by
  obtain ⟨rows, cols, data⟩ := a
  unfold ofFn
  congr 1
  ext k hk
  have hindex : k / cols * cols + k % cols = k := Nat.div_add_mod' k cols
  rw [Vector.getElem_ofFn]
  simp only [get, rowOf, colOf, hindex]

theorem eq_of_get? {a b : Matrix α} (hrows : a.rows = b.rows) (hcols : a.cols = b.cols)
    (h : ∀ i j, i < a.rows → j < a.cols → a.get? i j = b.get? i j) : a = b := by
  obtain ⟨rows, cols, a⟩ := a
  obtain ⟨_, _, b⟩ := b
  obtain rfl : rows = _ := hrows
  obtain rfl : cols = _ := hcols
  rw [← ofFn_get ⟨rows, cols, a⟩, ← ofFn_get ⟨rows, cols, b⟩]
  congr 1
  funext i j
  have hij := h i j i.isLt j.isLt
  rw [get?_eq_some ⟨rows, cols, a⟩, get?_eq_some ⟨rows, cols, b⟩] at hij
  exact Option.some.inj hij

theorem eq_iff_toList {a b : Matrix α} :
    a = b ↔ a.rows = b.rows ∧ a.cols = b.cols ∧ a.toList = b.toList := by
  refine ⟨fun h => h ▸ ⟨rfl, rfl, rfl⟩, ?_⟩
  rintro ⟨hrows, hcols, hlist⟩
  obtain ⟨rows, cols, xs⟩ := a
  obtain ⟨_, _, ys⟩ := b
  obtain rfl : rows = _ := hrows
  obtain rfl : cols = _ := hcols
  exact congrArg (Matrix.mk rows cols) (Vector.toList_inj.mp hlist)

theorem ofFnM_eq_mapM {m : Type → Type} [Monad m] [LawfulMonad m] {n : ℕ} (f : Fin n → m α) :
    List.ofFnM f = (List.finRange n).mapM f := by
  induction n with
  | zero => rw [List.ofFnM_zero, List.finRange_zero, List.mapM_nil]
  | succ n ih =>
    rw [List.ofFnM_succ, List.finRange_succ, List.mapM_cons, List.mapM_map, ih]
    rfl

def places (rows cols : ℕ) : List (Fin rows × Fin cols) :=
  (List.finRange rows).flatMap fun i => (List.finRange cols).map fun j => (i, j)

theorem map_finRange_places (rows cols : ℕ) :
    (List.finRange (rows * cols)).map (fun k => (rowOf k, colOf k)) = places rows cols := by
  have hplace : ∀ (i : Fin rows) (j : Fin cols),
      (rowOf ⟨i * cols + j, flat_lt i.isLt j.isLt⟩, colOf ⟨i * cols + j, flat_lt i.isLt j.isLt⟩) =
        (i, j) := by
    intro i j
    exact Prod.ext (Fin.ext (flat_div j.isLt)) (Fin.ext (flat_mod j.isLt))
  unfold places List.finRange
  rw [List.map_ofFn, List.ofFn_mul, List.flatMap_def, List.map_ofFn]
  simp only [Function.comp_def, hplace, List.map_ofFn]

theorem toList_ofFnM {m : Type → Type} [Monad m] [LawfulMonad m] (rows cols : ℕ)
    (f : Fin rows → Fin cols → m α) :
    toList <$> ofFnM rows cols f = (places rows cols).mapM fun k => f k.1 k.2 := by
  unfold ofFnM
  rw [← map_finRange_places, List.mapM_map, ← ofFnM_eq_mapM, ← Vector.toList_ofFnM, map_bind]
  simp only [map_pure]
  exact bind_pure_comp _ _

end Autodiff.Matrix

namespace Autodiff.Worlds

variable {F σ τ α β : Type} {V : Worlds σ τ} {m n : Type → Type}
variable [Monad m] [Monad n] [Runs F σ m] [Runs F τ n] [LawfulMonad m] [LawfulMonad n]

theorem agree_matrix {R : V.World → α → β → Prop} (hR : Stable R) {w : V.World} {rows cols : ℕ}
    {f : Fin rows → Fin cols → m α} {g : Fin rows → Fin cols → n β}
    (hf : ∀ w' i j, w ≤ w' → V.Agree R w' (f i j) (g i j)) :
    V.Agree (fun w => Matrix.Pointwise (R w)) w (Matrix.ofFnM rows cols f)
      (Matrix.ofFnM rows cols g) := by
  refine (agree_ofFnM hR fun w' k hw => hf w' _ _ hw).bind fun w' a b _ h => ?_
  exact agree_pure (.mk rows cols a b h)

end Autodiff.Worlds
