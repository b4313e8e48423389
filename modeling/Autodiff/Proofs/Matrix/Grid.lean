import Mathlib
import Autodiff.Proofs.Matrix.Entries

/-!
# Matrices as grids

A grid says which entry stands at which place, without saying how entries are stored. Each
structural operation on matrices is one on grids: storage row by row, its offsets and remainders
occur in this module only.
-/

set_option autoImplicit false

namespace Autodiff

/-- A partial table that is defined exactly inside its shape. -/
@[ext]
structure Grid (α : Type) where
  rows : ℕ
  cols : ℕ
  at? : ℕ → ℕ → Option α
  shape : ∀ i j, (at? i j).isSome ↔ i < rows ∧ j < cols

namespace Grid

variable {α β : Type}

theorem at?_eq_none (g : Grid α) {i j : ℕ} (h : ¬(i < g.rows ∧ j < g.cols)) : g.at? i j = none :=
  Option.not_isSome_iff_eq_none.mp fun hsome => h ((g.shape i j).mp hsome)

theorem ext_inside {g g' : Grid α} (hrows : g.rows = g'.rows) (hcols : g.cols = g'.cols)
    (h : ∀ i j, i < g.rows → j < g.cols → g.at? i j = g'.at? i j) : g = g' := by
  refine Grid.ext hrows hcols (funext fun i => funext fun j => ?_)
  by_cases hij : i < g.rows ∧ j < g.cols
  · exact h i j hij.1 hij.2
  · rw [g.at?_eq_none hij, g'.at?_eq_none (hrows ▸ hcols ▸ hij)]

theorem flat_lt_length {rows cols i j : ℕ} {xs : List α} (h : xs.length = rows * cols)
    (hij : i < rows ∧ j < cols) : i * cols + j < xs.length :=
  h ▸ Matrix.flat_lt hij.1 hij.2

def ofList? (rows cols : ℕ) (xs : List α) : Option (Grid α) :=
  if h : xs.length = rows * cols then
    some ⟨rows, cols, fun i j => if i < rows ∧ j < cols then xs[i * cols + j]? else none,
      fun i j => by
        by_cases hij : i < rows ∧ j < cols
        · simp [hij, flat_lt_length h hij]
        · simp [hij]⟩
  else none

def column (xs : List α) : Grid α :=
  ⟨xs.length, 1, fun i j => if j = 0 then xs[i]? else none, fun i j => by
    by_cases hj : j = 0 <;> simp [hj]⟩

def row (xs : List α) : Grid α :=
  ⟨1, xs.length, fun i j => if i = 0 then xs[j]? else none, fun i j => by
    by_cases hi : i = 0 <;> simp [hi]⟩

def map (f : α → β) (g : Grid α) : Grid β :=
  ⟨g.rows, g.cols, fun i j => (g.at? i j).map f, fun i j => by simpa using g.shape i j⟩

def traverse? (f : α → Option β) (g : Grid α) : Option (Grid β) :=
  if h : ∀ i < g.rows, ∀ j < g.cols, ((g.at? i j).bind f).isSome then
    some ⟨g.rows, g.cols, fun i j => (g.at? i j).bind f, fun i j => by
      refine ⟨fun hsome => ?_, fun hij => h i hij.1 j hij.2⟩
      obtain ⟨y, hy⟩ := Option.isSome_iff_exists.mp hsome
      obtain ⟨x, hx, -⟩ := Option.bind_eq_some_iff.mp hy
      exact (g.shape i j).mp (hx ▸ rfl)⟩
  else none

def set? (i j : ℕ) (x : α) (g : Grid α) : Option (Grid α) :=
  if h : i < g.rows ∧ j < g.cols then
    some ⟨g.rows, g.cols, fun k l => if k = i ∧ l = j then some x else g.at? k l, fun k l => by
      by_cases hkl : k = i ∧ l = j
      · simp [hkl, h]
      · simpa [hkl] using g.shape k l⟩
  else none

def transpose (g : Grid α) : Grid α :=
  ⟨g.cols, g.rows, fun i j => g.at? j i, fun i j => (g.shape j i).trans And.comm⟩

def hcat? (a b : Grid α) : Option (Grid α) :=
  if h : a.rows = b.rows then
    some ⟨a.rows, a.cols + b.cols,
      fun i j => if j < a.cols then a.at? i j else b.at? i (j - a.cols), fun i j => by
        by_cases hj : j < a.cols
        · rw [if_pos hj, a.shape]
          omega
        · rw [if_neg hj, b.shape]
          omega⟩
  else none

def vcat? (a b : Grid α) : Option (Grid α) :=
  if h : a.cols = b.cols then
    some ⟨a.rows + b.rows, a.cols,
      fun i j => if i < a.rows then a.at? i j else b.at? (i - a.rows) j, fun i j => by
        by_cases hi : i < a.rows
        · rw [if_pos hi, a.shape]
          omega
        · rw [if_neg hi, b.shape]
          omega⟩
  else none

/-- The entries of `c` are those of `a` left of the split and those of `b` from there on. -/
structure Beside (a b c : Grid α) : Prop where
  rows_left : c.rows = a.rows
  rows_right : c.rows = b.rows
  cols : c.cols = a.cols + b.cols
  left : ∀ i j, j < a.cols → c.at? i j = a.at? i j
  right : ∀ i j, c.at? i (a.cols + j) = b.at? i j

theorem hcat?_eq_some_iff {a b c : Grid α} : a.hcat? b = some c ↔ Beside a b c := by
  constructor
  · intro h
    by_cases hrows : a.rows = b.rows
    · rw [hcat?, dif_pos hrows, Option.some.injEq] at h
      subst h
      refine ⟨rfl, hrows, rfl, fun i j hj => if_pos hj, fun i j => ?_⟩
      simp
    · rw [hcat?, dif_neg hrows] at h
      cases h
  · intro h
    rw [hcat?, dif_pos (h.rows_left.symm.trans h.rows_right), Option.some.injEq]
    refine Grid.ext h.rows_left.symm h.cols.symm (funext fun i => funext fun j => ?_)
    rcases Nat.lt_or_ge j a.cols with hj | hj
    · exact (if_pos hj).trans (h.left i j hj).symm
    · obtain ⟨k, rfl⟩ := Nat.exists_eq_add_of_le hj
      rw [h.right]
      simp

structure Above (a b c : Grid α) : Prop where
  cols_upper : c.cols = a.cols
  cols_lower : c.cols = b.cols
  rows : c.rows = a.rows + b.rows
  upper : ∀ i j, i < a.rows → c.at? i j = a.at? i j
  lower : ∀ i j, c.at? (a.rows + i) j = b.at? i j

theorem above_iff_beside_transpose {a b c : Grid α} :
    Above a b c ↔ Beside a.transpose b.transpose c.transpose :=
  ⟨fun h => ⟨h.cols_upper, h.cols_lower, h.rows, fun i j => h.upper j i, fun i j => h.lower j i⟩,
    fun h => ⟨h.rows_left, h.rows_right, h.cols, fun i j => h.left j i, fun i j => h.right j i⟩⟩

theorem vcat?_transpose (a b : Grid α) :
    a.transpose.vcat? b.transpose = (a.hcat? b).map transpose := by
  by_cases h : a.rows = b.rows
  · simp [vcat?, hcat?, transpose, h]
  · simp [vcat?, hcat?, transpose, h]

theorem vcat?_eq_some_iff {a b c : Grid α} : a.vcat? b = some c ↔ Above a b c := by
  have htwice : ∀ g : Grid α, g.transpose.transpose = g := fun _ => rfl
  have hvcat := vcat?_transpose a.transpose b.transpose
  rw [htwice, htwice] at hvcat
  rw [hvcat, Option.map_eq_some_iff, above_iff_beside_transpose, ← hcat?_eq_some_iff]
  exact ⟨fun ⟨g, hg, hc⟩ => hc ▸ hg, fun h => ⟨_, h, rfl⟩⟩

namespace Beside

variable {a b c ab bc d : Grid α}

theorem assoc_right (hab : Beside a b ab) (hd : Beside ab c d) (hbc : Beside b c bc) :
    Beside a bc d where
  rows_left := hd.rows_left.trans hab.rows_left
  rows_right := (hd.rows_left.trans hab.rows_right).trans hbc.rows_left.symm
  cols := by
    rw [hd.cols, hab.cols, hbc.cols, Nat.add_assoc]
  left i j hj := by
    rw [hd.left i j (by rw [hab.cols]; omega), hab.left i j hj]
  right i j := by
    rcases Nat.lt_or_ge j b.cols with hj | hj
    · rw [hd.left i _ (by rw [hab.cols]; omega), hab.right, hbc.left i j hj]
    · obtain ⟨k, rfl⟩ := Nat.exists_eq_add_of_le hj
      rw [← Nat.add_assoc, ← hab.cols, hd.right, hbc.right]

theorem assoc_left (hbc : Beside b c bc) (hd : Beside a bc d) (hab : Beside a b ab) :
    Beside ab c d where
  rows_left := hd.rows_left.trans hab.rows_left.symm
  rows_right := (hd.rows_right.trans hbc.rows_right)
  cols := by
    rw [hd.cols, hab.cols, hbc.cols, Nat.add_assoc]
  left i j hj := by
    rcases Nat.lt_or_ge j a.cols with hja | hja
    · rw [hd.left i j hja, hab.left i j hja]
    · obtain ⟨k, rfl⟩ := Nat.exists_eq_add_of_le hja
      rw [hab.cols] at hj
      rw [hd.right, hab.right, hbc.left i k (by omega)]
  right i j := by
    rw [hab.cols, Nat.add_assoc, hd.right, hbc.right]

end Beside

def Fits (g : Grid α) : Prop := Matrix.Fits g.rows g.cols

instance (g : Grid α) : Decidable g.Fits := inferInstanceAs (Decidable (Matrix.Fits _ _))

end Grid

namespace Matrix

variable {F : Type} {α β : Type}

theorem Fits.symm {rows cols : ℕ} (h : Fits rows cols) : Fits cols rows :=
  ⟨h.2.1, h.1, Nat.mul_comm rows cols ▸ h.2.2⟩

theorem fits_comm {rows cols : ℕ} : Fits rows cols ↔ Fits cols rows := ⟨Fits.symm, Fits.symm⟩

theorem fits_column {n : ℕ} (h : n < UInt64.size) : Fits n 1 :=
  ⟨h, by decide, (Nat.mul_one n).symm ▸ h⟩

theorem Fits.mono {rows cols rows' cols' : ℕ} (h : Fits rows cols) (hrows : rows' ≤ rows)
    (hcols : cols' ≤ cols) : Fits rows' cols' :=
  ⟨hrows.trans_lt h.1, hcols.trans_lt h.2.1, (Nat.mul_le_mul hrows hcols).trans_lt h.2.2⟩

theorem isSome_get? (m : Matrix α) (i j : ℕ) :
    (m.get? i j).isSome ↔ i < m.rows ∧ j < m.cols := by
  by_cases hij : i < m.rows ∧ j < m.cols <;> simp [get?, hij]

def grid (m : Matrix α) : Grid α := ⟨m.rows, m.cols, m.get?, m.isSome_get?⟩

theorem getElem?_toList (m : Matrix α) {i j : ℕ} (hi : i < m.rows) (hj : j < m.cols) :
    m.toList[i * m.cols + j]? = m.get? i j := by
  have hflat : i * m.cols + j < m.toList.length := by
    rw [m.length_toList]
    exact flat_lt hi hj
  rw [List.getElem?_eq_getElem hflat]
  exact (m.get?_eq_some ⟨i, hi⟩ ⟨j, hj⟩).symm

theorem getElem?_toList_div (m : Matrix α) (n : ℕ) :
    m.toList[n]? = m.get? (n / m.cols) (n % m.cols) := by
  rcases Nat.lt_or_ge n (m.rows * m.cols) with hn | hn
  · have hcols : 0 < m.cols := cols_pos_of_lt hn
    rw [← m.getElem?_toList ((Nat.div_lt_iff_lt_mul hcols).mpr hn) (Nat.mod_lt n hcols),
      Nat.div_add_mod']
  -- Past the end of the list the place is outside the shape.
  · have hout : ¬(n / m.cols < m.rows ∧ n % m.cols < m.cols) := by
      rintro ⟨hi, hj⟩
      have hflat := flat_lt hi hj
      rw [Nat.div_add_mod'] at hflat
      omega
    rw [List.getElem?_eq_none (m.length_toList ▸ hn)]
    exact (m.grid.at?_eq_none hout).symm

theorem get?_of_toList (m : Matrix α) (i j : ℕ) :
    m.get? i j = if i < m.rows ∧ j < m.cols then m.toList[i * m.cols + j]? else none := by
  by_cases hij : i < m.rows ∧ j < m.cols
  · rw [if_pos hij, m.getElem?_toList hij.1 hij.2]
  · rw [if_neg hij]
    exact m.grid.at?_eq_none hij

theorem grid_injective : Function.Injective (grid (α := α)) := fun _ _ h =>
  eq_of_get? (congrArg Grid.rows h) (congrArg Grid.cols h) fun i j _ _ =>
    congrFun (congrFun (congrArg Grid.at? h) i) j

theorem grid_ofFn {rows cols : ℕ} {f : Fin rows → Fin cols → α} {g : Grid α} (hrows : g.rows = rows)
    (hcols : g.cols = cols) (h : ∀ (i : Fin rows) (j : Fin cols), g.at? i j = some (f i j)) :
    (ofFn rows cols f).grid = g := by
  refine Grid.ext_inside hrows.symm hcols.symm fun i j hi hj => ?_
  have hget : (ofFn rows cols f).get? i j = some (f ⟨i, hi⟩ ⟨j, hj⟩) :=
    (get?_eq_some _ ⟨i, hi⟩ ⟨j, hj⟩).trans (congrArg some (get_ofFn rows cols f _ _))
  exact hget.trans (h ⟨i, hi⟩ ⟨j, hj⟩).symm

/-- An operation on matrices that checks the shape of its result is one on grids that drops a
result of the wrong shape. -/
theorem grid_requireFits {rows cols : ℕ} {m : Matrix α} {g : Grid α} (hrows : m.rows = rows)
    (hcols : m.cols = cols) (hg : m.grid = g) :
    ((requireFits rows cols : Outcome F Unit).map fun _ => m).toOption.map grid =
      (some g).filter (·.Fits) := by
  subst hrows hcols hg
  by_cases hfits : Fits m.rows m.cols
  · have hgrid : m.grid.Fits := hfits
    rw [requireFits_of_fits hfits, Option.filter_some, if_pos (decide_eq_true hgrid)]
    rfl
  · have hgrid : ¬ m.grid.Fits := hfits
    rw [requireFits_of_not_fits hfits, Option.filter_some, if_neg (by simpa using hgrid)]
    rfl

theorem grid_ofList (rows cols : ℕ) (xs : List α) :
    (ofList rows cols xs : Outcome F (Matrix α)).toOption.map grid =
      (Grid.ofList? rows cols xs).filter (·.Fits) := by
  by_cases h : xs.length = rows * cols
  · have hlist : (ofList rows cols xs : Outcome F (Matrix α)) =
        (requireFits rows cols).map fun _ => ⟨rows, cols, ⟨xs.toArray, h⟩⟩ := by
      simp only [ofList, h, ↓reduceDIte]
      rfl
    rw [hlist, Grid.ofList?, dif_pos h]
    refine grid_requireFits rfl rfl (Grid.ext rfl rfl (funext fun i => funext fun j => ?_))
    exact get?_of_toList ⟨rows, cols, ⟨xs.toArray, h⟩⟩ i j
  · have hnone : (ofList rows cols xs : Outcome F (Matrix α)).toOption = none := by
      simp only [ofList, h, ↓reduceDIte]
      cases (requireFits rows cols : Outcome F Unit) <;> rfl
    rw [hnone, Grid.ofList?, dif_neg h]
    rfl

theorem grid_column (xs : List α) : (column xs).grid = Grid.column xs := by
  refine Grid.ext rfl rfl (funext fun i => funext fun j => ?_)
  refine (get?_of_toList (column xs) i j).trans ?_
  change (if i < xs.length ∧ j < 1 then xs[i * 1 + j]? else none) = if j = 0 then xs[i]? else none
  by_cases hj : j = 0
  · simp [hj]
  · simp [hj]

theorem grid_row (xs : List α) : (row xs).grid = Grid.row xs := by
  refine Grid.ext rfl rfl (funext fun i => funext fun j => ?_)
  refine (get?_of_toList (row xs) i j).trans ?_
  change (if i < 1 ∧ j < xs.length then xs[i * xs.length + j]? else none) =
    if i = 0 then xs[j]? else none
  by_cases hi : i = 0
  · simp [hi]
  · simp [hi]

theorem grid_map (f : α → β) (m : Matrix α) : (m.map f).grid = m.grid.map f := by
  refine Grid.ext_inside rfl rfl fun i j hi hj => ?_
  have hm : m.get? i j = some (m.get ⟨i, hi⟩ ⟨j, hj⟩) := m.get?_eq_some ⟨i, hi⟩ ⟨j, hj⟩
  have hmap := (m.map f).get?_eq_some ⟨i, hi⟩ ⟨j, hj⟩
  exact hmap.trans ((congrArg some (get_map f m _ _)).trans (congrArg (Option.map f) hm).symm)

theorem grid_transpose (m : Matrix α) : m.transpose.grid = m.grid.transpose :=
  grid_ofFn rfl rfl fun i j => m.get?_eq_some j i

theorem grid_set (m : Matrix α) (i j : ℕ) (x : α) :
    (m.set i j x : Outcome F (Matrix α)).toOption.map grid = m.grid.set? i j x := by
  by_cases hij : i < m.rows ∧ j < m.cols
  · have hset : m.grid.set? i j x = some _ := dif_pos hij
    rw [Matrix.set, if_pos hij, hset]
    refine congrArg some (Grid.ext (m.rows_poke i j x) (m.cols_poke i j x) ?_)
    funext k l
    by_cases hkl : k = i ∧ l = j
    · obtain ⟨rfl, rfl⟩ := hkl
      exact (m.get?_poke_self hij.1 hij.2 x).trans (if_pos ⟨rfl, rfl⟩).symm
    · exact (m.get?_poke_ne x hkl).trans (if_neg hkl).symm
  · have hset : m.grid.set? i j x = none := dif_neg hij
    rw [Matrix.set, if_neg hij, hset]
    rfl

theorem grid_hcat (a b : Matrix α) :
    (a.hcat b : Outcome F (Matrix α)).toOption.map grid =
      (a.grid.hcat? b.grid).filter (·.Fits) := by
  by_cases h : a.rows = b.rows
  · have hcat : a.grid.hcat? b.grid = some _ := dif_pos h
    rw [Matrix.hcat, dif_pos h, hcat]
    refine grid_requireFits rfl rfl (grid_ofFn rfl rfl fun i j => ?_)
    refine j.addCases (fun j => ?_) fun j => ?_
    · rw [Fin.addCases_left]
      exact (if_pos j.isLt).trans (a.get?_eq_some i j)
    · rw [Fin.addCases_right]
      refine (if_neg (Nat.not_lt.mpr (Nat.le_add_right _ _))).trans ?_
      exact (congrArg (b.get? i) (Nat.add_sub_cancel_left _ _)).trans (b.get?_eq_some (i.cast h) j)
  · have hcat : a.grid.hcat? b.grid = none := dif_neg h
    rw [Matrix.hcat, dif_neg h, hcat]
    rfl

theorem grid_vcat (a b : Matrix α) :
    (a.vcat b : Outcome F (Matrix α)).toOption.map grid =
      (a.grid.vcat? b.grid).filter (·.Fits) := by
  by_cases h : a.cols = b.cols
  · have hcat : a.grid.vcat? b.grid = some _ := dif_pos h
    rw [Matrix.vcat, dif_pos h, hcat]
    refine grid_requireFits rfl rfl (grid_ofFn rfl rfl fun i j => ?_)
    refine i.addCases (fun i => ?_) fun i => ?_
    · rw [Fin.addCases_left]
      exact (if_pos i.isLt).trans (a.get?_eq_some i j)
    · rw [Fin.addCases_right]
      refine (if_neg (Nat.not_lt.mpr (Nat.le_add_right _ _))).trans ?_
      exact (congrArg (b.get? · j) (Nat.add_sub_cancel_left _ _)).trans
        (b.get?_eq_some i (j.cast h))
  · have hcat : a.grid.vcat? b.grid = none := dif_neg h
    rw [Matrix.vcat, dif_neg h, hcat]
    rfl

theorem list_mapM_ok {f : α → Outcome F β} {xs : List α} {ys : List β} (h : xs.mapM f = .ok ys) :
    List.Forall₂ (fun x y => f x = .ok y) xs ys := by
  induction xs generalizing ys with
  | nil =>
    obtain rfl : [] = ys := Except.ok.inj h
    exact .nil
  | cons x xs ih =>
    rw [List.mapM_cons] at h
    cases hx : f x with
    | error e =>
      rw [hx] at h
      cases h
    | ok y =>
      cases hxs : xs.mapM f with
      | error e =>
        rw [hx, hxs] at h
        cases h
      | ok zs =>
        rw [hx, hxs] at h
        obtain rfl : y :: zs = ys := Except.ok.inj h
        exact .cons hx (ih hxs)

theorem list_mapM_error {f : α → Outcome F β} {xs : List α} {e : Failure F}
    (h : xs.mapM f = .error e) : ∃ before x after, xs = before ++ x :: after ∧ f x = .error e ∧
      ∀ y ∈ before, ∃ z, f y = .ok z := by
  induction xs with
  | nil => cases h
  | cons x xs ih =>
    rw [List.mapM_cons] at h
    cases hx : f x with
    | error e' =>
      rw [hx] at h
      obtain rfl : e' = e := Except.error.inj h
      exact ⟨[], x, xs, rfl, hx, fun y hy => absurd hy List.not_mem_nil⟩
    | ok z =>
      cases hxs : xs.mapM f with
      | ok zs =>
        rw [hx, hxs] at h
        cases h
      | error e' =>
        rw [hx, hxs] at h
        obtain rfl : e' = e := Except.error.inj h
        obtain ⟨before, y, after, rfl, hy, hbefore⟩ := ih hxs
        refine ⟨x :: before, y, after, rfl, hy, fun w hw => ?_⟩
        obtain rfl | hw := List.mem_cons.mp hw
        · exact ⟨z, hx⟩
        · exact hbefore w hw

theorem toList_mapM {m : Type → Type} [Monad m] [LawfulMonad m] (f : α → m β) (a : Matrix α) :
    toList <$> a.mapM f = a.toList.mapM f := by
  have hvector : Vector.toArray <$> a.data.mapM f = a.data.toArray.mapM f := Vector.toArray_mapM
  have harray : Array.toList <$> a.data.toArray.mapM f = a.toList.mapM f := Array.toList_mapM
  rw [← harray, ← hvector, mapM, map_bind, Functor.map_map, ← bind_pure_comp]
  simp only [map_pure]
  rfl

theorem mapM_ok {f : α → Outcome F β} {a : Matrix α} {b : Matrix β} (h : a.mapM f = .ok b) :
    Pointwise (fun x y => f x = .ok y) a b := by
  have hlist : a.toList.mapM f = .ok b.toList := by
    rw [← toList_mapM, h]
    rfl
  have hshape : b.rows = a.rows ∧ b.cols = a.cols := by
    rw [mapM] at h
    cases hdata : a.data.mapM f with
    | error e =>
      rw [hdata] at h
      cases h
    | ok data =>
      rw [hdata] at h
      obtain rfl : Matrix.mk a.rows a.cols data = b := Except.ok.inj h
      exact ⟨rfl, rfl⟩
  exact .of_toList hshape.1.symm hshape.2.symm (list_mapM_ok hlist)

theorem Pointwise.get? {R : α → β → Prop} {a : Matrix α} {b : Matrix β} (h : Pointwise R a b)
    (i j : ℕ) : Option.Rel R (a.get? i j) (b.get? i j) := by
  cases h with
  | mk rows cols a b h =>
    by_cases hij : i < rows ∧ j < cols
    · simp only [Matrix.get?, hij, and_self, ↓reduceDIte]
      exact .some (h _ (flat_lt hij.1 hij.2))
    · simp only [Matrix.get?, hij, ↓reduceDIte]
      exact .none

theorem mapM_error {f : α → Outcome F β} {a : Matrix α} {e : Failure F} (h : a.mapM f = .error e) :
    ∃ i j x, a.get? i j = some x ∧ f x = .error e ∧
      ∀ k l y, k < i ∨ k = i ∧ l < j → a.get? k l = some y → ∃ z, f y = .ok z := by
  have hlist : a.toList.mapM f = .error e := by
    rw [← toList_mapM, h]
    rfl
  obtain ⟨before, x, after, hsplit, hx, hbefore⟩ := list_mapM_error hlist
  have hlt : before.length < a.rows * a.cols := by
    rw [← a.length_toList, hsplit, List.length_append, List.length_cons]
    omega
  let place : Fin (a.rows * a.cols) := ⟨before.length, hlt⟩
  have hplace : (rowOf place).val * a.cols + (colOf place).val = before.length :=
    Nat.div_add_mod' before.length a.cols
  refine ⟨rowOf place, colOf place, x, ?_, hx, fun k l y hkl hy => ?_⟩
  · rw [← a.getElem?_toList (rowOf place).isLt (colOf place).isLt, hplace, hsplit]
    simp
  · have hin : k < a.rows ∧ l < a.cols := (a.isSome_get? k l).mp (hy ▸ rfl)
    have hearlier : k * a.cols + l < before.length := by
      rw [← hplace]
      obtain hk | ⟨rfl, hl⟩ := hkl
      · have hflat : k * a.cols + l < (rowOf place).val * a.cols := flat_lt hk hin.2
        omega
      · omega
    have hget : a.toList[k * a.cols + l]? = some y := (a.getElem?_toList hin.1 hin.2).trans hy
    rw [hsplit, List.getElem?_append_left hearlier] at hget
    exact hbefore y (List.mem_of_getElem? hget)

theorem grid_mapM (f : α → Outcome F β) (m : Matrix α) :
    (m.mapM f).toOption.map grid = m.grid.traverse? fun x => (f x).toOption := by
  cases h : m.mapM f with
  | error e =>
    obtain ⟨i, j, x, hx, hfail, -⟩ := mapM_error h
    obtain ⟨hi, hj⟩ := (m.isSome_get? i j).mp (hx ▸ rfl)
    -- The entry that fails has no place in the traversed grid.
    have hnot : ¬∀ i < m.rows, ∀ j < m.cols,
        ((m.get? i j).bind fun x => (f x).toOption).isSome := by
      intro hall
      have hij := hall i hi j hj
      rw [hx, Option.bind_some, hfail] at hij
      cases hij
    have htraverse : m.grid.traverse? (fun x => (f x).toOption) = none := dif_neg hnot
    rw [htraverse]
    rfl
  | ok b =>
    have hentry : ∀ i j, b.get? i j = (m.get? i j).bind fun x => (f x).toOption := by
      intro i j
      have hrel : Option.Rel (fun x y => f x = .ok y) (m.get? i j) (b.get? i j) :=
        (mapM_ok h).get? i j
      generalize m.get? i j = x, b.get? i j = y at hrel ⊢
      cases hrel with
      | none => rfl
      | some hxy => rw [Option.bind_some, hxy, Except.toOption]
    have hall : ∀ i < m.rows, ∀ j < m.cols,
        ((m.get? i j).bind fun x => (f x).toOption).isSome := by
      intro i hi j hj
      rw [← hentry]
      exact (b.isSome_get? i j).mpr ⟨(mapM_ok h).rows_eq ▸ hi, (mapM_ok h).cols_eq ▸ hj⟩
    have htraverse : m.grid.traverse? (fun x => (f x).toOption) = some _ := dif_pos hall
    rw [htraverse]
    refine congrArg some (Grid.ext (mapM_ok h).rows_eq.symm (mapM_ok h).cols_eq.symm ?_)
    exact funext fun i => funext fun j => hentry i j

end Matrix

end Autodiff
