import Mathlib
import Autodiff.Proofs.Matrix.Grid
import Autodiff.Proofs.Program.Simulation

set_option autoImplicit false

open Autodiff.Matrix (grid)

namespace Autodiff

/-- How a matrix is built. Maps may change the type of the entries. -/
inductive Construction (F : Type) : Type → Type 1 where
  | ofList {α : Type} (rows cols : ℕ) (entries : List α) : Construction F α
  | column {α : Type} (entries : List α) : Construction F α
  | row {α : Type} (entries : List α) : Construction F α
  | map {α β : Type} (f : α → β) (c : Construction F α) : Construction F β
  | mapM {α β : Type} (f : α → Outcome F β) (c : Construction F α) : Construction F β
  | set {α : Type} (i j : ℕ) (x : α) (c : Construction F α) : Construction F α
  | transpose {α : Type} (c : Construction F α) : Construction F α
  | hcat {α : Type} (a b : Construction F α) : Construction F α
  | vcat {α : Type} (a b : Construction F α) : Construction F α

namespace Construction

variable {F : Type}

def eval : {α : Type} → Construction F α → Outcome F (Matrix α)
  | _, .ofList rows cols xs => Matrix.ofList rows cols xs
  | _, .column xs => .ok (.column xs)
  | _, .row xs => .ok (.row xs)
  | _, .map f c => c.eval.map (Matrix.map f)
  | _, .mapM f c => c.eval.bind (Matrix.mapM f)
  | _, .set i j x c => c.eval.bind fun m => m.set i j x
  | _, .transpose c => c.eval.map Matrix.transpose
  | _, .hcat a b => a.eval.bind fun m => b.eval.bind m.hcat
  | _, .vcat a b => a.eval.bind fun m => b.eval.bind m.vcat

def grid? : {α : Type} → Construction F α → Option (Grid α)
  | _, .ofList rows cols xs => (Grid.ofList? rows cols xs).filter (·.Fits)
  | _, .column xs => some (.column xs)
  | _, .row xs => some (.row xs)
  | _, .map f c => c.grid?.map (Grid.map f)
  | _, .mapM f c => c.grid?.bind (Grid.traverse? fun x => (f x).toOption)
  | _, .set i j x c => c.grid?.bind (Grid.set? i j x)
  | _, .transpose c => c.grid?.map Grid.transpose
  | _, .hcat a b => a.grid?.bind fun g => b.grid?.bind fun h => (g.hcat? h).filter (·.Fits)
  | _, .vcat a b => a.grid?.bind fun g => b.grid?.bind fun h => (g.vcat? h).filter (·.Fits)

/-- The lists of the construction are no longer than lists in memory can be. -/
def Stored : {α : Type} → Construction F α → Prop
  | _, .ofList _ _ xs => xs.length < UInt64.size
  | _, .column xs => xs.length < UInt64.size
  | _, .row xs => xs.length < UInt64.size
  | _, .map _ c => c.Stored
  | _, .mapM _ c => c.Stored
  | _, .set _ _ _ c => c.Stored
  | _, .transpose c => c.Stored
  | _, .hcat a b => a.Stored ∧ b.Stored
  | _, .vcat a b => a.Stored ∧ b.Stored

end Construction

section Outcomes

variable {F α β : Type}

theorem map_grid_bind {x : Outcome F (Matrix α)} {g : Option (Grid α)}
    {f : Matrix α → Outcome F (Matrix β)} {h : Grid α → Option (Grid β)}
    (hx : x.toOption.map grid = g) (hf : ∀ m, (f m).toOption.map grid = h m.grid) :
    (x.bind f).toOption.map grid = g.bind h := by
  subst hx
  cases x with
  | error e => rfl
  | ok m => exact hf m

theorem map_grid_map {x : Outcome F (Matrix α)} {g : Option (Grid α)} {f : Matrix α → Matrix β}
    {h : Grid α → Grid β} (hx : x.toOption.map grid = g) (hf : ∀ m, (f m).grid = h m.grid) :
    (x.map f).toOption.map grid = g.map h := by
  subst hx
  cases x with
  | error e => rfl
  | ok m => exact congrArg some (hf m)

theorem eq_ok_iff_grid {x : Outcome F (Matrix α)} {m : Matrix α} :
    x = .ok m ↔ x.toOption.map grid = some m.grid := by
  cases x with
  | error e =>
    constructor
    · intro h
      cases h
    · intro h
      cases h
  | ok m' =>
    refine ⟨fun h => congrArg (fun x => x.toOption.map grid) h, fun h => ?_⟩
    exact congrArg Except.ok (Matrix.grid_injective (Option.some.inj h))

end Outcomes

theorem Construction.eval_grid {F α : Type} (c : Construction F α) :
    c.eval.toOption.map grid = c.grid? := by
  induction c with
  | ofList rows cols xs => exact Matrix.grid_ofList rows cols xs
  | column xs => exact congrArg some (Matrix.grid_column xs)
  | row xs => exact congrArg some (Matrix.grid_row xs)
  | map f c ih => exact map_grid_map ih (Matrix.grid_map f)
  | mapM f c ih => exact map_grid_bind ih (Matrix.grid_mapM f)
  | set i j x c ih => exact map_grid_bind ih fun m => m.grid_set i j x
  | transpose c ih => exact map_grid_map ih Matrix.grid_transpose
  | hcat a b iha ihb => exact map_grid_bind iha fun m => map_grid_bind ihb m.grid_hcat
  | vcat a b iha ihb => exact map_grid_bind iha fun m => map_grid_bind ihb m.grid_vcat

namespace Matrix

variable {F α : Type}

/-! ### Concatenation and transposition -/

theorem hcat_eq_ok_iff {a b c : Matrix α} :
    (a.hcat b : Outcome F (Matrix α)) = .ok c ↔
      Grid.Beside a.grid b.grid c.grid ∧ Fits c.rows c.cols := by
  rw [eq_ok_iff_grid, grid_hcat, Option.filter_eq_some_iff, Grid.hcat?_eq_some_iff,
    decide_eq_true_iff]
  rfl

theorem vcat_eq_ok_iff {a b c : Matrix α} :
    (a.vcat b : Outcome F (Matrix α)) = .ok c ↔
      Grid.Above a.grid b.grid c.grid ∧ Fits c.rows c.cols := by
  rw [eq_ok_iff_grid, grid_vcat, Option.filter_eq_some_iff, Grid.vcat?_eq_some_iff,
    decide_eq_true_iff]
  rfl

theorem hcat_of_ne {a b : Matrix α} (h : a.rows ≠ b.rows) :
    (a.hcat b : Outcome F (Matrix α)) =
      .error (.error (.sizeMismatch "append_col" "rows of A" a.rows "rows of B" b.rows)) :=
  dif_neg h

theorem vcat_of_ne {a b : Matrix α} (h : a.cols ≠ b.cols) :
    (a.vcat b : Outcome F (Matrix α)) =
      .error (.error (.sizeMismatch "append_row" "columns of A" a.cols "columns of B" b.cols)) :=
  dif_neg h

theorem hcat_of_not_fits {a b : Matrix α} (h : a.rows = b.rows)
    (hfits : ¬ Fits a.rows (a.cols + b.cols)) :
    (a.hcat b : Outcome F (Matrix α)) = .error (.fault .overflow) := by
  rw [hcat, dif_pos h, requireFits_of_not_fits hfits]
  rfl

theorem vcat_of_not_fits {a b : Matrix α} (h : a.cols = b.cols)
    (hfits : ¬ Fits (a.rows + b.rows) a.cols) :
    (a.vcat b : Outcome F (Matrix α)) = .error (.fault .overflow) := by
  rw [vcat, dif_pos h, requireFits_of_not_fits hfits]
  rfl

theorem exists_hcat {a b : Matrix α} (h : a.rows = b.rows)
    (hfits : Fits a.rows (a.cols + b.cols)) : ∃ c, (a.hcat b : Outcome F (Matrix α)) = .ok c := by
  rw [hcat, dif_pos h, requireFits_of_fits hfits]
  exact ⟨_, rfl⟩

theorem exists_vcat {a b : Matrix α} (h : a.cols = b.cols)
    (hfits : Fits (a.rows + b.rows) a.cols) : ∃ c, (a.vcat b : Outcome F (Matrix α)) = .ok c := by
  rw [vcat, dif_pos h, requireFits_of_fits hfits]
  exact ⟨_, rfl⟩

@[simp]
theorem transpose_transpose (m : Matrix α) : m.transpose.transpose = m :=
  grid_injective ((grid_transpose m.transpose).trans (congrArg Grid.transpose (grid_transpose m)))

end Matrix

def Failure.withNames {F : Type} (op lhsName rhsName : String) : Failure F → Failure F
  | .error (.sizeMismatch _ _ lhs _ rhs) => .error (.sizeMismatch op lhsName lhs rhsName rhs)
  | e => e

namespace Matrix

variable {F α : Type}

theorem vcat_eq_ok_iff_transpose {a b c : Matrix α} :
    (a.vcat b : Outcome F (Matrix α)) = .ok c ↔
      (a.transpose.hcat b.transpose : Outcome F (Matrix α)) = .ok c.transpose := by
  rw [vcat_eq_ok_iff, hcat_eq_ok_iff, Grid.above_iff_beside_transpose, grid_transpose,
    grid_transpose, grid_transpose]
  exact and_congr_right fun _ => fits_comm

theorem hcat_transpose (a b : Matrix α) :
    (a.transpose.hcat b.transpose : Outcome F (Matrix α)) =
      ((a.vcat b).map transpose).mapError
        (Failure.withNames "append_col" "rows of A" "rows of B") := by
  by_cases h : a.cols = b.cols
  · by_cases hfits : Fits (a.rows + b.rows) a.cols
    · obtain ⟨c, hc⟩ := exists_vcat (F := F) h hfits
      rw [hc]
      exact vcat_eq_ok_iff_transpose.mp hc
    · rw [vcat_of_not_fits h hfits]
      exact hcat_of_not_fits h fun hfits' => hfits hfits'.symm
  · rw [vcat_of_ne h]
    exact hcat_of_ne h

theorem vcat_transpose (a b : Matrix α) :
    (a.transpose.vcat b.transpose : Outcome F (Matrix α)) =
      ((a.hcat b).map transpose).mapError
        (Failure.withNames "append_row" "columns of A" "columns of B") := by
  by_cases h : a.rows = b.rows
  · by_cases hfits : Fits a.rows (a.cols + b.cols)
    · obtain ⟨c, hc⟩ := exists_hcat (F := F) h hfits
      rw [hc]
      refine vcat_eq_ok_iff_transpose.mpr ?_
      rw [transpose_transpose, transpose_transpose, transpose_transpose]
      exact hc
    · rw [hcat_of_not_fits h hfits]
      exact vcat_of_not_fits h fun hfits' => hfits hfits'.symm
  · rw [hcat_of_ne h]
    exact vcat_of_ne h

theorem fits_of_beside {a b c : Matrix α} {rows cols : ℕ} (h : Grid.Beside a.grid b.grid c.grid)
    (hfits : Fits c.rows c.cols) (hrows : rows = a.rows) (hcols : cols ≤ a.cols + b.cols) :
    Fits rows cols :=
  hfits.mono (hrows.trans h.rows_left.symm).le (hcols.trans h.cols.ge)

theorem hcat_assoc (a b c d : Matrix α) :
    ((a.hcat b : Outcome F (Matrix α)).bind fun ab => ab.hcat c) = .ok d ↔
      ((b.hcat c : Outcome F (Matrix α)).bind fun bc => a.hcat bc) = .ok d := by
  simp only [bind_eq_ok_iff, hcat_eq_ok_iff]
  constructor
  · rintro ⟨ab, ⟨hab, -⟩, hd, hfits⟩
    have hrows : ab.rows = b.rows := hab.rows_right
    have hcols : ab.cols = a.cols + b.cols := hab.cols
    have hpart : Fits b.rows (b.cols + c.cols) :=
      fits_of_beside hd hfits hrows.symm (by omega)
    obtain ⟨bc, hbc⟩ := exists_hcat (F := F)
      (hrows.symm.trans (hd.rows_left.symm.trans hd.rows_right)) hpart
    have hbc := hcat_eq_ok_iff.mp hbc
    exact ⟨bc, hbc, hab.assoc_right hd hbc.1, hfits⟩
  · rintro ⟨bc, ⟨hbc, -⟩, hd, hfits⟩
    have hcols : bc.cols = b.cols + c.cols := hbc.cols
    have hpart : Fits a.rows (a.cols + b.cols) := fits_of_beside hd hfits rfl (by omega)
    obtain ⟨ab, hab⟩ := exists_hcat (F := F)
      ((hd.rows_left.symm.trans hd.rows_right).trans hbc.rows_left) hpart
    have hab := hcat_eq_ok_iff.mp hab
    exact ⟨ab, hab, hbc.assoc_left hd hab.1, hfits⟩

theorem vcat_assoc (a b c d : Matrix α) :
    ((a.vcat b : Outcome F (Matrix α)).bind fun ab => ab.vcat c) = .ok d ↔
      ((b.vcat c : Outcome F (Matrix α)).bind fun bc => a.vcat bc) = .ok d := by
  have hsurjective : Function.Surjective (transpose (α := α)) := fun m =>
    ⟨m.transpose, transpose_transpose m⟩
  have hassoc := hcat_assoc (F := F) a.transpose b.transpose c.transpose d.transpose
  rw [bind_eq_ok_iff, bind_eq_ok_iff] at hassoc ⊢
  simp only [vcat_eq_ok_iff_transpose]
  exact hsurjective.exists.symm.trans (hassoc.trans hsurjective.exists)

/-! ### Entries row by row -/

theorem toList_ofFn (rows cols : ℕ) (f : Fin rows → Fin cols → α) :
    (ofFn rows cols f).toList = (places rows cols).map fun p => f p.1 p.2 := by
  rw [← map_finRange_places, List.map_map, ← List.ofFn_eq_map]
  exact Vector.toList_ofFn

theorem toList_eq_map_places (m : Matrix α) :
    m.toList = (places m.rows m.cols).map fun p => m.get p.1 p.2 := by
  rw [← toList_ofFn, ofFn_get]

theorem places_swap_perm (rows cols : ℕ) :
    ((places cols rows).map Prod.swap).Perm (places rows cols) := by
  have hnodup : ∀ m n : ℕ, (places m n).Nodup := fun m n =>
    (List.nodup_finRange m).product (List.nodup_finRange n)
  have hmem : ∀ {m n : ℕ} (p : Fin m × Fin n), p ∈ places m n := fun p =>
    List.mem_product.mpr ⟨List.mem_finRange p.1, List.mem_finRange p.2⟩
  refine (List.perm_ext_iff_of_nodup ((hnodup cols rows).map Prod.swap_injective)
    (hnodup rows cols)).mpr fun p => ⟨fun _ => hmem p, fun _ => ?_⟩
  exact List.mem_map.mpr ⟨p.swap, hmem p.swap, p.swap_swap⟩

theorem toList_transpose_perm (m : Matrix α) : m.transpose.toList.Perm m.toList := by
  have hswap := (places_swap_perm m.rows m.cols).map fun p => m.get p.1 p.2
  rw [List.map_map] at hswap
  rw [m.toList_eq_map_places, transpose, toList_ofFn]
  exact hswap

theorem toList_vcat {a b c : Matrix α} (h : (a.vcat b : Outcome F (Matrix α)) = .ok c) :
    c.toList = a.toList ++ b.toList := by
  have habove := (vcat_eq_ok_iff.mp h).1
  have hupper : c.cols = a.cols := habove.cols_upper
  have hlower : c.cols = b.cols := habove.cols_lower
  refine List.ext_getElem? fun n => ?_
  rw [List.getElem?_append, a.length_toList, c.getElem?_toList_div, a.getElem?_toList_div,
    b.getElem?_toList_div, ← hlower, hupper]
  rcases Nat.lt_or_ge n (a.rows * a.cols) with hn | hn
  · rw [if_pos hn]
    exact habove.upper _ _ ((Nat.div_lt_iff_lt_mul (cols_pos_of_lt hn)).mpr hn)
  · obtain ⟨k, rfl⟩ := Nat.exists_eq_add_of_le hn
    rw [if_neg (Nat.not_lt.mpr hn), Nat.add_sub_cancel_left]
    rcases Nat.eq_zero_or_pos a.cols with hzero | hpos
    · -- Without columns there is no entry on either side.
      have hc : c.grid.cols = 0 := hupper.trans hzero
      have hb : b.grid.cols = 0 := hlower.symm.trans hc
      exact (c.grid.at?_eq_none fun hij => Nat.not_lt_zero _ (hc ▸ hij.2)).trans
        (b.grid.at?_eq_none fun hij => Nat.not_lt_zero _ (hb ▸ hij.2)).symm
    · rw [Nat.mul_add_mod', Nat.mul_comm, Nat.mul_add_div hpos]
      exact habove.lower _ _

theorem toList_hcat_perm {a b c : Matrix α} (h : (a.hcat b : Outcome F (Matrix α)) = .ok c) :
    c.toList.Perm (a.toList ++ b.toList) := by
  have hvcat : (a.transpose.vcat b.transpose : Outcome F (Matrix α)) = .ok c.transpose := by
    rw [vcat_transpose, h]
    rfl
  have hlist : c.transpose.toList = _ := toList_vcat hvcat
  calc
    c.toList.Perm c.transpose.toList := c.toList_transpose_perm.symm
    _ = a.transpose.toList ++ b.transpose.toList := hlist
    _ |>.Perm (a.toList ++ b.toList) := a.toList_transpose_perm.append b.toList_transpose_perm

end Matrix

/-! ### Entries that are variables of a tape -/

namespace Recording

variable {F α β : Type}

/-- Does nothing to any recorder, and its result has the property. -/
def Leaves (Q : α → Prop) (x : Recording F α) : Prop :=
  ∃ o : Outcome F α, (∀ s, x s = (o, s)) ∧ ∀ a, o = .ok a → Q a

theorem leaves_ofOutcome {R : α → α → Prop} {o : Outcome F α} (h : Outcome.Rel R o o) :
    Leaves (fun a => R a a) (ofOutcome o) := by
  refine ⟨o, fun _ => rfl, fun a ha => ?_⟩
  rw [ha] at h
  cases h with
  | ok h => exact h

theorem leaves_pure {Q : α → Prop} {a : α} (h : Q a) : Leaves Q (pure a : Recording F α) :=
  ⟨.ok a, fun _ => rfl, fun _ heq => Except.ok.inj heq ▸ h⟩

theorem Leaves.mono {P Q : α → Prop} {x : Recording F α} (hx : Leaves P x) (h : ∀ a, P a → Q a) :
    Leaves Q x := by
  obtain ⟨o, hrun, hP⟩ := hx
  exact ⟨o, hrun, fun a ha => h a (hP a ha)⟩

theorem Leaves.bind {P : α → Prop} {Q : β → Prop} {x : Recording F α} {f : α → Recording F β}
    (hx : Leaves P x) (hf : ∀ a, P a → Leaves Q (f a)) : Leaves Q (x >>= f) := by
  obtain ⟨o, hrun, hP⟩ := hx
  cases o with
  | error e =>
    refine ⟨.error e, fun s => ?_, fun _ heq => by cases heq⟩
    rw [run_bind, hrun]
  | ok a =>
    obtain ⟨o, hrun', hQ⟩ := hf a (hP a rfl)
    refine ⟨o, fun s => ?_, hQ⟩
    rw [run_bind, hrun]
    exact hrun' s

end Recording

def Slot.entries {S : Type} : Slot S → List S
  | .scalar x => [x]
  | .matrix a => a.toList

theorem Slot.Rel.forall_entries {S : Type} {P : S → Prop} {slot : Slot S}
    (h : Slot.Rel (fun x _ => P x) slot slot) : ∀ x ∈ slot.entries, P x := by
  cases h with
  | scalar h => exact List.forall_mem_singleton.mpr h
  | matrix h => exact forall_left_of_forall₂ h.toList fun _ _ hx => hx

inductive Step.Moves {F : Type} : Step F → Prop where
  | entry (a i j : ℕ) : Moves (.entry a i j)
  | matrix (rows cols : ℕ) (entries : List ℕ) : Moves (.matrix rows cols entries)
  | column (entries : List ℕ) : Moves (.column entries)
  | row (entries : List ℕ) : Moves (.row entries)
  | transpose (a : ℕ) : Moves (.transpose a)
  | hcat (a b : ℕ) : Moves (.hcat a b)
  | vcat (a b : ℕ) : Moves (.vcat a b)

section Moves

open Interpretation (recording)
open Recording (Leaves leaves_ofOutcome leaves_pure)

variable {F : Type} [Arith F] [Functions F]

theorem Step.Moves.run {step : Step F} (hstep : step.Moves) {R : Handle F → Handle F → Prop}
    {slots : Slots (Handle F)} (h : Slots.Rel R slots slots) :
    Leaves (fun slot => Slot.Rel R slot slot) (step.run recording slots) := by
  cases hstep with
  | entry a i j =>
    refine (leaves_ofOutcome (h.matrix a)).bind fun m hm => ?_
    exact (leaves_ofOutcome (hm.entry i j)).bind fun x hx => leaves_pure (.scalar hx)
  | matrix rows cols entries =>
    refine (leaves_ofOutcome (h.scalars entries)).bind fun xs hxs => ?_
    refine (leaves_ofOutcome (Matrix.Pointwise.ofList hxs rows cols)).bind fun m hm => ?_
    exact leaves_pure (.matrix hm)
  | column entries =>
    refine (leaves_ofOutcome (h.scalars entries)).bind fun xs hxs => ?_
    exact leaves_pure (.matrix (.column hxs))
  | row entries =>
    refine (leaves_ofOutcome (h.scalars entries)).bind fun xs hxs => ?_
    exact leaves_pure (.matrix (.row hxs))
  | transpose a =>
    refine (leaves_ofOutcome (h.matrix a)).bind fun m hm => ?_
    exact leaves_pure (.matrix hm.transpose)
  | hcat a b =>
    refine (leaves_ofOutcome (h.matrix a)).bind fun m hm => ?_
    refine (leaves_ofOutcome (h.matrix b)).bind fun m' hm' => ?_
    exact (leaves_ofOutcome (hm.hcat hm')).bind fun c hc => leaves_pure (.matrix hc)
  | vcat a b =>
    refine (leaves_ofOutcome (h.matrix a)).bind fun m hm => ?_
    refine (leaves_ofOutcome (h.matrix b)).bind fun m' hm' => ?_
    exact (leaves_ofOutcome (hm.vcat hm')).bind fun c hc => leaves_pure (.matrix hc)

theorem Program.slots_moves {p : Program F} (hp : ∀ step ∈ p.steps, step.Moves)
    (inputs : List (Handle F)) :
    Leaves (fun slots => ∀ slot ∈ slots, ∀ x ∈ slot.entries, x ∈ inputs)
      (p.slots recording inputs) := by
  let R : Handle F → Handle F → Prop := fun x _ => x ∈ inputs
  let Q : Slots (Handle F) → Prop := fun slots => Slots.Rel R slots slots
  have hsteps : ∀ (steps : List (Step F)) (slots : Slots (Handle F)),
      (∀ step ∈ steps, step.Moves) → Q slots → Leaves Q (steps.foldlM
        (fun slots step => do return slots.push (← step.run recording slots)) slots) := by
    intro steps
    induction steps with
    | nil => exact fun slots _ h => leaves_pure h
    | cons step steps ih =>
      intro slots hall h
      obtain ⟨hstep, hall⟩ := List.forall_mem_cons.mp hall
      rw [List.foldlM_cons]
      refine Leaves.bind (P := Q) ?_ fun slots h => ih slots hall h
      exact (hstep.run h).bind fun slot hslot => leaves_pure (Q := Q) (h.push hslot)
  have hinputs : Q (inputs.map Slot.scalar).toArray := by
    refine List.forall₂_same.mpr fun slot hslot => ?_
    obtain ⟨x, hx, rfl⟩ := List.mem_map.mp hslot
    exact .scalar hx
  refine (hsteps p.steps _ hp hinputs).mono fun slots h slot hslot => ?_
  exact (List.forall₂_same.mp h slot (Array.mem_toList_iff.mpr hslot)).forall_entries

end Moves

/-! ### The laws together -/

structure StorageLaws (F α : Type) : Prop where
  size : ∀ m : Matrix α, m.size = m.rows * m.cols ∧ m.toList.length = m.size
  stored : ∀ (m : Matrix α) i j, i < m.rows → j < m.cols →
    m.toList[i * m.cols + j]? = m.get? i j
  read : ∀ (m : Matrix α) i j x, (m.entry i j : Outcome F α) = .ok x ↔ m.get? i j = some x
  readable : ∀ (m : Matrix α) i j,
    (∃ x, (m.entry i j : Outcome F α) = .ok x) ↔ i < m.rows ∧ j < m.cols
  unreadable : ∀ (m : Matrix α) i j, ¬(i < m.rows ∧ j < m.cols) →
    (m.entry i j : Outcome F α) = .error (.fault .outOfRange)
  written : ∀ (m : Matrix α) i j x,
    (m.set i j x : Outcome F (Matrix α)).toOption.map grid = m.grid.set? i j x
  unwritable : ∀ (m : Matrix α) i j x, ¬(i < m.rows ∧ j < m.cols) →
    (m.set i j x : Outcome F (Matrix α)) = .error (.fault .outOfRange)
  filled : ∀ rows cols xs (m : Matrix α),
    (Matrix.ofList rows cols xs : Outcome F (Matrix α)) = .ok m ↔
      Matrix.Fits rows cols ∧ m.rows = rows ∧ m.cols = cols ∧ m.toList = xs
  unfilled : ∀ rows cols (xs : List α), Matrix.Fits rows cols → xs.length ≠ rows * cols →
    (Matrix.ofList rows cols xs : Outcome F (Matrix α)) =
      .error (.fault (.dataLength xs.length rows cols))
  unfit : ∀ rows cols (xs : List α), ¬ Matrix.Fits rows cols →
    (Matrix.ofList rows cols xs : Outcome F (Matrix α)) = .error (.fault .overflow)

/-- Concatenations of a shape that fits keep every entry once and in its place, and transposition
exchanges them. -/
structure ConcatenationLaws (F α : Type) : Prop where
  hcat : ∀ a b c : Matrix α, (a.hcat b : Outcome F (Matrix α)) = .ok c ↔
    a.grid.Beside b.grid c.grid ∧ Matrix.Fits c.rows c.cols
  hcat_total : ∀ a b : Matrix α, (∃ c, (a.hcat b : Outcome F (Matrix α)) = .ok c) ↔
    a.rows = b.rows ∧ Matrix.Fits a.rows (a.cols + b.cols)
  hcat_error : ∀ a b : Matrix α, a.rows ≠ b.rows → (a.hcat b : Outcome F (Matrix α)) =
    .error (.error (.sizeMismatch "append_col" "rows of A" a.rows "rows of B" b.rows))
  hcat_unfit : ∀ a b : Matrix α, a.rows = b.rows → ¬ Matrix.Fits a.rows (a.cols + b.cols) →
    (a.hcat b : Outcome F (Matrix α)) = .error (.fault .overflow)
  hcat_perm : ∀ a b c : Matrix α, (a.hcat b : Outcome F (Matrix α)) = .ok c →
    c.toList.Perm (a.toList ++ b.toList)
  vcat : ∀ a b c : Matrix α, (a.vcat b : Outcome F (Matrix α)) = .ok c ↔
    a.grid.Above b.grid c.grid ∧ Matrix.Fits c.rows c.cols
  vcat_total : ∀ a b : Matrix α, (∃ c, (a.vcat b : Outcome F (Matrix α)) = .ok c) ↔
    a.cols = b.cols ∧ Matrix.Fits (a.rows + b.rows) a.cols
  vcat_error : ∀ a b : Matrix α, a.cols ≠ b.cols → (a.vcat b : Outcome F (Matrix α)) =
    .error (.error (.sizeMismatch "append_row" "columns of A" a.cols "columns of B" b.cols))
  vcat_unfit : ∀ a b : Matrix α, a.cols = b.cols → ¬ Matrix.Fits (a.rows + b.rows) a.cols →
    (a.vcat b : Outcome F (Matrix α)) = .error (.fault .overflow)
  vcat_list : ∀ a b c : Matrix α, (a.vcat b : Outcome F (Matrix α)) = .ok c →
    c.toList = a.toList ++ b.toList
  transpose_perm : ∀ m : Matrix α, m.transpose.toList.Perm m.toList
  involutive : ∀ m : Matrix α, m.transpose.transpose = m
  transpose_hcat : ∀ a b : Matrix α, (a.transpose.vcat b.transpose : Outcome F (Matrix α)) =
    ((a.hcat b).map Matrix.transpose).mapError
      (Failure.withNames "append_row" "columns of A" "columns of B")
  transpose_vcat : ∀ a b : Matrix α, (a.transpose.hcat b.transpose : Outcome F (Matrix α)) =
    ((a.vcat b).map Matrix.transpose).mapError
      (Failure.withNames "append_col" "rows of A" "rows of B")
  hcat_assoc : ∀ a b c d : Matrix α,
    ((a.hcat b : Outcome F (Matrix α)).bind fun ab => ab.hcat c) = .ok d ↔
      ((b.hcat c : Outcome F (Matrix α)).bind fun bc => a.hcat bc) = .ok d
  vcat_assoc : ∀ a b c d : Matrix α,
    ((a.vcat b : Outcome F (Matrix α)).bind fun ab => ab.vcat c) = .ok d ↔
      ((b.vcat c : Outcome F (Matrix α)).bind fun bc => a.vcat bc) = .ok d

structure StructuralLaws (F : Type) : Prop where
  built : ∀ {α : Type} (c : Construction F α), c.eval.toOption.map grid = c.grid?
  fits : ∀ {α : Type} (c : Construction F α) (m : Matrix α), c.Stored → c.eval = .ok m →
    Matrix.Fits m.rows m.cols
  storage : ∀ α : Type, StorageLaws F α
  concatenation : ∀ α : Type, ConcatenationLaws F α
  mapped : ∀ {α β : Type} (f : α → Outcome F β) (m : Matrix α) (m' : Matrix β),
    m.mapM f = .ok m' → m.Pointwise (fun x y => f x = .ok y) m'
  first_error : ∀ {α β : Type} (f : α → Outcome F β) (m : Matrix α) (e : Failure F),
    m.mapM f = .error e → ∃ i j x, m.get? i j = some x ∧ f x = .error e ∧
      ∀ k l y, k < i ∨ k = i ∧ l < j → m.get? k l = some y → ∃ z, f y = .ok z
  recorder_kept : ∀ [Arith F] [Functions F] (p : Program F), (∀ step ∈ p.steps, step.Moves) →
    ∀ inputs : List (Handle F), Recording.Leaves
      (fun slots => ∀ slot ∈ slots, ∀ x ∈ slot.entries, x ∈ inputs)
      (p.slots Interpretation.recording inputs)

section Laws

variable {F α : Type}

theorem entry_eq_ok_iff (m : Matrix α) (i j : ℕ) (x : α) :
    (m.entry i j : Outcome F α) = .ok x ↔ m.get? i j = some x := by
  unfold Matrix.entry
  cases m.get? i j with
  | none =>
    constructor
    · intro h
      cases h
    · intro h
      cases h
  | some y =>
    rw [Except.ok.injEq, Option.some.injEq]

theorem ofList_of_fits {rows cols : ℕ} (h : Matrix.Fits rows cols) (xs : List α) :
    (Matrix.ofList rows cols xs : Outcome F (Matrix α)) =
      if hlen : xs.length = rows * cols then .ok ⟨rows, cols, ⟨xs.toArray, hlen⟩⟩
      else .error (.fault (.dataLength xs.length rows cols)) := by
  rw [Matrix.ofList, Matrix.requireFits_of_fits h]
  rfl

theorem ofList_of_not_fits {rows cols : ℕ} (h : ¬ Matrix.Fits rows cols) (xs : List α) :
    (Matrix.ofList rows cols xs : Outcome F (Matrix α)) = .error (.fault .overflow) := by
  rw [Matrix.ofList, Matrix.requireFits_of_not_fits h]
  rfl

theorem ofList_eq_ok_iff (rows cols : ℕ) (xs : List α) (m : Matrix α) :
    (Matrix.ofList rows cols xs : Outcome F (Matrix α)) = .ok m ↔
      Matrix.Fits rows cols ∧ m.rows = rows ∧ m.cols = cols ∧ m.toList = xs := by
  by_cases hfits : Matrix.Fits rows cols
  · rw [ofList_of_fits hfits]
    constructor
    · intro h
      by_cases hlen : xs.length = rows * cols
      · rw [dif_pos hlen] at h
        obtain rfl := Except.ok.inj h
        exact ⟨hfits, rfl, rfl, rfl⟩
      · rw [dif_neg hlen] at h
        cases h
    · rintro ⟨-, rfl, rfl, rfl⟩
      exact dif_pos m.length_toList
  · rw [ofList_of_not_fits hfits]
    exact iff_of_false nofun fun h => hfits h.1

theorem storageLaws : StorageLaws F α where
  size m := ⟨m.data.size_toArray, m.length_toList.trans m.data.size_toArray.symm⟩
  stored m i j hi hj := m.getElem?_toList hi hj
  read := entry_eq_ok_iff
  readable m i j := by
    simp only [entry_eq_ok_iff]
    rw [← Option.isSome_iff_exists, m.isSome_get?]
  unreadable m i j h := by
    have hnone : m.get? i j = none := m.grid.at?_eq_none h
    rw [Matrix.entry, hnone]
  written m i j x := m.grid_set i j x
  unwritable m i j x h := if_neg h
  filled := ofList_eq_ok_iff
  unfilled rows cols xs hfits hlen := (ofList_of_fits hfits xs).trans (dif_neg hlen)
  unfit rows cols xs h := ofList_of_not_fits h xs

theorem concatenationLaws : ConcatenationLaws F α where
  hcat a b c := Matrix.hcat_eq_ok_iff
  hcat_total a b := by
    refine ⟨fun ⟨c, hc⟩ => ?_, fun h => Matrix.exists_hcat h.1 h.2⟩
    obtain ⟨hbeside, hfits⟩ := Matrix.hcat_eq_ok_iff.mp hc
    exact ⟨hbeside.rows_left.symm.trans hbeside.rows_right,
      Matrix.fits_of_beside hbeside hfits rfl le_rfl⟩
  hcat_error a b := Matrix.hcat_of_ne
  hcat_unfit a b := Matrix.hcat_of_not_fits
  hcat_perm a b c := Matrix.toList_hcat_perm
  vcat a b c := Matrix.vcat_eq_ok_iff
  vcat_total a b := by
    refine ⟨fun ⟨c, hc⟩ => ?_, fun h => Matrix.exists_vcat h.1 h.2⟩
    obtain ⟨habove, hfits⟩ := Matrix.vcat_eq_ok_iff.mp hc
    exact ⟨habove.cols_upper.symm.trans habove.cols_lower,
      hfits.mono habove.rows.ge habove.cols_upper.ge⟩
  vcat_error a b := Matrix.vcat_of_ne
  vcat_unfit a b := Matrix.vcat_of_not_fits
  vcat_list a b c := Matrix.toList_vcat
  transpose_perm := Matrix.toList_transpose_perm
  involutive := Matrix.transpose_transpose
  transpose_hcat := Matrix.vcat_transpose
  transpose_vcat := Matrix.hcat_transpose
  hcat_assoc := Matrix.hcat_assoc
  vcat_assoc := Matrix.vcat_assoc

theorem Construction.fits {c : Construction F α} (hc : c.Stored) {m : Matrix α}
    (hm : c.eval = .ok m) : Matrix.Fits m.rows m.cols := by
  induction c with
  | ofList rows cols xs =>
    obtain ⟨hfits, rfl, rfl, -⟩ := (ofList_eq_ok_iff rows cols xs m).mp hm
    exact hfits
  | column xs =>
    obtain rfl := Except.ok.inj hm
    exact Matrix.fits_column hc
  | row xs =>
    obtain rfl := Except.ok.inj hm
    exact (Matrix.fits_column hc).symm
  | map f c ih =>
    obtain ⟨a, ha, rfl⟩ := map_eq_ok_iff.mp hm
    exact ih hc ha
  | mapM f c ih =>
    obtain ⟨a, ha, hmap⟩ := bind_eq_ok_iff.mp hm
    have hpointwise := Matrix.mapM_ok hmap
    exact hpointwise.rows_eq ▸ hpointwise.cols_eq ▸ ih hc ha
  | set i j x c ih =>
    obtain ⟨a, ha, hset⟩ := bind_eq_ok_iff.mp hm
    by_cases hij : i < a.rows ∧ j < a.cols
    · obtain rfl := Except.ok.inj ((if_pos hij).symm.trans hset)
      rw [Matrix.rows_poke, Matrix.cols_poke]
      exact ih hc ha
    · cases (if_neg hij).symm.trans hset
  | transpose c ih =>
    obtain ⟨a, ha, rfl⟩ := map_eq_ok_iff.mp hm
    exact (ih hc ha).symm
  | hcat a b iha ihb =>
    obtain ⟨m₁, -, hb⟩ := bind_eq_ok_iff.mp hm
    obtain ⟨m₂, -, hcat⟩ := bind_eq_ok_iff.mp hb
    exact (Matrix.hcat_eq_ok_iff.mp hcat).2
  | vcat a b iha ihb =>
    obtain ⟨m₁, -, hb⟩ := bind_eq_ok_iff.mp hm
    obtain ⟨m₂, -, hcat⟩ := bind_eq_ok_iff.mp hb
    exact (Matrix.vcat_eq_ok_iff.mp hcat).2

end Laws

/-- Structural operations move every entry to its place, as long as the shape of the result fits. -/
theorem structural_laws (F : Type) : StructuralLaws F where
  built := Construction.eval_grid
  fits _ _ hc hm := Construction.fits hc hm
  storage _ := storageLaws
  concatenation _ := concatenationLaws
  mapped _ _ _ := Matrix.mapM_ok
  first_error _ _ _ := Matrix.mapM_error
  recorder_kept _ hp inputs := Program.slots_moves hp inputs

def tall : Matrix ℚ := .zeros (2 ^ 63) 0

/-- Twice that height is no machine word, although the two matrices are equally wide. -/
theorem vcat_overflows :
    (Matrix.ofList (2 ^ 63) 0 [] : Outcome ℚ (Matrix ℚ)) = .ok tall ∧
      (tall.vcat tall : Outcome ℚ (Matrix ℚ)) = .error (.fault .overflow) ∧
      ¬ ∃ c, (tall.vcat tall : Outcome ℚ (Matrix ℚ)) = .ok c := by
  have hoverflow : (tall.vcat tall : Outcome ℚ (Matrix ℚ)) = .error (.fault .overflow) :=
    Matrix.vcat_of_not_fits rfl fun h => absurd h.1 (by decide)
  refine ⟨?_, hoverflow, fun ⟨c, hc⟩ => ?_⟩
  · rw [ofList_eq_ok_iff]
    exact ⟨by decide, rfl, rfl, rfl⟩
  · rw [hoverflow] at hc
    cases hc

end Autodiff
