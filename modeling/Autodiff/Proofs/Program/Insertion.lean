import Mathlib.Order.WellFounded
import Autodiff.Program.Basic
import Autodiff.Proofs.Program.Simulation

set_option autoImplicit false

namespace Autodiff

variable {F S T : Type}

def Step.rename (ρ : ℕ → ℕ) : Step F → Step F
  | .const c => .const c
  | .zero => .zero
  | .value i => .value (ρ i)
  | .add i j => .add (ρ i) (ρ j)
  | .sub i j => .sub (ρ i) (ρ j)
  | .mul i j => .mul (ρ i) (ρ j)
  | .div i j => .div (ρ i) (ρ j)
  | .neg i => .neg (ρ i)
  | .larger i j => .larger (ρ i) (ρ j)
  | .apply p args => .apply p (args.map ρ)
  | .applyJoint op a => .applyJoint op (ρ a)
  | .entry a i j => .entry (ρ a) i j
  | .sumSquares a => .sumSquares (ρ a)
  | .sum a => .sum (ρ a)
  | .matrix rows cols entries => .matrix rows cols (entries.map ρ)
  | .constMatrix rows cols entries => .constMatrix rows cols entries
  | .column entries => .column (entries.map ρ)
  | .row entries => .row (entries.map ρ)
  | .identity n => .identity n
  | .zeros rows cols => .zeros rows cols
  | .values a => .values (ρ a)
  | .transpose a => .transpose (ρ a)
  | .multiply a b => .multiply (ρ a) (ρ b)
  | .hcat a b => .hcat (ρ a) (ρ b)
  | .vcat a b => .vcat (ρ a) (ρ b)
  | .entrywise p a => .entrywise p (ρ a)

/-- The second list of steps is the first one, renamed by `ρ`, with dead steps in between. The next
slots are `k` and `k'`; a slot that `ρ` does not reach belongs to a dead step. -/
inductive Inserted (ρ : ℕ → ℕ) : ℕ → ℕ → List (Step F) → List (Step F) → Prop where
  | nil {k k' : ℕ} (h : k' ≤ ρ k) : Inserted ρ k k' [] []
  | dead {k k' : ℕ} {steps steps' : List (Step F)} (d : Step F)
      (h : Inserted ρ k (k' + 1) steps steps') : Inserted ρ k k' steps (d :: steps')
  | kept {k k' : ℕ} {steps steps' : List (Step F)} (s : Step F) (hk : ρ k = k')
      (h : Inserted ρ (k + 1) (k' + 1) steps steps') :
      Inserted ρ k k' (s :: steps) (s.rename ρ :: steps')

theorem Inserted.le {ρ : ℕ → ℕ} {k k' : ℕ} {steps steps' : List (Step F)}
    (h : Inserted ρ k k' steps steps') : k' ≤ ρ k := by
  induction h with
  | nil h => exact h
  | dead d h ih => exact Nat.le_of_succ_le ih
  | kept s hk h ih => exact Nat.le_of_eq hk.symm

def Program.outputSlots (p : Program F) (n : ℕ) : List ℕ :=
  p.outputs.getD [n + p.steps.length - 1]

/-- `p'` is `p` with dead code, for `n` inputs. Slot `i` of `p` is slot `ρ i` of `p'`. -/
structure DeadCode (ρ : ℕ → ℕ) (n : ℕ) (p p' : Program F) : Prop where
  mono : StrictMono ρ
  inputs : ∀ i, i < n → ρ i = i
  steps : Inserted ρ n n p.steps p'.steps
  outputs : p'.outputSlots n = (p.outputSlots n).map ρ

namespace Slots

variable {ρ : ℕ → ℕ} {slots slots' : Slots S}

def Selects (ρ : ℕ → ℕ) (slots slots' : Slots S) : Prop := ∀ i, slots'[ρ i]? = slots[i]?

namespace Selects

theorem scalar (h : Selects ρ slots slots') (i : ℕ) :
    (slots'.scalar (ρ i) : Outcome F S) = slots.scalar i := by
  rw [Slots.scalar, Slots.scalar, h i]

theorem scalars (h : Selects ρ slots slots') (is : List ℕ) :
    (slots'.scalars (is.map ρ) : Outcome F (List S)) = slots.scalars is := by
  rw [Slots.scalars, List.mapM_map]
  exact congrArg (is.mapM ·) (funext h.scalar)

theorem matrix (h : Selects ρ slots slots') (i : ℕ) :
    (slots'.matrix (ρ i) : Outcome F (Matrix S)) = slots.matrix i := by
  rw [Slots.matrix, Slots.matrix, h i]

theorem outputs (h : Selects ρ slots slots') (is : List ℕ) :
    ((is.map ρ).mapM slots'.flatten : Outcome F (List (List S))) = is.mapM slots.flatten := by
  rw [List.mapM_map]
  refine congrArg (is.mapM ·) (funext fun i => ?_)
  rw [Function.comp_apply, Slots.flatten, Slots.flatten, h i]

theorem run {m : Type → Type} [Monad m] [Arith F] (I : Interpretation F S m)
    (h : Selects ρ slots slots') (s : Step F) : (s.rename ρ).run I slots' = s.run I slots := by
  cases s <;> simp only [Step.rename, Step.run, Step.run.binary, Step.run.joint, h.scalar,
    h.scalars, h.matrix]

theorem inputs {n : ℕ} (hρ : StrictMono ρ) (hinputs : ∀ i, i < n → ρ i = i)
    (hsize : slots.size = n) : Selects ρ slots slots := by
  intro i
  by_cases hi : i < n
  · rw [hinputs i hi]
  · have hle : i ≤ ρ i := hρ.le_apply
    rw [Array.getElem?_eq_none (by omega), Array.getElem?_eq_none (by omega)]

theorem push_right (h : Selects ρ slots slots') (hρ : StrictMono ρ)
    (hlt : slots'.size < ρ slots.size) (y : Slot S) : Selects ρ slots (slots'.push y) := by
  intro i
  have hne : ρ i ≠ slots'.size := by
    by_cases hi : i < slots.size
    · have hsome : slots'[ρ i]? = some slots[i] := (h i).trans (Array.getElem?_eq_getElem hi)
      exact Nat.ne_of_lt (Array.getElem?_eq_some_iff.mp hsome).1
    · have hle : ρ slots.size ≤ ρ i := hρ.monotone (Nat.le_of_not_lt hi)
      omega
  rw [Array.getElem?_push, if_neg hne, h i]

theorem push (h : Selects ρ slots slots') (hρ : StrictMono ρ) (heq : ρ slots.size = slots'.size)
    (y : Slot S) : Selects ρ (slots.push y) (slots'.push y) := by
  intro i
  have hiff : ρ i = slots'.size ↔ i = slots.size := by
    rw [← heq]
    exact hρ.injective.eq_iff
  rw [Array.getElem?_push, Array.getElem?_push, h i]
  simp only [hiff]

end Selects

end Slots

end Autodiff
