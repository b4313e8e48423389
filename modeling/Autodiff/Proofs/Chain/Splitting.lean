import Mathlib.Data.Nat.Notation
import Mathlib.Data.Rat.Init
import Autodiff.Chain.Kernels
import Autodiff.Chain.Run

set_option autoImplicit false

namespace Autodiff

variable {F σ W D : Type}

namespace RunConfig

/-- `c₁` and `c₂` are the parts of `c`. The second one starts where the first one ends, and the cut
falls between two rows. Progress settings may differ, as a run reads none of them. -/
structure Parts (c c₁ c₂ : RunConfig) : Prop where
  iterations : c.iterations = c₁.iterations + c₂.iterations
  start : c₁.start = c.start
  resumed : c₂.start = c.start + c₁.iterations
  save : c₁.save = c.save
  save' : c₂.save = c.save
  thin : c₁.thin = c.thin
  thin' : c₂.thin = c.thin
  aligned : c.save = true → c.thin ∣ c₁.iterations

variable {c c₁ c₂ : RunConfig}

theorem Parts.number_left (h : c.Parts c₁ c₂) (m : ℕ) : c₁.number m = c.number m := by
  rw [number, number, h.start]

/-- The second part counts its rounds anew but goes on with the iteration numbers. -/
theorem Parts.number_right (h : c.Parts c₁ c₂) (m : ℕ) :
    c₂.number m = c.number (c₁.iterations + m) := by
  rw [number, number, h.resumed, Nat.add_assoc c.start]

theorem Parts.isKept_left (h : c.Parts c₁ c₂) (m : ℕ) : c₁.isKept m = c.isKept m := by
  rw [isKept, isKept, h.save, h.thin]

theorem Parts.isKept_right (h : c.Parts c₁ c₂) (m : ℕ) :
    c₂.isKept m = c.isKept (c₁.iterations + m) := by
  rw [isKept, isKept, h.save', h.thin']
  cases hsave : c.save with
  | false => rfl
  | true =>
    obtain ⟨q, hq⟩ := h.aligned hsave
    have hmod : (c₁.iterations + m) % c.thin = m % c.thin := by
      rw [hq, Nat.mul_add_mod]
    rw [hmod]

end RunConfig

namespace ChainRun

variable [Sink F W] [Sink F D] {k : Kernel F σ} {c c₁ c₂ : RunConfig}
variable {announce : ℕ → List (Event F)}

theorem round_left (h : c.Parts c₁ c₂) (m : ℕ) :
    (round k c₁ announce m : ChainM F σ W D Unit) = round k c announce m := by
  simp only [round, enter, advance, h.number_left, h.isKept_left]

theorem round_right (h : c.Parts c₁ c₂) (m : ℕ) :
    (round k c₂ announce m : ChainM F σ W D Unit) = round k c announce (c₁.iterations + m) := by
  simp only [round, enter, advance, h.number_right, h.isKept_right]

theorem forM_range_add {n : Type → Type} [Monad n] [LawfulMonad n] (f : ℕ → n PUnit) (a b : ℕ) :
    (List.range (a + b)).forM f =
      ((List.range a).forM f >>= fun _ => (List.range b).forM fun m => f (a + m)) := by
  simp only [List.range_add, List.forM_eq_forM, List.forM_append, List.forM_map]

/-- A run is its first part followed, unless that fails, by its second part from the state, the
kernel and the streams that the first one leaves. -/
theorem rounds_split (h : c.Parts c₁ c₂) (r : ChainRun F σ W D) :
    rounds k c announce r =
      (do rounds k c₁ announce; rounds k c₂ announce : ChainM F σ W D Unit) r := by
  have hleft : (round k c₁ announce : ℕ → ChainM F σ W D Unit) = round k c announce :=
    funext (round_left h)
  have hright : (round k c₂ announce : ℕ → ChainM F σ W D Unit) =
      fun m => round k c announce (c₁.iterations + m) := funext (round_right h)
  refine congrFun ?_ r
  unfold rounds
  rw [h.save, h.save', h.thin, h.thin', hleft, hright]
  -- Thinning by zero stops the whole run and its first part alike.
  split
  · rfl
  · rw [h.iterations, forM_range_add]

def everySecond : RunConfig := { RunConfig.fromOne 5 with thin := 2 }

def firstTwo : RunConfig := { everySecond with iterations := 2 }

def lastThree : RunConfig := { everySecond with iterations := 3, start := 2 }

def faltering : ChainRun ℚ (Scripted ℚ) (Table ℚ) (Table ℚ) where
  kernel := { script := [.add [1], .add [2], .exhausted 7] }
  streams := .ofSinks {} {}
  state := ⟨[0], 0, 0⟩

theorem rounds_split_faltering :
    everySecond.Parts firstTwo lastThree ∧
      rounds .scripted everySecond (fun _ => []) faltering =
        (do rounds .scripted firstTwo fun _ => []; rounds .scripted lastThree fun _ => [] :
          ChainM ℚ (Scripted ℚ) (Table ℚ) (Table ℚ) Unit) faltering := by
  have hparts : everySecond.Parts firstTwo lastThree :=
    ⟨rfl, rfl, rfl, rfl, rfl, rfl, rfl, fun _ => Nat.dvd_refl 2⟩
  exact ⟨hparts, rounds_split hparts faltering⟩

end ChainRun

end Autodiff
