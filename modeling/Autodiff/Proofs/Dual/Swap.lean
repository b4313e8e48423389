import Mathlib
import Autodiff.Proofs.Dual.Ring

/-!
# Mixed second derivatives commute

At depth two the outer and the inner tangent are two directions of differentiation. Exchanging them
in the inputs exchanges them in the result of every operation except powers with a dual exponent,
whatever the functions of the plain numbers are. What carries this for a function of one number is
that its derivative is itself lifted from plain numbers: as a dual number its tangent is some second
derivative, which depends on the innermost value alone, times the tangent.
-/

set_option autoImplicit false

namespace Autodiff

namespace Dual

section Unary

attribute [local instance] RingLaws.commRing

variable {A : Type} [Arith A] [Functions A] [RingLaws A]

theorem unary_eq (f : UnaryFn) (x : Dual A) :
    Functions.unary f x =
      ⟨Functions.unary f x.value,
        f.derivative x.value (Functions.unary f x.value) * x.tangent⟩ := by
  cases f with
  | sign | floor | ceil | round | trunc => exact Dual.ext rfl (zero_mul x.tangent).symm
  | toDegrees | toRadians => exact Dual.ext rfl (mul_comm _ _)
  | _ => rfl

end Unary

/-- The tangent of `g` is a derivative, found from the value alone, times the tangent. -/
def Lifts {F : Type} [Mul F] (g : Dual F → Dual F) (v : F → F) : Prop :=
  ∃ d : F → F, ∀ x, g x = ⟨v x.value, d x.value * x.tangent⟩

variable {F : Type} [Field F]

namespace Lifts

variable {g h : Dual F → Dual F} {v w : F → F}

theorem self : Lifts (fun x : Dual F => x) fun a => a :=
  ⟨fun _ => 1, fun x => Dual.ext rfl (one_mul x.tangent).symm⟩

theorem const (c : F) : Lifts (fun _ => constant c) fun _ => c :=
  ⟨fun _ => 0, fun x => Dual.ext rfl (zero_mul x.tangent).symm⟩

theorem add (hg : Lifts g v) (hh : Lifts h w) :
    Lifts (fun x => g x + h x) fun a => v a + w a := by
  obtain ⟨d, hd⟩ := hg
  obtain ⟨e, he⟩ := hh
  refine ⟨fun a => d a + e a, fun x => ?_⟩
  simp only [hd, he]
  exact Dual.ext rfl (add_mul _ _ _).symm

theorem sub (hg : Lifts g v) (hh : Lifts h w) :
    Lifts (fun x => g x - h x) fun a => v a - w a := by
  obtain ⟨d, hd⟩ := hg
  obtain ⟨e, he⟩ := hh
  refine ⟨fun a => d a - e a, fun x => ?_⟩
  simp only [hd, he]
  exact Dual.ext rfl (sub_mul _ _ _).symm

theorem mul (hg : Lifts g v) (hh : Lifts h w) :
    Lifts (fun x => g x * h x) fun a => v a * w a := by
  obtain ⟨d, hd⟩ := hg
  obtain ⟨e, he⟩ := hh
  refine ⟨fun a => d a * w a + v a * e a, fun x => ?_⟩
  simp only [hd, he]
  refine Dual.ext rfl ?_
  simp only [tangent_mul]
  ring

theorem neg (hg : Lifts g v) : Lifts (fun x => -g x) fun a => -v a := by
  obtain ⟨d, hd⟩ := hg
  refine ⟨fun a => -d a, fun x => ?_⟩
  simp only [hd]
  exact Dual.ext rfl (neg_mul _ _).symm

variable [Functions F]

theorem unary (f : UnaryFn) (hg : Lifts g v) :
    Lifts (fun x => Functions.unary f (g x)) fun a => Functions.unary f (v a) := by
  obtain ⟨d, hd⟩ := hg
  refine ⟨fun a => f.derivative (v a) (Functions.unary f (v a)) * d a, fun x => ?_⟩
  simp only [hd, unary_eq]
  exact Dual.ext rfl (mul_assoc _ _ _).symm

theorem reciprocal (hg : Lifts g v) :
    Lifts (fun x => Functions.unary .reciprocal (g x)) fun a => Functions.unary .reciprocal (v a) :=
  hg.unary .reciprocal

theorem sqrt (hg : Lifts g v) :
    Lifts (fun x => Functions.unary .sqrt (g x)) fun a => Functions.unary .sqrt (v a) :=
  hg.unary .sqrt

theorem powInt (n : ℤ) :
    Lifts (fun x : Dual F => Functions.powInt x n) fun a => Functions.powInt a n :=
  ⟨fun a => if n = 0 then 0 else n * Functions.powInt a (n - 1), fun _ => rfl⟩

theorem powInt_derivative (n : ℤ) :
    Lifts (fun x : Dual F => if n = 0 then 0 else (n : Dual F) * Functions.powInt x (n - 1))
      fun a => if n = 0 then 0 else (n : F) * Functions.powInt a (n - 1) := by
  by_cases hn : n = 0
  · simp only [if_pos hn]
    exact const 0
  · simp only [if_neg hn]
    exact (const (n : F)).mul (powInt (n - 1))

theorem derivative (f : UnaryFn) :
    Lifts (fun x : Dual F => f.derivative x (Functions.unary f x))
      fun a => f.derivative a (Functions.unary f a) := by
  cases f with
  | exp => exact self.unary .exp
  | exp2 => exact (self.unary .exp2).mul (const _)
  | expm1 => exact (self.unary .expm1).add (const 1)
  | ln => exact self.reciprocal
  | ln1p => exact (self.add (const 1)).reciprocal
  | log2 | log10 => exact (self.mul (const _)).reciprocal
  | sqrt => exact ((self.unary .sqrt).add (self.unary .sqrt)).reciprocal
  | cbrt =>
    exact (((self.unary .cbrt).mul (self.unary .cbrt)).mul (const ((3 : ℤ) : F))).reciprocal
  | reciprocal => exact self.reciprocal.neg.mul self.reciprocal
  | sin => exact self.unary .cos
  | cos => exact (self.unary .sin).neg
  | tan => exact (const 1).add ((self.unary .tan).mul (self.unary .tan))
  | asin => exact ((const 1).sub (self.mul self)).sqrt.reciprocal
  | acos => exact ((const 1).sub (self.mul self)).sqrt.reciprocal.neg
  | atan => exact ((const 1).add (self.mul self)).reciprocal
  | sinh => exact self.unary .cosh
  | cosh => exact self.unary .sinh
  | tanh => exact (const 1).sub ((self.unary .tanh).mul (self.unary .tanh))
  | asinh => exact ((self.mul self).add (const 1)).sqrt.reciprocal
  | acosh => exact ((self.mul self).sub (const 1)).sqrt.reciprocal
  | atanh => exact ((const 1).sub (self.mul self)).reciprocal
  | abs =>
    refine ⟨fun _ => 0, fun x => ?_⟩
    change (if Functions.eq x.value 0 then (0 : Dual F) else Functions.unary .sign x) =
      ⟨if Functions.eq x.value 0 then 0 else Functions.unary .sign x.value, 0 * x.tangent⟩
    split <;> exact Dual.ext rfl (zero_mul x.tangent).symm
  | fraction => exact const 1
  | toDegrees => exact (const 1).unary .toDegrees
  | toRadians => exact (const 1).unary .toRadians
  | sign | floor | ceil | round | trunc => exact const 0

end Lifts

def swap {F : Type} (x : Dual (Dual F)) : Dual (Dual F) :=
  ⟨⟨x.value.value, x.tangent.value⟩, ⟨x.value.tangent, x.tangent.tangent⟩⟩

theorem swap_add (x y : Dual (Dual F)) : swap (x + y) = swap x + swap y := rfl

theorem swap_sub (x y : Dual (Dual F)) : swap (x - y) = swap x - swap y := rfl

theorem swap_neg (x : Dual (Dual F)) : swap (-x) = -swap x := rfl

theorem swap_mul (x y : Dual (Dual F)) : swap (x * y) = swap x * swap y := by
  refine Dual.ext rfl (Dual.ext rfl ?_)
  simp only [swap, tangent_mul, tangent_add, value_mul]
  ring

theorem swap_div (x y : Dual (Dual F)) : swap (x / y) = swap x / swap y := by
  refine Dual.ext rfl (Dual.ext rfl ?_)
  simp only [swap, tangent_mul, tangent_sub, tangent_div, value_mul, value_sub, value_div]
  ring

/-- A function of one number commutes with the exchange if its derivative is lifted. -/
theorem swap_of_lifts {g : Dual (Dual F) → Dual (Dual F)} {k c : Dual F → Dual F} {v d : F → F}
    (hg : ∀ x, g x = ⟨k x.value, c x.value * x.tangent⟩)
    (hk : ∀ x, k x = ⟨v x.value, d x.value * x.tangent⟩) (hd : Lifts c d)
    (x : Dual (Dual F)) : swap (g x) = g (swap x) := by
  obtain ⟨e, he⟩ := hd
  simp only [hg, hk, he]
  refine Dual.ext rfl (Dual.ext rfl ?_)
  simp only [swap, tangent_mul]
  ring

variable [Functions F]

theorem swap_unary (f : UnaryFn) (x : Dual (Dual F)) :
    swap (Functions.unary f x) = Functions.unary f (swap x) :=
  swap_of_lifts (unary_eq f) (unary_eq f) (.derivative f) x

theorem swap_powInt (n : ℤ) (x : Dual (Dual F)) :
    swap (Functions.powInt x n) = Functions.powInt (swap x) n :=
  swap_of_lifts (g := (Functions.powInt · n)) (k := (Functions.powInt · n))
    (v := (Functions.powInt · n)) (fun _ => rfl) (fun _ => rfl) (.powInt_derivative n) x

theorem swap_mulAdd (x y z : Dual (Dual F)) :
    swap (Functions.mulAdd x y z) = Functions.mulAdd (swap x) (swap y) (swap z) := by
  refine Dual.ext rfl (Dual.ext rfl ?_)
  change x.tangent.tangent * y.value.value + x.tangent.value * y.value.tangent +
      (x.value.tangent * y.tangent.value + x.value.value * y.tangent.tangent) +
      z.tangent.tangent =
    x.tangent.tangent * y.value.value + x.value.tangent * y.tangent.value +
      (x.tangent.value * y.value.tangent + x.value.value * y.tangent.tangent) + z.tangent.tangent
  ring

theorem swap_rem (x y : Dual (Dual F)) : swap (rem x y) = rem (swap x) (swap y) := by
  refine Dual.ext rfl (Dual.ext rfl ?_)
  -- The truncated quotient is a constant.
  change x.tangent.tangent - (0 * y.tangent.value + _ * y.tangent.tangent) =
    x.tangent.tangent - (0 * y.value.tangent + _ * y.tangent.tangent)
  rw [zero_mul, zero_mul]
  rfl

theorem swap_hypot (x y : Dual (Dual F)) : swap (hypot x y) = hypot (swap x) (swap y) := by
  refine Dual.ext rfl (Dual.ext rfl ?_)
  change ((x.value * x.tangent + y.value * y.tangent) / hypot x.value y.value).tangent =
    ((x.swap.value * x.swap.tangent + y.swap.value * y.swap.tangent) /
      hypot x.swap.value y.swap.value).tangent
  simp only [swap, hypot, tangent_div, tangent_add, tangent_mul, value_add, value_mul]
  ring

theorem swap_atan2 (y x : Dual (Dual F)) : swap (atan2 y x) = atan2 (swap y) (swap x) := by
  refine Dual.ext rfl (Dual.ext rfl ?_)
  change ((x.value * y.tangent - y.value * x.tangent) /
      (y.value * y.value + x.value * x.value)).tangent =
    ((x.swap.value * y.swap.tangent - y.swap.value * x.swap.tangent) /
      (y.swap.value * y.swap.value + x.swap.value * x.swap.value)).tangent
  simp only [swap, tangent_div, tangent_add, tangent_sub, tangent_mul, value_add, value_sub,
    value_mul]
  -- The two mixed terms differ by a multiple of the squared distance `r`.
  by_cases hr : y.value.value * y.value.value + x.value.value * x.value.value = 0
  · rw [hr, div_zero, div_zero]
  · generalize hdef : y.value.value * y.value.value + x.value.value * x.value.value = r at hr ⊢
    field_simp
    subst hdef
    ring

theorem swap_max (x y : Dual (Dual F)) : swap (max x y) = max (swap x) (swap y) :=
  apply_ite swap _ _ _

theorem swap_min (x y : Dual (Dual F)) : swap (min x y) = min (swap x) (swap y) :=
  apply_ite swap _ _ _

theorem swap_excess (x y : Dual (Dual F)) : swap (excess x y) = excess (swap x) (swap y) :=
  apply_ite swap _ _ _

theorem swap_binary {f : BinaryFn} (hf : f ≠ .pow) (x y : Dual (Dual F)) :
    swap (Functions.binary f x y) = Functions.binary f (swap x) (swap y) := by
  cases f with
  | rem => exact swap_rem x y
  | pow => exact absurd rfl hf
  | log => exact (swap_div _ _).trans (congrArg₂ (· / ·) (swap_unary .ln x) (swap_unary .ln y))
  | atan2 => exact swap_atan2 x y
  | hypot => exact swap_hypot x y
  | max => exact swap_max x y
  | min => exact swap_min x y
  | excess => exact swap_excess x y

end Dual

/-- Expressions in `n` inputs over all operations on numbers except powers whose exponent is a
number of the same kind. -/
inductive Expression (F : Type) (n : ℕ) where
  | input (i : Fin n)
  | plain (c : F)
  | named (c : Constant)
  | integer (m : ℤ)
  | add (a b : Expression F n)
  | sub (a b : Expression F n)
  | mul (a b : Expression F n)
  | div (a b : Expression F n)
  | neg (a : Expression F n)
  | unary (f : UnaryFn) (a : Expression F n)
  | binary (f : BinaryFn) (hf : f ≠ .pow) (a b : Expression F n)
  | powInt (a : Expression F n) (m : ℤ)
  | mulAdd (a b c : Expression F n)

def Expression.eval {F : Type} [Arith F] [Functions F] {n : ℕ} (x : Fin n → Dual (Dual F)) :
    Expression F n → Except Fault (Dual (Dual F))
  | input i => return x i
  | plain c => return .constant (.constant c)
  | named c => return Functions.constant c
  | integer m => return (m : Dual (Dual F))
  | add a b => return (← a.eval x) + (← b.eval x)
  | sub a b => return (← a.eval x) - (← b.eval x)
  | mul a b => return (← a.eval x) * (← b.eval x)
  | div a b => return (← a.eval x) / (← b.eval x)
  | neg a => return -(← a.eval x)
  | unary f a => return Functions.unary f (← a.eval x)
  | binary f _ a b => return Functions.binary f (← a.eval x) (← b.eval x)
  | powInt a m => do Nested.powInt (k := 2) (← a.eval x) m
  | mulAdd a b c => return Functions.mulAdd (← a.eval x) (← b.eval x) (← c.eval x)

section Lift

variable {F : Type} (r s : Except Fault (Dual (Dual F)))

theorem map_swap_bind {f g : Dual (Dual F) → Except Fault (Dual (Dual F))}
    (h : ∀ u, (f u).map Dual.swap = g u.swap) :
    (r >>= f).map Dual.swap = r.map Dual.swap >>= g := by
  cases r with
  | error cause => rfl
  | ok u => exact h u

theorem map_swap_lift {f g : Dual (Dual F) → Dual (Dual F)} (h : ∀ u, (f u).swap = g u.swap) :
    (do return f (← r)).map Dual.swap = (do return g (← r.map Dual.swap)) :=
  map_swap_bind r fun u => congrArg Except.ok (h u)

theorem map_swap_lift₂ {f g : Dual (Dual F) → Dual (Dual F) → Dual (Dual F)}
    (h : ∀ u v, (f u v).swap = g u.swap v.swap) :
    (do return f (← r) (← s)).map Dual.swap =
      (do return g (← r.map Dual.swap) (← s.map Dual.swap)) :=
  map_swap_bind r fun u => map_swap_lift s (h u)

end Lift

variable {F : Type} [Field F] [Functions F]

theorem map_swap_powInt (x : Dual (Dual F)) (n : ℤ) :
    (Nested.powInt (k := 2) x n).map Dual.swap = Nested.powInt (k := 2) x.swap n := by
  unfold Nested.powInt
  by_cases hfits : Nested.exponentFits 2 n = true
  · rw [if_pos hfits, if_pos hfits]
    exact congrArg Except.ok (Dual.swap_powInt n x)
  · rw [if_neg hfits, if_neg hfits]
    rfl

theorem Expression.eval_swap {n : ℕ} (x : Fin n → Dual (Dual F)) (e : Expression F n) :
    e.eval (fun i => (x i).swap) = (e.eval x).map Dual.swap := by
  induction e with
  | input i => rfl
  | plain c => rfl
  | named c => rfl
  | integer m => rfl
  | add a b iha ihb =>
    rw [eval, iha, ihb]
    exact (map_swap_lift₂ _ _ Dual.swap_add).symm
  | sub a b iha ihb =>
    rw [eval, iha, ihb]
    exact (map_swap_lift₂ _ _ Dual.swap_sub).symm
  | mul a b iha ihb =>
    rw [eval, iha, ihb]
    exact (map_swap_lift₂ _ _ Dual.swap_mul).symm
  | div a b iha ihb =>
    rw [eval, iha, ihb]
    exact (map_swap_lift₂ _ _ Dual.swap_div).symm
  | neg a iha =>
    rw [eval, iha]
    exact (map_swap_lift _ Dual.swap_neg).symm
  | unary f a iha =>
    rw [eval, iha]
    exact (map_swap_lift _ (Dual.swap_unary f)).symm
  | binary f hf a b iha ihb =>
    rw [eval, iha, ihb]
    exact (map_swap_lift₂ _ _ (Dual.swap_binary hf)).symm
  | powInt a m iha =>
    rw [eval, iha]
    exact (map_swap_bind _ (map_swap_powInt · m)).symm
  | mulAdd a b c iha ihb ihc =>
    rw [eval, iha, ihb, ihc]
    exact (map_swap_bind _ fun u => map_swap_lift₂ _ _ (Dual.swap_mulAdd u)).symm

/-- Mixed second derivatives commute: exchanged inputs give exchanged results, also of the sine and
cosine taken together. -/
theorem mixed_derivatives_commute :
    (∀ (n : ℕ) (x : Fin n → Dual (Dual F)) (e : Expression F n),
      e.eval (fun i => (x i).swap) = (e.eval x).map Dual.swap) ∧
      ∀ x : Dual (Dual F), Functions.sinCos x.swap =
        ((Functions.sinCos x).1.swap, (Functions.sinCos x).2.swap) :=
  ⟨fun _ x e => e.eval_swap x,
    fun x => Prod.ext (Dual.swap_unary .sin x).symm (Dual.swap_unary .cos x).symm⟩

end Autodiff
