import Mathlib
import Autodiff.Proofs.Dual.Taylor
import Autodiff.Proofs.Number.Moving

set_option autoImplicit false

namespace Autodiff

open Functions (unary binary)

variable {K : Type} [Field K]

namespace Dual

def lift (D : Derivation ℤ K K) (x : K) : Dual K := ⟨x, D x⟩

variable (D : Derivation ℤ K K)

@[simp]
theorem tangent_lift (x : K) : (lift D x).tangent = D x := rfl

theorem lift_constant {c : K} (h : D c = 0) : lift D c = constant c := Dual.ext rfl h

theorem lift_neg (x : K) : -lift D x = lift D (-x) := Dual.ext rfl (D.map_neg x).symm

theorem lift_add (x y : K) : lift D x + lift D y = lift D (x + y) :=
  Dual.ext rfl (D.map_add x y).symm

theorem lift_sub (x y : K) : lift D x - lift D y = lift D (x - y) :=
  Dual.ext rfl (D.map_sub x y).symm

theorem lift_mul (x y : K) : lift D x * lift D y = lift D (x * y) := by
  refine Dual.ext rfl ?_
  change D x * y + x * D y = D (x * y)
  rw [D.leibniz, smul_eq_mul, smul_eq_mul]
  ring

theorem lift_div (x : K) {y : K} (h : y ≠ 0) : lift D x / lift D y = lift D (x / y) := by
  refine Dual.ext rfl ?_
  change (D x - x / y * D y) / y = D (x / y)
  rw [D.leibniz_div]
  simp only [smul_eq_mul]
  field_simp

variable {D}

theorem lift_addPlain (x : K) {c : K} (h : D c = 0) : (lift D x).addPlain c = lift D (x + c) := by
  rw [← lift_add, lift_constant D h]
  exact Dual.ext rfl (add_zero (D x)).symm

theorem lift_subPlain (x : K) {c : K} (h : D c = 0) : (lift D x).subPlain c = lift D (x - c) := by
  rw [← lift_sub, lift_constant D h]
  exact Dual.ext rfl (sub_zero (D x)).symm

theorem lift_mulPlain (x : K) {c : K} (h : D c = 0) : (lift D x).mulPlain c = lift D (x * c) := by
  rw [← lift_mul, lift_constant D h]
  refine Dual.ext rfl ?_
  change D x * c = D x * c + x * 0
  ring

theorem lift_divPlain (x : K) {c : K} (h : D c = 0) (hc : c ≠ 0) :
    (lift D x).divPlain c = lift D (x / c) := by
  rw [← lift_div D x hc, lift_constant D h]
  refine Dual.ext rfl ?_
  change D x / c = (D x - x / c * 0) / c
  ring

theorem lift_plainSub {c : K} (h : D c = 0) (x : K) : plainSub c (lift D x) = lift D (c - x) := by
  rw [← lift_sub, lift_constant D h]
  exact Dual.ext rfl (zero_sub (D x)).symm

theorem lift_plainDiv {c : K} (h : D c = 0) {x : K} (hx : x ≠ 0) :
    plainDiv c (lift D x) = lift D (c / x) := by
  rw [← lift_div D c hx, lift_constant D h]
  refine Dual.ext rfl ?_
  change -(c / x) * D x / x = (0 - c / x * D x) / x
  ring

section Powers

variable [Functions K] [ExactPowers K]

theorem lift_mulAdd (x y z : K) :
    mulAdd (lift D x) (lift D y) (lift D z) = lift D (Functions.mulAdd x y z) := by
  have hfused : lift D (Functions.mulAdd x y z) = lift D x * lift D y + lift D z := by
    rw [ExactPowers.mulAdd, lift_mul, lift_add]
  rw [hfused]
  exact Dual.ext (ExactPowers.mulAdd x y z) rfl

theorem lift_powInt {x : K} {n : ℤ} (h : x ≠ 0 ∨ 0 ≤ n) :
    powInt (lift D x) n = lift D (Functions.powInt x n) := by
  refine Dual.ext rfl ?_
  rw [tangent_lift, ExactPowers.powInt x n h, D.leibniz_zpow]
  by_cases hn : n = 0
  · subst hn
    change (if (0 : ℤ) = 0 then 0 else _) * D x = _
    rw [if_pos rfl, zero_mul, zero_smul]
  · change (if n = 0 then 0 else (n : K) * Functions.powInt x (n - 1)) * D x = _
    rw [if_neg hn, ExactPowers.powInt x (n - 1) (h.imp_right fun h => by omega)]
    simp only [zsmul_eq_mul, smul_eq_mul]
    ring

/-- At the least exponent the one of the derivative is out of range. -/
theorem powInt_lift_eq_ok_iff {x : K} {n : ℤ} (hlow : Int32.minValue.toInt ≤ n)
    (hhigh : n ≤ Int32.maxValue.toInt) (h : x ≠ 0 ∨ 0 ≤ n) :
    Nested.powInt (k := 1) (lift D x : Dual K) n =
        .ok (lift D (Functions.powInt x n) : Dual K) ↔
      n ≠ Int32.minValue.toInt := by
  have hfits : Nested.exponentFits 1 n = true ↔ n ≠ Int32.minValue.toInt := by
    have hmin : Int32.minValue.toInt = -2 ^ 31 := rfl
    have hmax : Int32.maxValue.toInt = 2 ^ 31 - 1 := rfl
    rw [Nested.exponentFits_iff]
    omega
  have hpower : Functions.powInt (lift D x) n = lift D (Functions.powInt x n) := lift_powInt h
  by_cases hn : n = Int32.minValue.toInt
  · have hover : Nested.powInt (k := 1) (lift D x : Dual K) n = .error .overflow :=
      if_neg fun hok => hfits.mp hok hn
    rw [hover]
    exact iff_of_false nofun fun hne => hne hn
  · refine iff_of_true ?_ hn
    exact (if_pos (hfits.mpr hn)).trans (congrArg Except.ok hpower)

end Powers

end Dual

variable [LinearOrder K] [IsStrictOrderedRing K] [Functions K] [Identities K]

theorem cosh_ne_zero (x : K) : unary .cosh x ≠ 0 := by
  intro h
  have hone := Identities.cosh_sinh x
  rw [h] at hone
  have hsq : 0 ≤ unary .sinh x ^ 2 := sq_nonneg _
  linarith

variable [ExactOrderedField K]

theorem derivative_eq_slope {f : UnaryFn} {x : K} (h : f.Regular x) :
    f.derivative x (unary f x) = f.slope x := by
  have hrec : ∀ y : K, unary .reciprocal y = 1 / y := fun y =>
    (ExactField.reciprocal y).trans (one_div y).symm
  cases f with
  | exp | sin | cos | sinh | cosh | sign | fraction | floor | ceil | round | trunc => rfl
  | exp2 => exact mul_comm _ _
  | expm1 =>
    change unary .expm1 x + 1 = unary .exp x
    rw [Identities.expm1]
    ring
  | ln => exact hrec x
  | log2 | log10 => exact hrec _
  | ln1p => exact (hrec _).trans (by rw [add_comm]; rfl)
  | sqrt => exact (hrec _).trans (by rw [← two_mul]; rfl)
  | cbrt =>
    refine (hrec _).trans (congrArg (1 / ·) ?_)
    push_cast
    ring
  | reciprocal =>
    change -unary .reciprocal x * unary .reciprocal x = -1 / x ^ 2
    rw [hrec]
    ring
  | tan =>
    have hcos : unary .cos x ≠ 0 := h
    change 1 + unary .tan x * unary .tan x = 1 / unary .cos x ^ 2
    rw [Identities.tan]
    field_simp
    linear_combination Identities.sin_cos x
  | asin => exact (hrec _).trans (by rw [← sq]; rfl)
  | acos => exact congrArg Neg.neg ((hrec _).trans (by rw [← sq]))
  | atan => exact (hrec _).trans (by rw [← sq]; rfl)
  | tanh =>
    have hcosh := cosh_ne_zero x
    change 1 - unary .tanh x * unary .tanh x = 1 / unary .cosh x ^ 2
    rw [Identities.tanh]
    field_simp
    linear_combination Identities.cosh_sinh x
  | asinh => exact (hrec _).trans (by rw [← sq, add_comm]; rfl)
  | acosh | atanh => exact (hrec _).trans (by rw [← sq]; rfl)
  | abs =>
    have hx : x ≠ 0 := h
    change (if Functions.eq x 0 then 0 else unary .sign x) = if 0 < x then (1 : K) else -1
    rw [if_neg (mt (ExactField.eq_iff x 0).mp hx)]
    split
    · next hpos => exact Identities.sign_pos x hpos
    · next hneg => exact Identities.sign_neg x (lt_of_le_of_ne (not_lt.mp hneg) hx)
  | toDegrees => exact (Identities.toDegrees 1).trans (one_mul _)
  | toRadians => exact (Identities.toRadians 1).trans (one_mul _)

namespace Dual

variable {D : Derivation ℤ K K}

theorem unary_lift (hD : Calculus D) {f : UnaryFn} {x : K} (h : f.Regular x) :
    Dual.unary f (lift D x) = lift D (Functions.unary f x) := by
  have hrule : D (Functions.unary f x) = f.derivative x (Functions.unary f x) * D x := by
    rw [hD.unary f x h, derivative_eq_slope h]
  cases f with
  | sign | floor | ceil | round | trunc =>
    refine Dual.ext rfl ?_
    exact (zero_mul (D x)).symm.trans hrule.symm
  | toDegrees | toRadians => exact Dual.ext rfl ((mul_comm _ _).trans hrule.symm)
  | exp | exp2 | expm1 | ln | ln1p | log2 | log10 | sqrt | cbrt | reciprocal | sin | cos | tan
  | asin | acos | atan | sinh | cosh | tanh | asinh | acosh | atanh | abs | fraction =>
    exact Dual.ext rfl hrule.symm

omit [IsStrictOrderedRing K] [Identities K] in
theorem unary_abs_zero (t : K) : Dual.unary .abs ⟨0, t⟩ = ⟨Functions.unary .abs 0, 0⟩ := by
  refine Dual.ext rfl ?_
  change (if Functions.eq (0 : K) 0 then 0 else Functions.unary .sign (0 : K)) * t = 0
  rw [if_pos ((ExactField.eq_iff (0 : K) 0).mpr rfl), zero_mul]

omit [IsStrictOrderedRing K] [Identities K] in
theorem pow_lift (hD : Calculus D) {x p : K} (h : BinaryFn.Regular D .pow x p) :
    Dual.pow (lift D x) (lift D p) = lift D (Functions.binary .pow x p) := by
  refine Dual.ext rfl ?_
  change (if Functions.eq (D p) 0 then _ else _) = D (Functions.binary .pow x p)
  by_cases hp : D p = 0
  · rw [if_pos ((ExactField.eq_iff (D p) 0).mpr hp)]
    have hdomain : x ≠ 0 ∨ 1 ≤ p ∨ p = 0 := h.elim (fun hx => .inl hx.ne') And.right
    exact (hD.pow_constant x p hp hdomain).symm
  · rw [if_neg (mt (ExactField.eq_iff (D p) 0).mp hp)]
    have hx : 0 < x := h.resolve_right fun hconst => hp hconst.1
    exact (hD.pow x p hx).symm

theorem binary_lift (hD : Calculus D) {f : BinaryFn} {x y : K} (h : f.Regular D x y) :
    Dual.binary f (lift D x) (lift D y) = lift D (Functions.binary f x y) := by
  cases f with
  | rem =>
    refine Dual.ext rfl ?_
    have htrunc : D (Functions.unary .trunc (x / y)) = 0 :=
      (hD.unary .trunc (x / y) trivial).trans (zero_mul _)
    change D x - Functions.unary .trunc (x / y) * D y = D (Functions.binary .rem x y)
    rw [Identities.rem x y h, D.map_sub, D.leibniz, htrunc]
    simp
  | pow => exact pow_lift hD h
  | log =>
    obtain ⟨hx, hb, hne⟩ := h
    change Dual.unary .ln (lift D x) / Dual.unary .ln (lift D y) = _
    rw [unary_lift (f := .ln) hD hx, unary_lift (f := .ln) hD hb, lift_div D _ hne,
      ← Identities.log]
  | atan2 =>
    refine Dual.ext rfl ?_
    change (y * D x - x * D y) / (x * x + y * y) = D (Functions.binary .atan2 x y)
    rw [hD.atan2 x y h]
    ring
  | hypot => exact Dual.ext rfl (hD.hypot x y h).symm
  | max =>
    change (if Functions.lt x y then lift D y else lift D x) = _
    rw [Identities.max, max_def_lt, apply_ite (lift D)]
    exact if_congr (ExactOrderedField.lt_iff x y) rfl rfl
  | min =>
    change (if Functions.lt y x then lift D y else lift D x) = _
    rw [Identities.min, min_comm, min_def_lt, apply_ite (lift D)]
    exact if_congr (ExactOrderedField.lt_iff y x) rfl rfl
  | excess =>
    change (if Functions.lt y x then lift D x - lift D y else 0) = _
    rw [Identities.excess, apply_ite (lift D), lift_sub, lift_constant D D.map_zero]
    exact if_congr (ExactOrderedField.lt_iff y x) rfl rfl

end Dual

/-- Operations and functions commute with the lift, each on its open domain. Of the powers with an
exponent of 32 bits all but the one with the least exponent do. -/
structure ChainRule {K : Type} [Field K] [LinearOrder K] [Functions K]
    (D : Derivation ℤ K K) : Prop where
  neg : ∀ x : K, -Dual.lift D x = Dual.lift D (-x)
  add : ∀ x y : K, Dual.lift D x + Dual.lift D y = Dual.lift D (x + y)
  sub : ∀ x y : K, Dual.lift D x - Dual.lift D y = Dual.lift D (x - y)
  mul : ∀ x y : K, Dual.lift D x * Dual.lift D y = Dual.lift D (x * y)
  div : ∀ x y : K, y ≠ 0 → Dual.lift D x / Dual.lift D y = Dual.lift D (x / y)
  addPlain : ∀ x c : K, D c = 0 → (Dual.lift D x).addPlain c = Dual.lift D (x + c)
  subPlain : ∀ x c : K, D c = 0 → (Dual.lift D x).subPlain c = Dual.lift D (x - c)
  mulPlain : ∀ x c : K, D c = 0 → (Dual.lift D x).mulPlain c = Dual.lift D (x * c)
  divPlain : ∀ x c : K, D c = 0 → c ≠ 0 → (Dual.lift D x).divPlain c = Dual.lift D (x / c)
  plainAdd : ∀ c x : K, D c = 0 → Dual.plainAdd c (Dual.lift D x) = Dual.lift D (c + x)
  plainSub : ∀ c x : K, D c = 0 → Dual.plainSub c (Dual.lift D x) = Dual.lift D (c - x)
  plainMul : ∀ c x : K, D c = 0 → Dual.plainMul c (Dual.lift D x) = Dual.lift D (c * x)
  plainDiv : ∀ c x : K, D c = 0 → x ≠ 0 → Dual.plainDiv c (Dual.lift D x) = Dual.lift D (c / x)
  unary : ∀ (f : UnaryFn) (x : K), f.Regular x →
    Functions.unary f (Dual.lift D x) = Dual.lift D (Functions.unary f x)
  abs_zero : ∀ t : K, Functions.unary .abs (⟨0, t⟩ : Dual K) = ⟨Functions.unary .abs 0, 0⟩
  sinCos : ∀ x : K, Functions.sinCos (Dual.lift D x) =
    (Dual.lift D (Functions.unary .sin x), Dual.lift D (Functions.unary .cos x))
  binary : ∀ (f : BinaryFn) (x y : K), f.Regular D x y →
    Functions.binary f (Dual.lift D x) (Dual.lift D y) = Dual.lift D (Functions.binary f x y)
  mulAdd : ∀ x y z : K, Functions.mulAdd (Dual.lift D x) (Dual.lift D y) (Dual.lift D z) =
    Dual.lift D (Functions.mulAdd x y z)
  powInt : ∀ (x : K) (n : ℤ), Int32.minValue.toInt ≤ n → n ≤ Int32.maxValue.toInt →
    x ≠ 0 ∨ 0 ≤ n →
    (Nested.powInt (k := 1) (Dual.lift D x : Dual K) n =
        .ok (Dual.lift D (Functions.powInt x n) : Dual K) ↔
      n ≠ Int32.minValue.toInt)

/-- Dual numbers over an exact ordered field obey the chain rule for every derivation that follows
the rules of differentiation. -/
theorem dual_chain_rule [ExactPowers K] {D : Derivation ℤ K K} (hD : Calculus D) :
    ChainRule D where
  neg := Dual.lift_neg D
  add := Dual.lift_add D
  sub := Dual.lift_sub D
  mul := Dual.lift_mul D
  div x _ hy := Dual.lift_div D x hy
  addPlain x _ hc := Dual.lift_addPlain x hc
  subPlain x _ hc := Dual.lift_subPlain x hc
  mulPlain x _ hc := Dual.lift_mulPlain x hc
  divPlain x _ hc hne := Dual.lift_divPlain x hc hne
  plainAdd c x hc := (Dual.lift_addPlain x hc).trans (congrArg (Dual.lift D) (add_comm x c))
  plainSub _ x hc := Dual.lift_plainSub hc x
  plainMul c x hc := (Dual.lift_mulPlain x hc).trans (congrArg (Dual.lift D) (mul_comm x c))
  plainDiv _ _ hc hx := Dual.lift_plainDiv hc hx
  unary _ _ h := Dual.unary_lift hD h
  abs_zero := Dual.unary_abs_zero
  sinCos _ := Prod.ext (Dual.unary_lift (f := .sin) hD trivial)
    (Dual.unary_lift (f := .cos) hD trivial)
  binary _ _ _ h := Dual.binary_lift hD h
  mulAdd := Dual.lift_mulAdd
  powInt _ _ hlow hhigh h := Dual.powInt_lift_eq_ok_iff hlow hhigh h

theorem dual_chain_rule_moving :
    Calculus Moving.rate ∧ Moving.rate Moving.clock = 1 ∧ ChainRule Moving.rate :=
  ⟨Moving.calculus_rate, Moving.rate_clock, dual_chain_rule Moving.calculus_rate⟩

theorem least_power_overflows :
    Calculus Moving.rate ∧ Moving.clock ≠ 0 ∧
      Nested.powInt (α := Moving) (k := 1) (Dual.lift Moving.rate Moving.clock : Dual Moving)
        Int32.minValue.toInt = .error .overflow := by
  refine ⟨Moving.calculus_rate, fun hzero => ?_, if_neg ?_⟩
  · have hone := Moving.rate_clock
    rw [hzero, map_zero] at hone
    exact zero_ne_one hone
  · have hmin : Int32.minValue.toInt = -2 ^ 31 := rfl
    rw [Nested.exponentFits_iff]
    omega

end Autodiff
