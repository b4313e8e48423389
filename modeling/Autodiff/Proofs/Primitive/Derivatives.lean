import Mathlib
import Autodiff.Primitive.Catalog
import Autodiff.Proofs.Number.Checked
import Autodiff.Proofs.Number.Slopes

set_option autoImplicit false

namespace Autodiff.Primitive

open Functions (unary binary)
open Checked (real real_div unary_real)

/-- The primitives of the catalog that have a derivative to check: log-sum-exp takes at least one
operand, the logarithmic loss any outcome. -/
inductive Listed : Primitive Checked → Prop
  | exp : Listed exp
  | log : Listed log
  | log1p : Listed log1p
  | sqrt : Listed sqrt
  | sinh : Listed sinh
  | cosh : Listed cosh
  | tanh : Listed tanh
  | square : Listed square
  | logistic : Listed logistic
  | abs : Listed abs
  | pow : Listed pow
  | divide : Listed divide
  | logSumExp (len : ℕ) : 0 < len → Listed (logSumExp len)
  | logLoss (outcome : ℤ) : Listed (logLoss outcome)
  | normalLogDensity : Listed normalLogDensity

/-- The derivative by operand `i` of what the primitive computes near `xs`. -/
def IsPartial (p : Primitive Checked) (xs : List ℝ) (i : ℕ) (d : ℝ) : Prop :=
  ∃ f : ℝ → ℝ, HasDerivAt f d (xs.getD i 0) ∧
    ∀ᶠ t in nhds (xs.getD i 0), p.eval ((xs.set i t).map real) = .ok (real (f t))

structure Differentiates (p : Primitive Checked) (xs : List ℝ) (y : ℝ) (ds : List ℝ) : Prop where
  eval : p.eval (xs.map real) = .ok (real y)
  gradient : p.gradient (xs.map real) (real y) = .ok (ds.map real)
  length : ds.length = xs.length
  partials : ∀ i < xs.length, IsPartial p xs i (ds.getD i 0)

theorem length_of_eval {p : Primitive Checked} {args : List Checked} {v : Checked}
    (h : p.eval args = .ok v) : args.length = p.arity := by
  by_contra hne
  rw [Primitive.eval, operands, dif_neg hne] at h
  exact nomatch h

/-! ### Functions of one number -/

section Unary

variable {name : String} {value : Checked → Outcome Checked Checked}
  {derivative : Checked → Checked → Checked} {x d : ℝ} {f : ℝ → ℝ}

@[simp]
theorem ofUnary_eval (a : Checked) : (ofUnary name value derivative).eval [a] = value a := rfl

theorem ofUnary_differentiates
    (hvalue : ∀ᶠ t in nhds x, (ofUnary name value derivative).eval [real t] = .ok (real (f t)))
    (hderivative : derivative (real x) (real (f x)) = real d) (hf : HasDerivAt f d x) :
    Differentiates (ofUnary name value derivative) [x] (f x) [d] where
  eval := hvalue.self_of_nhds
  gradient := congrArg (fun c => Except.ok [c]) hderivative
  length := rfl
  partials := by
    intro i hi
    obtain rfl : i = 0 := Nat.lt_one_iff.mp hi
    exact ⟨f, hf, hvalue⟩

theorem exists_of_ofUnary_eval {xs : List ℝ} {v : Checked}
    (h : (ofUnary name value derivative).eval (xs.map real) = .ok v) :
    ∃ x, xs = [x] ∧ value (real x) = .ok v := by
  match xs with
  | [] => exact nomatch h
  | [x] => exact ⟨x, rfl, h⟩
  | _ :: _ :: _ => exact nomatch h

end Unary

theorem exp_differentiates (x : ℝ) : Differentiates exp [x] (Real.exp x) [Real.exp x] :=
  ofUnary_differentiates (.of_forall fun _ => congrArg _ (unary_real (f := .exp) trivial)) rfl
    (Real.hasDerivAt_exp x)

theorem log_differentiates {x : ℝ} (h : 0 < x) : Differentiates log [x] (Real.log x) [x⁻¹] := by
  refine ofUnary_differentiates ?_ (unary_real h.ne') (Real.hasDerivAt_log h.ne')
  filter_upwards [lt_mem_nhds h] with t ht
  have hvalue : unary .ln (real t) = real (Real.log t) := unary_real ht
  simp [isNaN, hvalue, ht]

theorem log1p_differentiates {x : ℝ} (h : -1 < x) :
    Differentiates log1p [x] (Real.log (1 + x)) [(1 + x)⁻¹] := by
  have hne : 1 + x ≠ 0 := by linarith
  have hlog := ((hasDerivAt_id x).const_add 1).log hne
  refine ofUnary_differentiates ?_ ?_ (hlog.congr_deriv (one_div _))
  · filter_upwards [lt_mem_nhds h] with t ht
    have hvalue : unary .ln1p (real t) = real (Real.log (1 + t)) := unary_real ht
    simp [isNaN, hvalue, ht]
  · rw [Checked.real_one, Checked.real_add]
    exact unary_real hne

theorem sqrt_differentiates {x : ℝ} (h : 0 < x) :
    Differentiates sqrt [x] (√x) [1 / (√x + √x)] := by
  have hroot : 0 < √x + √x := by positivity
  have hsqrt := (Real.hasDerivAt_sqrt h.ne').congr_deriv (congrArg (1 / ·) (two_mul √x))
  refine ofUnary_differentiates ?_ ?_ hsqrt
  · filter_upwards [lt_mem_nhds h] with t ht
    have hvalue : unary .sqrt (real t) = real √t := unary_real ht.le
    simp [isNaN, hvalue, ht]
  · rw [Checked.real_one, Checked.real_add, real_div 1 hroot.ne']

theorem sinh_differentiates (x : ℝ) : Differentiates sinh [x] (Real.sinh x) [Real.cosh x] :=
  ofUnary_differentiates (.of_forall fun _ => congrArg _ (unary_real (f := .sinh) trivial))
    (unary_real trivial) (Real.hasDerivAt_sinh x)

theorem cosh_differentiates (x : ℝ) : Differentiates cosh [x] (Real.cosh x) [Real.sinh x] :=
  ofUnary_differentiates (.of_forall fun _ => congrArg _ (unary_real (f := .cosh) trivial))
    (unary_real trivial) (Real.hasDerivAt_cosh x)

theorem tanh_differentiates (x : ℝ) :
    Differentiates tanh [x] (Real.tanh x) [1 - Real.tanh x * Real.tanh x] := by
  have hcosh : Real.cosh x ≠ 0 := (Real.cosh_pos x).ne'
  have htanh : 1 / Real.cosh x ^ 2 = 1 - Real.tanh x * Real.tanh x := by
    rw [Real.tanh_eq_sinh_div_cosh]
    field_simp
    exact (Real.cosh_sq_sub_sinh_sq x).symm
  have hvalue : ∀ t, tanh.eval [real t] = .ok (real (Real.tanh t)) := fun _ =>
    congrArg _ (unary_real (f := .tanh) trivial)
  refine ofUnary_differentiates (.of_forall hvalue) ?_ ((hasDerivAt_tanh x).congr_deriv htanh)
  rw [Checked.real_one]
  simp only [Checked.real_mul, Checked.real_sub]

theorem square_differentiates (x : ℝ) : Differentiates square [x] (x * x) [x + x] :=
  ofUnary_differentiates (f := fun t => t * t)
    (.of_forall fun t => congrArg _ (Checked.real_mul t t)) (Checked.real_add x x)
    (((hasDerivAt_id' x).mul (hasDerivAt_id' x)).congr_deriv (by ring))

theorem logistic_eval (t : ℝ) :
    logistic.eval [real t] = .ok (real (1 / (1 + Real.exp (-t)))) := by
  have hexp : ∀ r, unary .exp (real r) = real (Real.exp r) := fun _ => unary_real trivial
  have hpos : ∀ r, 1 + Real.exp r ≠ 0 := fun r => (add_pos one_pos (Real.exp_pos r)).ne'
  have hright : 1 / (1 + unary .exp (-real t)) = real (1 / (1 + Real.exp (-t))) := by
    rw [Checked.real_neg, hexp, Checked.real_one, Checked.real_add, real_div 1 (hpos (-t))]
  have hleft : unary .exp (real t) / (1 + unary .exp (real t)) =
      real (1 / (1 + Real.exp (-t))) := by
    have hquotient : Real.exp t / (1 + Real.exp t) = 1 / (1 + Real.exp (-t)) := by
      rw [div_eq_div_iff (hpos t) (hpos (-t)), mul_add, ← Real.exp_add]
      simp [add_comm]
    rw [hexp, Checked.real_one, Checked.real_add, real_div _ (hpos t), hquotient]
  change (if Functions.ge (real t) 0 then Except.ok (1 / (1 + unary .exp (-real t)))
    else .ok (unary .exp (real t) / (1 + unary .exp (real t)))) = _
  rw [hright, hleft, ite_self]

theorem logistic_differentiates (x : ℝ) :
    Differentiates logistic [x] (1 / (1 + Real.exp (-x)))
      [1 / (1 + Real.exp (-x)) * (1 - 1 / (1 + Real.exp (-x)))] := by
  have hpos : 1 + Real.exp (-x) ≠ 0 := (add_pos one_pos (Real.exp_pos _)).ne'
  have hden : HasDerivAt (fun t => 1 + Real.exp (-t)) (-Real.exp (-x)) x :=
    ((hasDerivAt_neg x).exp.const_add 1).congr_deriv (by ring)
  refine ofUnary_differentiates (.of_forall logistic_eval) ?_ ?_
  · rw [Checked.real_one]
    simp only [Checked.real_sub, Checked.real_mul]
  · refine ((hasDerivAt_const x 1).div hden hpos).congr_deriv ?_
    field_simp
    ring

theorem abs_eval (t : ℝ) : abs.eval [real t] = .ok (real |t|) := by
  have hvalue : unary .abs (real t) = real |t| := unary_real trivial
  simp [abs, isNaN, hvalue]

theorem abs_differentiates {x : ℝ} (h : x ≠ 0) :
    Differentiates abs [x] |x| [if 0 < x then 1 else -1] := by
  refine ofUnary_differentiates (.of_forall abs_eval) ?_ ?_
  · rcases h.lt_or_gt with hneg | hpos
    · simp [Functions.gt, hneg, hneg.not_gt]
    · simp [Functions.gt, hpos]
  · rcases h.lt_or_gt with hneg | hpos
    · exact (hasDerivAt_abs_neg hneg).congr_deriv (if_neg hneg.not_gt).symm
    · exact (hasDerivAt_abs_pos hpos).congr_deriv (if_pos hpos).symm

theorem abs_gradient_zero : abs.gradient [real 0] (real |0|) = .ok [real 0] := by
  have hgradient : abs.gradient [real 0] (real |0|) = .ok [if Functions.gt (real 0) 0 then 1
      else if Functions.lt (real 0) 0 then -1 else 0] := rfl
  exact hgradient.trans (by simp [Functions.gt])

theorem logLoss_zero_differentiates {x : ℝ} (h : x < 1) :
    Differentiates (logLoss 0) [x] (-Real.log (1 + -x)) [(1 - x)⁻¹] := by
  have hne : 1 + -x ≠ 0 := by linarith
  have hlog := (((hasDerivAt_neg x).const_add 1).log hne).neg
  refine ofUnary_differentiates ?_ ?_ (hlog.congr_deriv (by ring))
  · filter_upwards [gt_mem_nhds h] with t ht
    have hlegal : -1 < -t := neg_lt_neg ht
    have hvalue : unary .ln1p (real (-t)) = real (Real.log (1 + -t)) := unary_real hlegal
    simp [isNaN, Functions.ge, hvalue, ht]
  · have hlegal : 1 - x ≠ 0 := by linarith
    have hvalue : unary .reciprocal (real (1 - x)) = real (1 - x)⁻¹ := unary_real hlegal
    simp [hvalue]

theorem logLoss_one_differentiates {x : ℝ} (h : 0 < x) :
    Differentiates (logLoss 1) [x] (-Real.log x) [-x⁻¹] := by
  refine ofUnary_differentiates ?_ ?_ (Real.hasDerivAt_log h.ne').neg
  · filter_upwards [lt_mem_nhds h] with t ht
    have hvalue : unary .ln (real t) = real (Real.log t) := unary_real ht
    simp [isNaN, hvalue, ht]
  · have hvalue : unary .reciprocal (real x) = real x⁻¹ := unary_real h.ne'
    simp [hvalue]

/-! ### Functions of several numbers -/

theorem pow_eval {x : ℝ} (h : 0 < x) (y : ℝ) :
    pow.eval [real x, real y] = .ok (real (x ^ y)) := by
  have hguard : (isNaN (real x) || Functions.le (real x) 0) = false := by simp [isNaN, h]
  change (if isNaN (real x) || Functions.le (real x) 0 then refuse "pow" "base" (real x) "positive"
    else .ok (binary .pow (real x) (real y))) = _
  rw [hguard, Checked.pow_real h]
  rfl

theorem pow_differentiates {x : ℝ} (h : 0 < x) (y : ℝ) :
    Differentiates pow [x, y] (x ^ y) [y * x ^ y / x, x ^ y * Real.log x] where
  eval := pow_eval h y
  gradient := by
    have hbase : real y * real (x ^ y) / real x = real (y * x ^ y / x) := by
      rw [Checked.real_mul, real_div _ h.ne']
    have hexponent : real (x ^ y) * unary .ln (real x) = real (x ^ y * Real.log x) := by
      rw [unary_real (f := .ln) h]
      exact Checked.real_mul _ _
    exact congrArg₂ (fun a b => Except.ok [a, b]) hbase hexponent
  length := rfl
  partials := by
    intro i hi
    obtain rfl | rfl : i = 0 ∨ i = 1 := by
      have hlt : i < 2 := hi
      omega
    · refine ⟨fun t => t ^ y, ?_, ?_⟩
      · refine (Real.hasDerivAt_rpow_const (.inl h.ne')).congr_deriv ?_
        change y * x ^ (y - 1) = y * x ^ y / x
        rw [Real.rpow_sub_one h.ne', mul_div_assoc]
      · filter_upwards [lt_mem_nhds h] with t ht using pow_eval ht y
    · refine ⟨fun t => x ^ t, ?_, .of_forall fun t => pow_eval h t⟩
      exact (Real.hasStrictDerivAt_const_rpow h y).hasDerivAt

theorem divide_eval (x : ℝ) {y : ℝ} (h : y ≠ 0) :
    divide.eval [real x, real y] = .ok (real (x / y)) := by
  have hguard : (Functions.eq (real y) 0 || isNaN (real y)) = false := by simp [isNaN, h]
  change (if Functions.eq (real y) 0 || isNaN (real y) then
    refuse "divide" "y" (real y) "a nonzero number" else .ok (real x / real y)) = _
  rw [hguard, real_div x h]
  rfl

theorem divide_differentiates (x : ℝ) {y : ℝ} (h : y ≠ 0) :
    Differentiates divide [x, y] (x / y) [y⁻¹, -(x / y) / y] where
  eval := divide_eval x h
  gradient := by
    have hdividend : unary .reciprocal (real y) = real y⁻¹ := unary_real h
    have hdivisor : -real (x / y) / real y = real (-(x / y) / y) := by
      rw [Checked.real_neg, real_div _ h]
    exact congrArg₂ (fun a b => Except.ok [a, b]) hdividend hdivisor
  length := rfl
  partials := by
    intro i hi
    obtain rfl | rfl : i = 0 ∨ i = 1 := by
      have hlt : i < 2 := hi
      omega
    · refine ⟨fun t => t / y, ?_, .of_forall fun t => divide_eval t h⟩
      exact ((hasDerivAt_id' x).div_const y).congr_deriv (one_div y)
    · refine ⟨fun t => x / t, ?_, ?_⟩
      · refine ((hasDerivAt_const y x).div (hasDerivAt_id' y) h).congr_deriv ?_
        change _ = -(x / y) / y
        field_simp
        ring
      · filter_upwards [isOpen_ne.mem_nhds h] with t ht using divide_eval x ht

noncomputable def logDensity (y mu sigma : ℝ) : ℝ :=
  -(1 / (2 : ℕ)) * ((y - mu) / sigma) * ((y - mu) / sigma) - Real.log sigma -
    Real.log √((2 : ℕ) * Real.pi)

theorem hasDerivAt_logDensity {z l : ℝ → ℝ} {t dz dl : ℝ} (hz : HasDerivAt z dz t)
    (hl : HasDerivAt l dl t) :
    HasDerivAt (fun u => -(1 / (2 : ℕ)) * z u * z u - l u - Real.log √((2 : ℕ) * Real.pi))
      (-(z t * dz) - dl) t := by
  refine ((((hz.const_mul (-(1 / (2 : ℕ) : ℝ))).mul hz).sub hl).sub_const _).congr_deriv ?_
  push_cast
  ring

theorem normalLogDensity_eval (y mu : ℝ) {sigma : ℝ} (h : 0 < sigma) :
    normalLogDensity.eval [real y, real mu, real sigma] = .ok (real (logDensity y mu sigma)) := by
  have hguard : (isNaN (real sigma) || Functions.le (real sigma) 0 ||
      Functions.test .infinite (real sigma)) = false := by simp [isNaN, h]
  have hhalf : (1 : Checked) / (1 + 1) = real (1 / (2 : ℕ)) := by
    rw [Checked.real_one, Checked.real_add, real_div 1 (by norm_num)]
    norm_num
  have hscore : (real y - real mu) / real sigma = real ((y - mu) / sigma) := by
    rw [Checked.real_sub, real_div _ h.ne']
  have hscale : unary .ln (real sigma) = real (Real.log sigma) := unary_real h
  have htau : (0 : ℝ) < (2 : ℕ) * Real.pi := by positivity
  have hnorm : unary .ln (unary .sqrt (Functions.constant .tau : Checked)) =
      real (Real.log √((2 : ℕ) * Real.pi)) := by
    have hroot : unary .sqrt (Functions.constant .tau : Checked) = real √((2 : ℕ) * Real.pi) :=
      unary_real htau.le
    rw [hroot]
    exact unary_real (f := .ln) (Real.sqrt_pos.mpr htau)
  refine (if_neg (ne_true_of_eq_false hguard)).trans ?_
  change Except.ok (-(1 / (1 + 1)) * ((real y - real mu) / real sigma) *
    ((real y - real mu) / real sigma) - unary .ln (real sigma) -
    unary .ln (unary .sqrt (Functions.constant .tau))) = _
  rw [hhalf, hscore, hscale, hnorm]
  simp only [Checked.real_neg, Checked.real_mul, Checked.real_sub]
  rfl

theorem normalLogDensity_differentiates (y mu : ℝ) {sigma : ℝ} (h : 0 < sigma) :
    Differentiates normalLogDensity [y, mu, sigma] (logDensity y mu sigma)
      [-((y - mu) * sigma⁻¹) * sigma⁻¹, (y - mu) * sigma⁻¹ * sigma⁻¹,
        ((y - mu) * sigma⁻¹ * ((y - mu) * sigma⁻¹) - 1) * sigma⁻¹] where
  eval := normalLogDensity_eval y mu h
  gradient := by
    have hinv : unary .reciprocal (real sigma) = real sigma⁻¹ := unary_real h.ne'
    have hgradient : ∀ v, normalLogDensity.gradient [real y, real mu, real sigma] v =
        .ok [-((real y - real mu) * unary .reciprocal (real sigma)) *
            unary .reciprocal (real sigma),
          (real y - real mu) * unary .reciprocal (real sigma) * unary .reciprocal (real sigma),
          ((real y - real mu) * unary .reciprocal (real sigma) *
            ((real y - real mu) * unary .reciprocal (real sigma)) - 1) *
            unary .reciprocal (real sigma)] := fun _ => rfl
    refine (hgradient _).trans ?_
    rw [hinv]
    simp
  length := rfl
  partials := by
    intro i hi
    obtain rfl | rfl | rfl : i = 0 ∨ i = 1 ∨ i = 2 := by
      have hlt : i < 3 := hi
      omega
    · refine ⟨fun t => logDensity t mu sigma, ?_, .of_forall fun t => normalLogDensity_eval t mu h⟩
      have hscore := ((hasDerivAt_id' y).sub_const mu).div_const sigma
      refine (hasDerivAt_logDensity hscore (hasDerivAt_const y _)).congr_deriv ?_
      change _ = -((y - mu) * sigma⁻¹) * sigma⁻¹
      ring
    · refine ⟨fun t => logDensity y t sigma, ?_, .of_forall fun t => normalLogDensity_eval y t h⟩
      have hscore := ((hasDerivAt_id' mu).const_sub y).div_const sigma
      refine (hasDerivAt_logDensity hscore (hasDerivAt_const mu _)).congr_deriv ?_
      change _ = (y - mu) * sigma⁻¹ * sigma⁻¹
      ring
    · refine ⟨fun t => logDensity y mu t, ?_, ?_⟩
      · have hscore := (hasDerivAt_const sigma (y - mu)).div (hasDerivAt_id' sigma) h.ne'
        refine (hasDerivAt_logDensity hscore (Real.hasDerivAt_log h.ne')).congr_deriv ?_
        change _ = ((y - mu) * sigma⁻¹ * ((y - mu) * sigma⁻¹) - 1) * sigma⁻¹
        simp only [Pi.div_apply]
        field_simp
        ring
      · filter_upwards [lt_mem_nhds h] with t ht using normalLogDensity_eval y mu ht

/-! ### The logarithm of a sum of exponentials -/

noncomputable def logSum (xs : List ℝ) : ℝ := Real.log (xs.map Real.exp).sum

theorem sum_exp_pos (g : ℝ → ℝ) {xs : List ℝ} (h : xs ≠ []) :
    0 < (xs.map fun x => Real.exp (g x)).sum := by
  refine List.sum_pos _ (fun a ha => ?_) (mt List.map_eq_nil_iff.mp h)
  obtain ⟨x, -, rfl⟩ := List.mem_map.mp ha
  exact Real.exp_pos (g x)

theorem add_log_sum_exp_sub {xs : List ℝ} (h : xs ≠ []) (m : ℝ) :
    m + Real.log (xs.map fun x => Real.exp (x - m)).sum = logSum xs := by
  have hfactor : (xs.map fun x => Real.exp (x - m)).sum = (xs.map Real.exp).sum / Real.exp m := by
    rw [div_eq_mul_inv, ← List.sum_map_mul_right]
    simp only [Real.exp_sub, div_eq_mul_inv]
  have hsum : (xs.map Real.exp).sum ≠ 0 := (sum_exp_pos id h).ne'
  rw [hfactor, Real.log_div hsum (Real.exp_pos m).ne', Real.log_exp, logSum]
  ring

theorem foldl_max_real (xs : List ℝ) (m : ℝ) :
    (xs.map real).foldl (binary .max) (real m) = real (xs.foldl max m) := by
  induction xs generalizing m with
  | nil => rfl
  | cons x xs ih => exact ih (max m x)

theorem foldl_exp_real (xs : List ℝ) (m c : ℝ) :
    (xs.map real).foldl (fun acc x => acc + unary .exp (x - real m)) (real c) =
      real (c + (xs.map fun x => Real.exp (x - m)).sum) := by
  induction xs generalizing c with
  | nil => simp
  | cons x xs ih =>
    have hterm : real c + unary .exp (real x - real m) = real (c + Real.exp (x - m)) := by
      rw [Checked.real_sub, unary_real (f := .exp) trivial]
      exact Checked.real_add _ _
    rw [List.map_cons, List.foldl_cons, hterm, ih, List.map_cons, List.sum_cons, add_assoc]

theorem logSumExpValue_real {xs : List ℝ} (h : xs ≠ []) :
    logSumExpValue (xs.map real) = .ok (real (logSum xs)) := by
  obtain ⟨x, rest, rfl⟩ := List.exists_cons_of_ne_nil h
  have hnumbers : ((x :: rest).map real).find? isNaN = none := by
    simp [List.find?_eq_none, isNaN]
  have hmax : ((x :: rest).map real).foldl (binary .max) (Functions.constant .negInfinity) =
      real (rest.foldl max x) := by
    rw [List.map_cons, List.foldl_cons, Checked.max_negInfinity, foldl_max_real]
  have hsum := foldl_exp_real (x :: rest) (rest.foldl max x) 0
  rw [zero_add] at hsum
  have hpos := sum_exp_pos (fun a => a - rest.foldl max x) h
  rw [logSumExpValue, hnumbers]
  simp only [hmax, Checked.eq_negInfinity, Checked.not_infinite_real, Bool.false_eq_true, if_false]
  rw [Checked.real_zero, hsum, unary_real (f := .ln) hpos, Checked.real_add]
  exact congrArg (fun c => Except.ok (real c)) (add_log_sum_exp_sub h _)

theorem logSumExp_eval {len : ℕ} {xs : List ℝ} (hlen : xs.length = len) (h : xs ≠ []) :
    (logSumExp len).eval (xs.map real) = .ok (real (logSum xs)) := by
  have hargs : (xs.map real).length = (logSumExp len : Primitive Checked).arity :=
    (List.length_map real).trans hlen
  rw [Primitive.eval, operands, dif_pos hargs]
  exact logSumExpValue_real h

theorem hasDerivAt_logSum {xs : List ℝ} {i : ℕ} (hi : i < xs.length) :
    HasDerivAt (fun t => logSum (xs.set i t)) (Real.exp (xs.getD i 0 - logSum xs))
      (xs.getD i 0) := by
  have hne : xs ≠ [] := List.ne_nil_of_length_pos (Nat.zero_lt_of_lt hi)
  have hsum : ∀ t, ((xs.set i t).map Real.exp).sum =
      ((xs.map Real.exp).take i).sum + Real.exp t + ((xs.map Real.exp).drop (i + 1)).sum := by
    intro t
    rw [List.map_set, List.sum_set, if_pos (by rwa [List.length_map])]
  have hself : xs.set i (xs.getD i 0) = xs := by
    rw [List.getD_eq_getElem xs 0 hi, List.set_getElem_self]
  have hderiv : HasDerivAt (fun t => ((xs.set i t).map Real.exp).sum)
      (Real.exp (xs.getD i 0)) (xs.getD i 0) := by
    simp only [hsum]
    exact ((Real.hasDerivAt_exp _).const_add _).add_const _
  have hpos : 0 < (xs.map Real.exp).sum := sum_exp_pos id hne
  have hlog := hderiv.log (by rw [hself]; exact hpos.ne')
  refine hlog.congr_deriv ?_
  rw [hself, Real.exp_sub, logSum, Real.exp_log hpos]

theorem logSumExp_partials {len : ℕ} (args : Vector Checked len) (y : ℝ) :
    ((logSumExp len).partials args (real y)).toList =
      args.toList.map fun x => unary .exp (x - real y) := by
  change (if Functions.eq (real y) (Functions.constant .negInfinity) then Vector.replicate len 0
    else args.map fun x => unary .exp (x - real y)).toList = _
  rw [Checked.eq_negInfinity]
  exact Vector.toList_map

theorem logSumExp_gradient {len : ℕ} {xs : List ℝ} (hlen : xs.length = len) (y : ℝ) :
    (logSumExp len).gradient (xs.map real) (real y) =
      .ok ((xs.map fun x => Real.exp (x - y)).map real) := by
  have hargs : (xs.map real).length = (logSumExp len : Primitive Checked).arity :=
    (List.length_map real).trans hlen
  have hlist : (xs.map real).map (fun x => unary .exp (x - real y)) =
      (xs.map fun x => Real.exp (x - y)).map real := by
    rw [List.map_map, List.map_map]
    refine List.map_congr_left fun x _ => ?_
    change unary .exp (real x - real y) = real (Real.exp (x - y))
    rw [Checked.real_sub, unary_real (f := .exp) trivial]
    rfl
  rw [Primitive.gradient, operands, dif_pos hargs]
  exact congrArg Except.ok ((logSumExp_partials _ y).trans hlist)

theorem logSumExp_differentiates {len : ℕ} {xs : List ℝ} (hlen : xs.length = len) (h : xs ≠ []) :
    Differentiates (logSumExp len) xs (logSum xs) (xs.map fun x => Real.exp (x - logSum xs)) where
  eval := logSumExp_eval hlen h
  gradient := logSumExp_gradient hlen _
  length := List.length_map _
  partials := by
    intro i hi
    refine ⟨fun t => logSum (xs.set i t), ?_, .of_forall fun t => ?_⟩
    · rw [List.getD_eq_getElem _ 0 (by rwa [List.length_map]), List.getElem_map,
        ← List.getD_eq_getElem xs 0 hi]
      exact hasDerivAt_logSum hi
    · refine logSumExp_eval ((List.length_set).trans hlen) ?_
      exact List.ne_nil_of_length_pos (by rw [List.length_set]; exact Nat.zero_lt_of_lt hi)

/-! ### The catalog -/

theorem of_guard {c : Bool} {op operand requirement : String} {x a v : Checked}
    (h : (if c then refuse op operand x requirement else .ok a : Outcome Checked Checked) = .ok v) :
    c = false := by
  cases c with
  | false => rfl
  | true => exact nomatch h

theorem lt_of_guard {r x : ℝ} (h : (isNaN (real x) || Functions.le (real x) (real r)) = false) :
    r < x := by
  simpa [isNaN] using h

/-- What a primitive accepts it differentiates, except for the absolute value at its kink. -/
theorem exists_differentiates {p : Primitive Checked} (hp : Listed p) {xs : List ℝ} {v : Checked}
    (h : p.eval (xs.map real) = .ok v) :
    (p = abs ∧ xs = [0]) ∨ ∃ y ds, Differentiates p xs y ds := by
  cases hp with
  | exp =>
    obtain ⟨x, rfl, -⟩ := exists_of_ofUnary_eval h
    exact .inr ⟨_, _, exp_differentiates x⟩
  | log =>
    obtain ⟨x, rfl, hx⟩ := exists_of_ofUnary_eval h
    exact .inr ⟨_, _, log_differentiates (lt_of_guard (of_guard hx))⟩
  | log1p =>
    obtain ⟨x, rfl, hx⟩ := exists_of_ofUnary_eval h
    have hguard := of_guard hx
    rw [Checked.real_one, Checked.real_neg] at hguard
    exact .inr ⟨_, _, log1p_differentiates (lt_of_guard hguard)⟩
  | sqrt =>
    obtain ⟨x, rfl, hx⟩ := exists_of_ofUnary_eval h
    exact .inr ⟨_, _, sqrt_differentiates (lt_of_guard (of_guard hx))⟩
  | sinh =>
    obtain ⟨x, rfl, -⟩ := exists_of_ofUnary_eval h
    exact .inr ⟨_, _, sinh_differentiates x⟩
  | cosh =>
    obtain ⟨x, rfl, -⟩ := exists_of_ofUnary_eval h
    exact .inr ⟨_, _, cosh_differentiates x⟩
  | tanh =>
    obtain ⟨x, rfl, -⟩ := exists_of_ofUnary_eval h
    exact .inr ⟨_, _, tanh_differentiates x⟩
  | square =>
    obtain ⟨x, rfl, -⟩ := exists_of_ofUnary_eval h
    exact .inr ⟨_, _, square_differentiates x⟩
  | logistic =>
    obtain ⟨x, rfl, -⟩ := exists_of_ofUnary_eval h
    exact .inr ⟨_, _, logistic_differentiates x⟩
  | abs =>
    obtain ⟨x, rfl, -⟩ := exists_of_ofUnary_eval h
    by_cases hx : x = 0
    · exact .inl ⟨rfl, by rw [hx]⟩
    · exact .inr ⟨_, _, abs_differentiates hx⟩
  | pow =>
    match xs, h with
    | [x, y], h => exact .inr ⟨_, _, pow_differentiates (lt_of_guard (of_guard h)) y⟩
  | divide =>
    match xs, h with
    | [x, y], h =>
      have hguard : (Functions.eq (real y) 0 || isNaN (real y)) = false := of_guard h
      have hne : y ≠ 0 := by simpa [isNaN] using hguard
      exact .inr ⟨_, _, divide_differentiates x hne⟩
  | logSumExp len hlen =>
    have hlength := length_of_eval h
    rw [List.length_map] at hlength
    have hne : xs ≠ [] := List.ne_nil_of_length_pos (hlength.symm ▸ hlen)
    exact .inr ⟨_, _, logSumExp_differentiates hlength hne⟩
  | logLoss outcome =>
    obtain ⟨x, rfl, hx⟩ := exists_of_ofUnary_eval h
    by_cases hzero : outcome = 0
    · subst hzero
      have hguard : (isNaN (real x) || Functions.ge (real x) 1) = false := of_guard hx
      have hlt : x < 1 := by simpa [isNaN, Functions.ge] using hguard
      exact .inr ⟨_, _, logLoss_zero_differentiates hlt⟩
    · by_cases hone : outcome = 1
      · subst hone
        exact .inr ⟨_, _, logLoss_one_differentiates (lt_of_guard (of_guard hx))⟩
      · simp [hzero, hone] at hx
  | normalLogDensity =>
    match xs, h with
    | [y, mu, sigma], h =>
      have hguard : (isNaN (real sigma) || Functions.le (real sigma) 0 ||
        Functions.test .infinite (real sigma)) = false := of_guard h
      have hpos : 0 < sigma := by simpa [isNaN] using hguard
      exact .inr ⟨_, _, normalLogDensity_differentiates y mu hpos⟩

/-- The gradient of a primitive consists of the partial derivatives of its value. All numbers are
real, so no operation on the way has met an illegal operand. -/
theorem gradient_of_value {p : Primitive Checked} (hp : Listed p) {xs : List ℝ} {v : Checked}
    (h : p.eval (xs.map real) = .ok v) :
    ∃ (y : ℝ) (ds : List ℝ), v = real y ∧ p.gradient (xs.map real) v = .ok (ds.map real) ∧
      ds.length = xs.length ∧
      (p = abs ∧ xs = [0] ∧ ds = [0] ∨ ∀ i < xs.length, IsPartial p xs i (ds.getD i 0)) := by
  obtain ⟨rfl, rfl⟩ | ⟨y, ds, hdiff⟩ := exists_differentiates hp h
  · have hvalue : v = real |0| := Except.ok.inj (h.symm.trans (abs_eval 0))
    subst hvalue
    exact ⟨|0|, [0], rfl, abs_gradient_zero, rfl, .inl ⟨rfl, rfl, rfl⟩⟩
  · have hvalue : v = real y := Except.ok.inj (h.symm.trans hdiff.eval)
    subst hvalue
    exact ⟨y, ds, rfl, hdiff.gradient, hdiff.length, .inr hdiff.partials⟩

theorem gradient_of_value_normal :
    normalLogDensity.eval ([1, 0, 2].map real) = .ok (real (logDensity 1 0 2)) ∧
      ∃ (y : ℝ) (ds : List ℝ), real (logDensity 1 0 2) = real y ∧
        normalLogDensity.gradient ([1, 0, 2].map real) (real (logDensity 1 0 2)) =
          .ok (ds.map real) ∧
        ds.length = 3 ∧
        ((normalLogDensity : Primitive Checked) = abs ∧ [1, 0, 2] = [(0 : ℝ)] ∧ ds = [0] ∨
          ∀ i < 3, IsPartial normalLogDensity [1, 0, 2] i (ds.getD i 0)) :=
  have hvalue := normalLogDensity_eval 1 0 two_pos
  ⟨hvalue, gradient_of_value .normalLogDensity hvalue⟩

end Autodiff.Primitive
