import Mathlib
import Autodiff.Proofs.Number.Calculus
import Autodiff.Proofs.Number.Real

set_option autoImplicit false

namespace Autodiff

def UnaryFn.IsSmooth : UnaryFn → Prop
  | .abs | .sign | .fraction | .floor | .ceil | .round | .trunc => False
  | .exp | .exp2 | .expm1 | .ln | .ln1p | .log2 | .log10 | .sqrt | .cbrt | .reciprocal | .sin
  | .cos | .tan | .asin | .acos | .atan | .sinh | .cosh | .tanh | .asinh | .acosh | .atanh
  | .toDegrees | .toRadians => True

theorem cbrt_of_pos {x : ℝ} (h : 0 < x) : realUnary x .cbrt = x ^ (1 / (3 : ℕ) : ℝ) := if_pos h.le

theorem cbrt_of_neg {x : ℝ} (h : x < 0) : realUnary x .cbrt = -(-x) ^ (1 / (3 : ℕ) : ℝ) :=
  if_neg h.not_ge

theorem cbrt_neg {x : ℝ} (h : x ≠ 0) : realUnary (-x) .cbrt = -realUnary x .cbrt := by
  rcases h.lt_or_gt with hneg | hpos
  · rw [cbrt_of_neg hneg, cbrt_of_pos (neg_pos.mpr hneg), neg_neg]
  · rw [cbrt_of_pos hpos, cbrt_of_neg (neg_neg_of_pos hpos), neg_neg]

theorem hasDerivAt_cbrt_of_pos {x : ℝ} (h : 0 < x) :
    HasDerivAt (realUnary · .cbrt) (1 / (3 * realUnary x .cbrt ^ 2)) x := by
  have hpow := Real.hasDerivAt_rpow_const (p := 1 / (3 : ℕ)) (.inl h.ne')
  have hnear : (realUnary · .cbrt) =ᶠ[nhds x] fun y => y ^ (1 / (3 : ℕ) : ℝ) := by
    filter_upwards [lt_mem_nhds h] with y hy using cbrt_of_pos hy
  refine (hpow.congr_of_eventuallyEq hnear).congr_deriv ?_
  have hsq : (x ^ (1 / (3 : ℕ) : ℝ)) ^ 2 = x ^ (2 / 3 : ℝ) := by
    rw [← Real.rpow_natCast, ← Real.rpow_mul h.le]
    norm_num
  have hexp : (1 / (3 : ℕ) - 1 : ℝ) = -(2 / 3) := by norm_num
  rw [cbrt_of_pos h, hsq, hexp, Real.rpow_neg h.le]
  have hne : x ^ (2 / 3 : ℝ) ≠ 0 := (Real.rpow_pos_of_pos h _).ne'
  push_cast
  field_simp

theorem hasDerivAt_cbrt {x : ℝ} (h : x ≠ 0) :
    HasDerivAt (realUnary · .cbrt) (1 / (3 * realUnary x .cbrt ^ 2)) x := by
  rcases h.lt_or_gt with hneg | hpos
  · -- The negative side mirrors the positive one.
    have hmirror := (hasDerivAt_cbrt_of_pos (neg_pos.mpr hneg)).comp x (hasDerivAt_neg x)
    have hnear : (realUnary · .cbrt) =ᶠ[nhds x] fun y => -realUnary (-y) .cbrt := by
      filter_upwards [gt_mem_nhds hneg] with y hy
      rw [cbrt_neg (ne_of_lt hy), neg_neg]
    refine (hmirror.neg.congr_of_eventuallyEq hnear).congr_deriv ?_
    rw [cbrt_neg h]
    ring
  · exact hasDerivAt_cbrt_of_pos hpos

theorem hasDerivAt_tanh (x : ℝ) : HasDerivAt Real.tanh (1 / Real.cosh x ^ 2) x := by
  have hcosh := (Real.cosh_pos x).ne'
  have hquotient := (Real.hasDerivAt_sinh x).div (Real.hasDerivAt_cosh x) hcosh
  have hfun : Real.tanh = fun y => Real.sinh y / Real.cosh y := funext Real.tanh_eq_sinh_div_cosh
  rw [hfun]
  refine hquotient.congr_deriv ?_
  rw [← Real.cosh_sq_sub_sinh_sq x]
  ring

theorem artanh_eventuallyEq {x : ℝ} (h : -1 < x ∧ x < 1) :
    Real.artanh =ᶠ[nhds x] fun y => 1 / 2 * (Real.log (1 + y) - Real.log (1 - y)) := by
  filter_upwards [Ioo_mem_nhds h.1 h.2] with y hy
  have hup : (1 : ℝ) + y ≠ 0 := by linarith [hy.1]
  have hdown : (1 : ℝ) - y ≠ 0 := by linarith [hy.2]
  rw [Real.artanh_eq_half_log (Set.Ioo_subset_Icc_self hy), Real.log_div hup hdown]

theorem hasDerivAt_artanh {x : ℝ} (h : -1 < x ∧ x < 1) :
    HasDerivAt Real.artanh (1 / (1 - x ^ 2)) x := by
  have hup : (0 : ℝ) < 1 + x := by linarith [h.1]
  have hdown : (0 : ℝ) < 1 - x := by linarith [h.2]
  have hlogs : HasDerivAt (fun y => 1 / 2 * (Real.log (1 + y) - Real.log (1 - y)))
      (1 / 2 * (1 / (1 + x) - -1 / (1 - x))) x :=
    ((((hasDerivAt_id x).const_add 1).log hup.ne').sub
      (((hasDerivAt_id x).const_sub 1).log hdown.ne')).const_mul _
  refine (hlogs.congr_of_eventuallyEq (artanh_eventuallyEq h)).congr_deriv ?_
  have hprod : 1 - x ^ 2 = (1 + x) * (1 - x) := by ring
  rw [hprod]
  field_simp
  ring

theorem hasDerivAt_realUnary {f : UnaryFn} {x : ℝ} (hf : f.IsSmooth) (h : f.Regular x) :
    HasDerivAt (realUnary · f) (f.slope x) x := by
  cases f with
  | exp => exact Real.hasDerivAt_exp x
  | expm1 => exact (Real.hasDerivAt_exp x).sub_const 1
  | exp2 =>
    refine (((hasDerivAt_id x).mul_const _).exp).congr_deriv ?_
    change Real.exp (x * _) * (1 * _) = _
    rw [one_mul, mul_comm]
    rfl
  | ln => exact (Real.hasDerivAt_log (ne_of_gt h)).congr_deriv (one_div x).symm
  | ln1p =>
    have hx : (1 : ℝ) + x ≠ 0 := by
      have hlow : -1 < x := h
      linarith
    exact ((hasDerivAt_id x).const_add 1).log hx
  | log2 | log10 =>
    refine ((Real.hasDerivAt_log (ne_of_gt h)).div_const _).congr_deriv ?_
    rw [inv_eq_one_div, div_div]
    rfl
  | sqrt => exact Real.hasDerivAt_sqrt (ne_of_gt h)
  | cbrt => exact hasDerivAt_cbrt h
  | reciprocal =>
    refine (hasDerivAt_inv h).congr_deriv ?_
    change -(x ^ 2)⁻¹ = -1 / x ^ 2
    ring
  | sin => exact Real.hasDerivAt_sin x
  | cos => exact Real.hasDerivAt_cos x
  | tan => exact Real.hasDerivAt_tan h
  | asin => exact Real.hasDerivAt_arcsin (ne_of_gt h.1) (ne_of_lt h.2)
  | acos => exact Real.hasDerivAt_arccos (ne_of_gt h.1) (ne_of_lt h.2)
  | atan => exact Real.hasDerivAt_arctan x
  | sinh => exact Real.hasDerivAt_sinh x
  | cosh => exact Real.hasDerivAt_cosh x
  | tanh => exact hasDerivAt_tanh x
  | asinh => exact (Real.hasDerivAt_arsinh x).congr_deriv (one_div _).symm
  | acosh => exact (Real.hasDerivAt_arcosh h).congr_deriv (one_div _).symm
  | atanh => exact hasDerivAt_artanh h
  | toDegrees | toRadians => exact ((hasDerivAt_id x).mul_const _).congr_deriv (one_mul _)
  | abs | sign | fraction | floor | ceil | round | trunc => exact hf.elim

theorem analyticAt_cbrt_of_pos {x : ℝ} (h : 0 < x) : AnalyticAt ℝ (realUnary · .cbrt) x := by
  have hpow : AnalyticAt ℝ (fun y : ℝ => y ^ (1 / (3 : ℕ) : ℝ)) x :=
    (Real.contDiffAt_rpow_const_of_ne h.ne').analyticAt
  refine hpow.congr ?_
  filter_upwards [lt_mem_nhds h] with y hy using (cbrt_of_pos hy).symm

theorem analyticAt_cbrt {x : ℝ} (h : x ≠ 0) : AnalyticAt ℝ (realUnary · .cbrt) x := by
  rcases h.lt_or_gt with hneg | hpos
  · have hmirror := (analyticAt_cbrt_of_pos (neg_pos.mpr hneg)).comp analyticAt_id.neg
    refine hmirror.neg.congr ?_
    filter_upwards [gt_mem_nhds hneg] with y hy
    change -realUnary (-y) .cbrt = realUnary y .cbrt
    rw [cbrt_neg (ne_of_lt hy), neg_neg]
  · exact analyticAt_cbrt_of_pos hpos

theorem analyticAt_log {x : ℝ} (h : x ≠ 0) : AnalyticAt ℝ Real.log x :=
  (Real.contDiffAt_log.mpr h).analyticAt

theorem analyticAt_artanh {x : ℝ} (h : -1 < x ∧ x < 1) : AnalyticAt ℝ Real.artanh x := by
  have hup : (0 : ℝ) < 1 + x := by linarith [h.1]
  have hdown : (0 : ℝ) < 1 - x := by linarith [h.2]
  have hlogs : AnalyticAt ℝ (fun y => 1 / 2 * (Real.log (1 + y) - Real.log (1 - y))) x :=
    analyticAt_const.mul
      (((analyticAt_log hup.ne').fun_comp (analyticAt_const.add analyticAt_id)).sub
        ((analyticAt_log hdown.ne').fun_comp (analyticAt_const.sub analyticAt_id)))
  exact hlogs.congr (artanh_eventuallyEq h).symm

theorem analyticAt_tanh (x : ℝ) : AnalyticAt ℝ Real.tanh x := by
  have hfun : Real.tanh = fun y => Real.sinh y / Real.cosh y := funext Real.tanh_eq_sinh_div_cosh
  rw [hfun]
  exact Real.analyticAt_sinh.div Real.analyticAt_cosh (Real.cosh_pos x).ne'

theorem analyticAt_realUnary {f : UnaryFn} {x : ℝ} (hf : f.IsSmooth) (h : f.Regular x) :
    AnalyticAt ℝ (realUnary · f) x := by
  cases f with
  | exp => exact analyticAt_rexp
  | expm1 => exact analyticAt_rexp.sub analyticAt_const
  | exp2 => exact (analyticAt_id.mul analyticAt_const).rexp
  | ln => exact analyticAt_log (ne_of_gt h)
  | ln1p =>
    have hx : (1 : ℝ) + x ≠ 0 := by
      have hlow : -1 < x := h
      linarith
    exact (analyticAt_log hx).comp (analyticAt_const.add analyticAt_id)
  | log2 | log10 => exact (analyticAt_log (ne_of_gt h)).div_const
  | sqrt => exact (Real.contDiffAt_sqrt (ne_of_gt h)).analyticAt
  | cbrt => exact analyticAt_cbrt h
  | reciprocal => exact analyticAt_inv h
  | sin => exact Real.analyticAt_sin
  | cos => exact Real.analyticAt_cos
  | tan => exact (Real.contDiffAt_tan.mpr h).analyticAt
  | asin => exact (Real.contDiffAt_arcsin (ne_of_gt h.1) (ne_of_lt h.2)).analyticAt
  | acos => exact (Real.contDiffAt_arccos (ne_of_gt h.1) (ne_of_lt h.2)).analyticAt
  | atan => exact Real.contDiff_arctan.contDiffAt.analyticAt
  | sinh => exact Real.analyticAt_sinh
  | cosh => exact Real.analyticAt_cosh
  | tanh => exact analyticAt_tanh x
  | asinh => exact Real.analyticAt_arsinh
  | acosh => exact Real.analyticAt_arcosh h
  | atanh => exact analyticAt_artanh h
  | toDegrees | toRadians => exact analyticAt_id.mul analyticAt_const
  | abs | sign | fraction | floor | ceil | round | trunc => exact hf.elim

theorem sq_add_sq_pos {r s : ℝ} (h : r ≠ 0 ∨ s ≠ 0) : 0 < r ^ 2 + s ^ 2 := by
  rcases h with hr | hs <;> positivity

section Curves

variable {a b : ℝ → ℝ} {a' b' t : ℝ}

theorem hasDerivAt_hypot (ha : HasDerivAt a a' t) (hb : HasDerivAt b b' t)
    (h : a t ≠ 0 ∨ b t ≠ 0) :
    HasDerivAt (fun u => realBinary (a u) (b u) .hypot)
      ((a t * a' + b t * b') / realBinary (a t) (b t) .hypot) t := by
  have hpos : 0 < a t ^ 2 + b t ^ 2 := sq_add_sq_pos h
  refine (((ha.pow 2).add (hb.pow 2)).sqrt hpos.ne').congr_deriv ?_
  have hroot : √(a t ^ 2 + b t ^ 2) ≠ 0 := (Real.sqrt_pos.mpr hpos).ne'
  change (_ : ℝ) / (2 * √(a t ^ 2 + b t ^ 2)) = _ / √(a t ^ 2 + b t ^ 2)
  field_simp
  push_cast
  ring

theorem analyticAt_hypot (ha : AnalyticAt ℝ a t) (hb : AnalyticAt ℝ b t)
    (h : a t ≠ 0 ∨ b t ≠ 0) : AnalyticAt ℝ (fun u => realBinary (a u) (b u) .hypot) t := by
  have hpos : 0 < a t ^ 2 + b t ^ 2 := sq_add_sq_pos h
  exact (Real.contDiffAt_sqrt hpos.ne').analyticAt.comp_of_eq ((ha.pow 2).add (hb.pow 2)) rfl

theorem hasDerivAt_atan2 (ha : HasDerivAt a a' t) (hb : HasDerivAt b b' t)
    (h : b t ≠ 0 ∨ 0 < a t) :
    HasDerivAt (fun u => realBinary (b u) (a u) .atan2)
      ((a t * b' - b t * a') / (a t ^ 2 + b t ^ 2)) t := by
  -- The angle is the imaginary part of the complex logarithm of `a + b i`.
  have hcurve : HasDerivAt (fun u => (a u : ℂ) + b u * Complex.I) (a' + b' * Complex.I) t :=
    ha.ofReal_comp.add (hb.ofReal_comp.mul_const Complex.I)
  have hslit : (a t : ℂ) + b t * Complex.I ∈ Complex.slitPlane := by
    rw [Complex.mem_slitPlane_iff]
    simpa using h.symm
  have hlog := Complex.imCLM.hasFDerivAt.comp_hasDerivAt t (hcurve.clog_real hslit)
  refine (hlog.congr_of_eventuallyEq (.of_forall fun u => ?_)).congr_deriv ?_
  · exact (congrArg Complex.arg (Complex.mk_eq_add_mul_I (a u) (b u))).trans (Complex.log_im _).symm
  · rw [Complex.imCLM_apply, Complex.div_im]
    simp [Complex.normSq_apply]
    ring

theorem analyticAt_atan2 (ha : AnalyticAt ℝ a t) (hb : AnalyticAt ℝ b t)
    (h : b t ≠ 0 ∨ 0 < a t) : AnalyticAt ℝ (fun u => realBinary (b u) (a u) .atan2) t := by
  have hcurve : AnalyticAt ℝ (fun u => (a u : ℂ) + b u * Complex.I) t :=
    ((Complex.ofRealCLM.analyticAt _).fun_comp ha).add
      (((Complex.ofRealCLM.analyticAt _).fun_comp hb).mul analyticAt_const)
  have hslit : (a t : ℂ) + b t * Complex.I ∈ Complex.slitPlane := by
    rw [Complex.mem_slitPlane_iff]
    simpa using h.symm
  have hlog : AnalyticAt ℝ Complex.log ((a t : ℂ) + b t * Complex.I) :=
    (analyticAt_clog hslit).restrictScalars
  refine ((Complex.imCLM.analyticAt _).comp (hlog.comp_of_eq hcurve rfl)).congr
    (.of_forall fun u => ?_)
  exact (Complex.log_im _).trans (congrArg Complex.arg (Complex.mk_eq_add_mul_I (a u) (b u))).symm

theorem analyticAt_pow (ha : AnalyticAt ℝ a t) (hb : AnalyticAt ℝ b t) (h : 0 < a t) :
    AnalyticAt ℝ (fun u => a u ^ b u) t := by
  have hexp : AnalyticAt ℝ (fun u => Real.exp (Real.log (a u) * b u)) t :=
    (((analyticAt_log h.ne').fun_comp ha).mul hb).rexp
  refine hexp.congr ?_
  filter_upwards [ha.continuousAt.eventually (lt_mem_nhds h)] with u hu
  exact (Real.rpow_def_of_pos hu (b u)).symm

end Curves

end Autodiff
