import Mathlib
import Autodiff.Proofs.Number.Slopes

/-!
# Moving numbers

Functions of time, analytic at almost every time of an ultrafilter without countable sets, are an
ordered field once those are identified that agree at almost every time. Differentiation by time is
a derivation of it that follows all rules of differentiation, and that is not zero.
-/

set_option autoImplicit false

namespace Autodiff

open Functions (unary binary)
open Filter (Germ)

noncomputable section

/-- Almost every time, in a sense that decides every set of times. -/
def times : Ultrafilter ℝ := Ultrafilter.of (MeasureTheory.ae MeasureTheory.volume)

theorem eventually_notMem_of_countable {s : Set ℝ} (h : s.Countable) :
    ∀ᶠ t in (times : Filter ℝ), t ∉ s :=
  (h.ae_notMem MeasureTheory.volume).filter_mono (Ultrafilter.of_le _)

/-- Analytic at almost every time. -/
def Smooth (a : ℝ → ℝ) : Prop := ∀ᶠ t in (times : Filter ℝ), AnalyticAt ℝ a t

theorem Smooth.eventually_nhds {a b : ℝ → ℝ} (ha : Smooth a) (hb : Smooth b)
    (h : a =ᶠ[times] b) : ∀ᶠ t in (times : Filter ℝ), a =ᶠ[nhds t] b := by
  -- Of the times at which both agree, the isolated ones are countably many.
  have hisolated := countable_setOfPred_isolated_right_within (s := {t | a t = b t})
  filter_upwards [ha, hb, h, eventually_notMem_of_countable hisolated] with t hat hbt ht hnot
  rcases hat.eventually_eq_or_eventually_ne hbt with heq | hne
  · exact heq
  · refine (hnot ⟨ht, ?_⟩).elim
    rw [← Filter.empty_mem_iff_bot, mem_nhdsWithin_iff_eventually]
    filter_upwards [eventually_nhdsWithin_iff.mp hne] with u hu hmem
    exact hu (ne_of_gt hmem.2) hmem.1

theorem Smooth.inv {a : ℝ → ℝ} (h : Smooth a) : Smooth a⁻¹ := by
  by_cases hzero : a =ᶠ[times] 0
  · have hnear := h.eventually_nhds (.of_forall fun _ => analyticAt_const) hzero
    filter_upwards [hnear] with t ht
    exact analyticAt_const.congr (ht.fun_comp Inv.inv).symm
  · have hne : ∀ᶠ t in (times : Filter ℝ), a t ≠ 0 := Ultrafilter.eventually_not.mpr hzero
    filter_upwards [h, hne] with t hat hat0 using hat.inv hat0

def smoothGerms : Subfield (Germ (times : Filter ℝ) ℝ) where
  carrier := {x | ∃ a : ℝ → ℝ, Smooth a ∧ (a : Germ (times : Filter ℝ) ℝ) = x}
  zero_mem' := ⟨0, .of_forall fun _ => analyticAt_const, rfl⟩
  one_mem' := ⟨1, .of_forall fun _ => analyticAt_const, rfl⟩
  add_mem' := by
    rintro _ _ ⟨a, ha, rfl⟩ ⟨b, hb, rfl⟩
    exact ⟨a + b, ha.mp (hb.mono fun _ hb ha => ha.add hb), rfl⟩
  mul_mem' := by
    rintro _ _ ⟨a, ha, rfl⟩ ⟨b, hb, rfl⟩
    exact ⟨a * b, ha.mp (hb.mono fun _ hb ha => ha.mul hb), rfl⟩
  neg_mem' := by
    rintro _ ⟨a, ha, rfl⟩
    exact ⟨-a, ha.mono fun _ ha => ha.neg, rfl⟩
  inv_mem' := by
    rintro _ ⟨a, ha, rfl⟩
    exact ⟨a⁻¹, ha.inv, rfl⟩

def Moving : Type := smoothGerms

namespace Moving

instance : Field Moving := inferInstanceAs (Field smoothGerms)

instance : LinearOrder Moving := inferInstanceAs (LinearOrder smoothGerms)

instance : IsStrictOrderedRing Moving := inferInstanceAs (IsStrictOrderedRing smoothGerms)

def Follows (x : Moving) (a : ℝ → ℝ) : Prop :=
  Smooth a ∧ (a : Germ (times : Filter ℝ) ℝ) = x.val

def path (x : Moving) : ℝ → ℝ := x.property.choose

theorem follows_path (x : Moving) : x.Follows x.path := x.property.choose_spec

/-- The number that moves along `a`, if there is one. -/
def along (a : ℝ → ℝ) : Moving :=
  open Classical in if h : Smooth a then (⟨a, a, h, rfl⟩ : smoothGerms) else 0

theorem follows_along {a : ℝ → ℝ} (h : Smooth a) : (along a).Follows a := by
  have halong : along a = (⟨a, a, h, rfl⟩ : smoothGerms) := dif_pos h
  exact ⟨h, congrArg Subtype.val halong.symm⟩

namespace Follows

variable {x y : Moving} {a b : ℝ → ℝ}

theorem unique (hx : x.Follows a) (hy : y.Follows b) (h : a =ᶠ[times] b) : x = y :=
  Subtype.ext (hx.2.symm.trans ((Filter.Germ.coe_eq.mpr h).trans hy.2))

theorem eventuallyEq (hx : x.Follows a) (hx' : x.Follows b) : a =ᶠ[times] b :=
  Filter.Germ.coe_eq.mp (hx.2.trans hx'.2.symm)

theorem add (hx : x.Follows a) (hy : y.Follows b) : (x + y).Follows (fun t => a t + b t) :=
  ⟨hx.1.mp (hy.1.mono fun _ hb ha => ha.add hb), congrArg₂ (· + ·) hx.2 hy.2⟩

theorem sub (hx : x.Follows a) (hy : y.Follows b) : (x - y).Follows (fun t => a t - b t) :=
  ⟨hx.1.mp (hy.1.mono fun _ hb ha => ha.sub hb), congrArg₂ (· - ·) hx.2 hy.2⟩

theorem mul (hx : x.Follows a) (hy : y.Follows b) : (x * y).Follows (fun t => a t * b t) :=
  ⟨hx.1.mp (hy.1.mono fun _ hb ha => ha.mul hb), congrArg₂ (· * ·) hx.2 hy.2⟩

theorem neg (hx : x.Follows a) : (-x).Follows (fun t => -a t) :=
  ⟨hx.1.mono fun _ ha => ha.neg, congrArg (- ·) hx.2⟩

theorem inv (hx : x.Follows a) : (x⁻¹).Follows (fun t => (a t)⁻¹) :=
  ⟨hx.1.inv, congrArg (·⁻¹) hx.2⟩

theorem div (hx : x.Follows a) (hy : y.Follows b) : (x / y).Follows (fun t => a t / b t) := by
  rw [div_eq_mul_inv]
  exact hx.mul hy.inv

theorem lt_iff (hx : x.Follows a) (hy : y.Follows b) :
    x < y ↔ ∀ᶠ t in (times : Filter ℝ), a t < b t := by
  rw [← Filter.Germ.coe_lt, hx.2, hy.2]
  rfl

theorem eq_iff (hx : x.Follows a) (hy : y.Follows b) :
    x = y ↔ ∀ᶠ t in (times : Filter ℝ), a t = b t := by
  rw [← Filter.EventuallyEq, ← Filter.Germ.coe_eq, hx.2, hy.2]
  exact Subtype.ext_iff

/-- All functions along which a number moves have one rate of change. -/
theorem along_deriv (hx : x.Follows a) : (along (deriv x.path)).Follows (deriv a) := by
  have hrate : Smooth (deriv x.path) := x.follows_path.1.mono fun _ h => h.deriv
  refine ⟨hx.1.mono fun _ h => h.deriv, ?_⟩
  rw [← (follows_along hrate).2, Filter.Germ.coe_eq]
  have hnear := hx.1.eventually_nhds x.follows_path.1 (hx.eventuallyEq x.follows_path)
  exact hnear.mono fun _ h => h.deriv_eq

end Follows

theorem follows_natCast (n : ℕ) : (n : Moving).Follows fun _ => n :=
  ⟨.of_forall fun _ => analyticAt_const, rfl⟩

theorem follows_zero : (0 : Moving).Follows fun _ => 0 := by exact_mod_cast follows_natCast 0

theorem follows_one : (1 : Moving).Follows fun _ => 1 := by exact_mod_cast follows_natCast 1

def rate : Derivation ℤ Moving Moving :=
  Derivation.mk' (AddMonoidHom.toIntLinearMap
    { toFun := fun x => along (deriv x.path)
      map_zero' := by
        refine follows_zero.along_deriv.unique follows_zero (.of_forall fun _ => ?_)
        exact deriv_const _ _
      map_add' := fun x y => by
        have hx := x.follows_path
        have hy := y.follows_path
        refine (hx.add hy).along_deriv.unique (hx.along_deriv.add hy.along_deriv) ?_
        filter_upwards [hx.1, hy.1] with t ha hb
        exact deriv_add ha.differentiableAt hb.differentiableAt }) fun x y => by
    have hx := x.follows_path
    have hy := y.follows_path
    refine (hx.mul hy).along_deriv.unique ((hx.mul hy.along_deriv).add (hy.mul hx.along_deriv)) ?_
    filter_upwards [hx.1, hy.1] with t ha hb
    refine (deriv_mul ha.differentiableAt hb.differentiableAt).trans ?_
    ring

theorem Follows.rate_follows {x : Moving} {a : ℝ → ℝ} (h : x.Follows a) :
    (rate x).Follows (deriv a) := h.along_deriv

def clock : Moving := along id

theorem rate_clock : rate clock = 1 := by
  have hclock : clock.Follows id := follows_along (.of_forall fun _ => analyticAt_id)
  exact hclock.rate_follows.unique follows_one (.of_forall fun t => deriv_id t)

def image (g : ℝ → ℝ) (x : Moving) : Moving := along fun t => g (x.path t)

def image₂ (g : ℝ → ℝ → ℝ) (x y : Moving) : Moving := along fun t => g (x.path t) (y.path t)

theorem Follows.congr {x : Moving} {a b : ℝ → ℝ} (hx : x.Follows a)
    (h : ∀ᶠ t in (times : Filter ℝ), a =ᶠ[nhds t] b) : x.Follows b := by
  refine ⟨hx.1.mp (h.mono fun _ h ha => ha.congr h), ?_⟩
  rw [← hx.2, Filter.Germ.coe_eq]
  exact h.mono fun _ h => h.eq_of_nhds.symm

theorem Follows.path_nhds {x : Moving} {a : ℝ → ℝ} (hx : x.Follows a) :
    ∀ᶠ t in (times : Filter ℝ), x.path =ᶠ[nhds t] a :=
  x.follows_path.1.eventually_nhds hx.1 (x.follows_path.eventuallyEq hx)

theorem Follows.image₂ {x y : Moving} {a b : ℝ → ℝ} (hx : x.Follows a) (hy : y.Follows b)
    {g : ℝ → ℝ → ℝ} (h : Smooth fun t => g (a t) (b t)) :
    (image₂ g x y).Follows fun t => g (a t) (b t) := by
  have hnear : ∀ᶠ t in (times : Filter ℝ),
      (fun t => g (x.path t) (y.path t)) =ᶠ[nhds t] fun t => g (a t) (b t) := by
    filter_upwards [hx.path_nhds, hy.path_nhds] with t ha hb using ha.comp₂ g hb
  have hsmooth : Smooth fun t => g (x.path t) (y.path t) :=
    h.mp (hnear.mono fun _ hnear h => h.congr hnear.symm)
  exact (follows_along hsmooth).congr hnear

theorem Follows.image {x : Moving} {a : ℝ → ℝ} (hx : x.Follows a) {g : ℝ → ℝ}
    (h : ∀ᶠ t in (times : Filter ℝ), AnalyticAt ℝ g (a t)) :
    (image g x).Follows fun t => g (a t) :=
  hx.image₂ hx (g := fun r _ => g r) (hx.1.mp (h.mono fun _ hg ha => hg.fun_comp ha))

open Classical in
/-- Named functions act at every time, where that is smooth; the kinks and jumps of the others are
those of the ordered field. -/
instance : Functions Moving where
  lt x y := decide (x < y)
  le x y := decide (x ≤ y)
  eq x y := decide (x = y)
  constant c := along fun _ => realConstant c
  unary f x := match f with
    | .reciprocal => x⁻¹
    | .tan => image Real.sin x / image Real.cos x
    | .abs => |x|
    | .sign => if 0 ≤ x then 1 else -1
    | .fraction => x - image (realUnary · .trunc) x
    | f => image (realUnary · f) x
  binary f x y := match f with
    | .rem => x - image (realUnary · .trunc) (x / y) * y
    | .log => image Real.log x / image Real.log y
    | .max => max x y
    | .min => min x y
    | .excess => if y < x then x - y else 0
    | f => image₂ (realBinary · · f) x y
  powInt x n := x ^ n
  mulAdd x y z := x * y + z
  test t x := match t with
    | .nan | .infinite => false
    | .finite => true
    | .normal => decide (x ≠ 0)
    | .signPositive => decide (0 ≤ x)
    | .signNegative => decide (x < 0)

instance : ExactOrderedField Moving where
  eq_iff _ _ := decide_eq_true_iff
  reciprocal _ := rfl
  lt_iff _ _ := decide_eq_true_iff
  le_iff _ _ := decide_eq_true_iff
  abs _ := rfl
  finite _ := rfl
  notNan _ := rfl

instance : ExactPowers Moving where
  powInt _ _ _ := rfl
  mulAdd _ _ _ := rfl

section Functions

variable {x y : Moving} {a b : ℝ → ℝ}

theorem follows_constant (c : Constant) :
    (Functions.constant c : Moving).Follows fun _ => realConstant c :=
  follows_along (.of_forall fun _ => analyticAt_const)

theorem Follows.sq (hx : x.Follows a) : (x ^ 2).Follows fun t => a t ^ 2 := by
  simpa only [pow_two] using hx.mul hx

theorem Follows.smooth_unary (hx : x.Follows a) {f : UnaryFn} (hf : f.IsSmooth)
    (h : ∀ᶠ t in (times : Filter ℝ), f.Regular (a t)) :
    (unary f x).Follows fun t => realUnary (a t) f := by
  have hanalytic := h.mono fun _ h => analyticAt_realUnary hf h
  cases f with
  | reciprocal => exact hx.inv
  | tan =>
    have hsin := hx.image (g := Real.sin) (.of_forall fun _ => Real.analyticAt_sin)
    have hcos := hx.image (g := Real.cos) (.of_forall fun _ => Real.analyticAt_cos)
    have hquotient := hsin.div hcos
    simp only [← Real.tan_eq_sin_div_cos] at hquotient
    exact hquotient
  | exp | exp2 | expm1 | ln | ln1p | log2 | log10 | sqrt | cbrt | sin | cos | asin | acos | atan
  | sinh | cosh | tanh | asinh | acosh | atanh | toDegrees | toRadians => exact hx.image hanalytic
  | abs | sign | fraction | floor | ceil | round | trunc => exact hf.elim

theorem Follows.entire (hx : x.Follows a) {f : UnaryFn} (hf : f.IsSmooth)
    (h : ∀ r : ℝ, f.Regular r) : (unary f x).Follows fun t => realUnary (a t) f :=
  hx.smooth_unary hf (.of_forall fun t => h (a t))

instance : Identities Moving where
  expm1 x := by
    have hx := x.follows_path
    have hexp := hx.entire (f := .exp) trivial fun _ => trivial
    have hexpm1 := hx.entire (f := .expm1) trivial fun _ => trivial
    exact hexpm1.unique (hexp.sub follows_one) (.of_forall fun _ => rfl)
  tan _ := rfl
  sin_cos x := by
    have hx := x.follows_path
    have hsin := hx.entire (f := .sin) trivial fun _ => trivial
    have hcos := hx.entire (f := .cos) trivial fun _ => trivial
    exact (hsin.sq.add hcos.sq).unique follows_one (.of_forall fun _ => Real.sin_sq_add_cos_sq _)
  tanh x := by
    have hx := x.follows_path
    have hsinh := hx.entire (f := .sinh) trivial fun _ => trivial
    have hcosh := hx.entire (f := .cosh) trivial fun _ => trivial
    have htanh := hx.entire (f := .tanh) trivial fun _ => trivial
    exact htanh.unique (hsinh.div hcosh) (.of_forall fun _ => Real.tanh_eq_sinh_div_cosh _)
  cosh_sinh x := by
    have hx := x.follows_path
    have hsinh := hx.entire (f := .sinh) trivial fun _ => trivial
    have hcosh := hx.entire (f := .cosh) trivial fun _ => trivial
    exact (hcosh.sq.sub hsinh.sq).unique follows_one
      (.of_forall fun _ => Real.cosh_sq_sub_sinh_sq _)
  sign_pos _ h := if_pos h.le
  sign_neg _ h := if_neg h.not_ge
  toDegrees x := by
    have hx := x.follows_path
    have hdegrees := hx.entire (f := .toDegrees) trivial fun _ => trivial
    exact hdegrees.unique (hx.mul ((follows_natCast 180).div (follows_constant .pi)))
      (.of_forall fun _ => rfl)
  toRadians x := by
    have hx := x.follows_path
    have hradians := hx.entire (f := .toRadians) trivial fun _ => trivial
    exact hradians.unique (hx.mul ((follows_constant .pi).div (follows_natCast 180)))
      (.of_forall fun _ => rfl)
  rem _ _ _ := rfl
  log _ _ := rfl
  max _ _ := rfl
  min _ _ := rfl
  excess _ _ := rfl

theorem Follows.ne_iff (hx : x.Follows a) (hy : y.Follows b) :
    x ≠ y ↔ ∀ᶠ t in (times : Filter ℝ), a t ≠ b t :=
  (not_congr (hx.eq_iff hy)).trans Ultrafilter.eventually_not.symm

theorem Follows.regular (hx : x.Follows a) {f : UnaryFn} (hf : f.IsSmooth) (h : f.Regular x) :
    ∀ᶠ t in (times : Filter ℝ), f.Regular (a t) := by
  have hone := follows_one
  cases f with
  | ln | log2 | log10 | sqrt => exact (follows_zero.lt_iff hx).mp h
  | ln1p => exact (hone.neg.lt_iff hx).mp h
  | cbrt | reciprocal => exact (hx.ne_iff follows_zero).mp h
  | tan =>
    have hcos := hx.entire (f := .cos) trivial fun _ => trivial
    exact (hcos.ne_iff follows_zero).mp h
  | asin | acos | atanh => exact ((hone.neg.lt_iff hx).mp h.1).and ((hx.lt_iff hone).mp h.2)
  | acosh => exact (hone.lt_iff hx).mp h
  | exp | exp2 | expm1 | sin | cos | atan | sinh | cosh | tanh | asinh | toDegrees | toRadians =>
    exact .of_forall fun _ => trivial
  | abs | sign | fraction | floor | ceil | round | trunc => exact hf.elim

theorem one_sub_sq_pos {r : ℝ} (h : -1 < r ∧ r < 1) : 0 < 1 - r ^ 2 :=
  sub_pos.mpr ((sq_lt_one_iff_abs_lt_one r).mpr (abs_lt.mpr h))

theorem Follows.slope (hx : x.Follows a) {f : UnaryFn} (hf : f.IsSmooth) (h : f.Regular x) :
    (f.slope x).Follows fun t => f.slope (a t) := by
  have hone := follows_one
  have hregular := hx.regular hf h
  cases f with
  | exp | sin | cosh => exact hx.entire trivial fun _ => trivial
  | expm1 => exact hx.entire (f := .exp) trivial fun _ => trivial
  | exp2 =>
    exact (follows_constant .ln2).mul (hx.smooth_unary (f := .exp2) trivial hregular)
  | ln => exact hone.div hx
  | ln1p => exact hone.div (hone.add hx)
  | log2 => exact hone.div (hx.mul (follows_constant .ln2))
  | log10 => exact hone.div (hx.mul (follows_constant .ln10))
  | sqrt => exact hone.div ((follows_natCast 2).mul (hx.smooth_unary (f := .sqrt) trivial hregular))
  | cbrt =>
    exact hone.div ((follows_natCast 3).mul (hx.smooth_unary (f := .cbrt) trivial hregular).sq)
  | reciprocal => exact hone.neg.div hx.sq
  | cos => exact (hx.entire (f := .sin) trivial fun _ => trivial).neg
  | tan => exact hone.div (hx.entire (f := .cos) trivial fun _ => trivial).sq
  | asin =>
    refine hone.div ((hone.sub hx.sq).smooth_unary (f := .sqrt) trivial ?_)
    exact hregular.mono fun _ ht => one_sub_sq_pos ht
  | acos =>
    refine (hone.div ((hone.sub hx.sq).smooth_unary (f := .sqrt) trivial ?_)).neg
    exact hregular.mono fun _ ht => one_sub_sq_pos ht
  | atan => exact hone.div (hone.add hx.sq)
  | sinh => exact hx.entire (f := .cosh) trivial fun _ => trivial
  | tanh => exact hone.div (hx.entire (f := .cosh) trivial fun _ => trivial).sq
  | asinh =>
    refine hone.div ((hone.add hx.sq).smooth_unary (f := .sqrt) trivial ?_)
    exact .of_forall fun t => add_pos_of_pos_of_nonneg one_pos (sq_nonneg (a t))
  | acosh =>
    refine hone.div ((hx.sq.sub hone).smooth_unary (f := .sqrt) trivial ?_)
    exact hregular.mono fun _ ht => sub_pos.mpr (one_lt_pow₀ ht two_ne_zero)
  | atanh => exact hone.div (hone.sub hx.sq)
  | toDegrees => exact (follows_natCast 180).div (follows_constant .pi)
  | toRadians => exact (follows_constant .pi).div (follows_natCast 180)
  | abs | sign | fraction | floor | ceil | round | trunc => exact hf.elim

theorem rate_unary (hx : x.Follows a) {f : UnaryFn} (hf : f.IsSmooth) (h : f.Regular x) :
    rate (unary f x) = f.slope x * rate x := by
  have hregular := hx.regular hf h
  refine (hx.smooth_unary hf hregular).rate_follows.unique ((hx.slope hf h).mul hx.rate_follows) ?_
  filter_upwards [hx.1, hregular] with t hat ht
  exact ((hasDerivAt_realUnary hf ht).comp t hat.differentiableAt.hasDerivAt).deriv

theorem rate_image_eq_zero {g : ℝ → ℝ} (hg : ∀ r, ∃ n : ℤ, g r = n) (x : Moving) :
    rate (image g x) = 0 := by
  by_cases hsmooth : Smooth fun t => g (x.path t)
  · have himage : (image g x).Follows fun t => g (x.path t) := follows_along hsmooth
    refine himage.rate_follows.unique follows_zero ?_
    filter_upwards [hsmooth] with t ht
    -- A continuous function with whole values is constant near every time.
    have hnear := Metric.continuousAt_iff'.mp ht.continuousAt 1 one_pos
    have hconst : (fun u => g (x.path u)) =ᶠ[nhds t] fun _ => g (x.path t) := by
      filter_upwards [hnear] with u hu
      obtain ⟨m, hm⟩ := hg (x.path u)
      obtain ⟨n, hn⟩ := hg (x.path t)
      rw [hm, hn, Real.dist_eq] at hu
      have hlt : |m - n| < 1 := by exact_mod_cast hu
      rw [hm, hn, eq_of_sub_eq_zero (Int.abs_lt_one_iff.mp hlt)]
    exact hconst.deriv_eq.trans (deriv_const _ _)
  · have hzero : image g x = 0 := dif_neg hsmooth
    rw [hzero, map_zero]

theorem exists_round (r : ℝ) : ∃ n : ℤ, realUnary r .round = n := by
  by_cases hr : 0 ≤ r
  · exact ⟨_, if_pos hr⟩
  · exact ⟨_, if_neg hr⟩

/-- A number whose rate is zero rests near almost every time. -/
theorem Follows.eventually_const (hx : x.Follows a) (h : rate x = 0) :
    ∀ᶠ t in (times : Filter ℝ), a =ᶠ[nhds t] fun _ => a t := by
  have hzero : deriv a =ᶠ[times] fun _ => 0 := (hx.rate_follows.eq_iff follows_zero).mp h
  filter_upwards [hx.1, hx.rate_follows.1.eventually_nhds follows_zero.1 hzero] with t hat ht
  obtain ⟨r, hr, hball⟩ :=
    Metric.eventually_nhds_iff_ball.mp (hat.eventually_analyticAt.and ht)
  filter_upwards [Metric.ball_mem_nhds t hr] with u hu
  exact Metric.isOpen_ball.is_const_of_deriv_eq_zero (convex_ball t r).isPreconnected
    (fun v hv => (hball v hv).1.differentiableAt.differentiableWithinAt)
    (fun v hv => (hball v hv).2) hu (Metric.mem_ball_self hr)

theorem Follows.pow (hx : x.Follows a) (hy : y.Follows b) (h : Smooth fun t => a t ^ b t) :
    (binary .pow x y).Follows fun t => a t ^ b t :=
  hx.image₂ hy (g := fun r s => r ^ s) h

theorem rate_pow (h : 0 < x) : rate (binary .pow x y) =
    y * binary .pow x (y - 1) * rate x + binary .pow x y * unary .ln x * rate y := by
  have hx := x.follows_path
  have hy := y.follows_path
  have hpos := (follows_zero.lt_iff hx).mp h
  have hpow : ∀ {z : Moving} {c : ℝ → ℝ}, z.Follows c →
      (binary .pow x z).Follows fun t => x.path t ^ c t := fun hz => by
    refine hx.pow hz ?_
    filter_upwards [hx.1, hz.1, hpos] with t ha hc ht using analyticAt_pow ha hc ht
  have hln := hx.smooth_unary (f := .ln) trivial hpos
  have hbase := (hy.mul (hpow (hy.sub follows_one))).mul hx.rate_follows
  have hexponent := ((hpow hy).mul hln).mul hy.rate_follows
  refine (hpow hy).rate_follows.unique (hbase.add hexponent) ?_
  filter_upwards [hx.1, hy.1, hpos] with t ha hb ht
  refine (ha.differentiableAt.hasDerivAt.rpow hb.differentiableAt.hasDerivAt ht).deriv.trans ?_
  change _ = y.path t * x.path t ^ (y.path t - 1) * deriv x.path t +
    x.path t ^ y.path t * Real.log (x.path t) * deriv y.path t
  ring

theorem rate_zero_pow (h : 1 ≤ y ∨ y = 0) : rate (binary .pow (0 : Moving) y) = 0 := by
  obtain ⟨c, hc⟩ : ∃ c : ℝ, (binary .pow (0 : Moving) y).Follows fun _ => c := by
    rcases h with hone | rfl
    · have hy := y.follows_path
      have hpos := (follows_zero.lt_iff hy).mp (one_pos.trans_le hone)
      have hnear : ∀ᶠ t in (times : Filter ℝ),
          (fun u => (0 : ℝ) ^ y.path u) =ᶠ[nhds t] fun _ => 0 := by
        filter_upwards [hy.1, hpos] with t hb ht
        filter_upwards [hb.continuousAt.eventually (lt_mem_nhds ht)] with u hu
        exact Real.zero_rpow hu.ne'
      have hsmooth : Smooth fun u => (0 : ℝ) ^ y.path u :=
        hnear.mono fun _ h => analyticAt_const.congr h.symm
      exact ⟨0, (follows_zero.pow hy hsmooth).congr hnear⟩
    · exact ⟨_, follows_zero.pow follows_zero (.of_forall fun _ => analyticAt_const)⟩
  exact hc.rate_follows.unique follows_zero (.of_forall fun _ => deriv_const _ _)

theorem rate_pow_constant (hy : rate y = 0) (h : x ≠ 0 ∨ 1 ≤ y ∨ y = 0) :
    rate (binary .pow x y) = y * binary .pow x (y - 1) * rate x := by
  by_cases hzero : x = 0
  · subst hzero
    rw [rate_zero_pow (h.resolve_left fun hne => hne rfl), map_zero, mul_zero]
  · have hx := x.follows_path
    have hpath := y.follows_path
    have hne := (hx.ne_iff follows_zero).mp hzero
    have hrest := hpath.eventually_const hy
    have hpow : ∀ {z : Moving} {c : ℝ → ℝ}, z.Follows c →
        (∀ᶠ t in (times : Filter ℝ), c =ᶠ[nhds t] fun _ => c t) →
        (binary .pow x z).Follows fun t => x.path t ^ c t := by
      intro z c hz hc
      refine hx.pow hz ?_
      filter_upwards [hx.1, hc, hne] with t ha hct ht
      have hfixed : AnalyticAt ℝ (fun u => x.path u ^ c t) t :=
        (Real.contDiffAt_rpow_const_of_ne ht).analyticAt.fun_comp ha
      exact hfixed.congr (hct.mono fun u hu => congrArg (x.path u ^ ·) hu.symm)
    have hless : ∀ᶠ t in (times : Filter ℝ),
        (fun u => y.path u - 1) =ᶠ[nhds t] fun _ => y.path t - 1 :=
      hrest.mono fun _ h => h.sub (.refl _ _)
    refine (hpow hpath hrest).rate_follows.unique
      ((hpath.mul (hpow (hpath.sub follows_one) hless)).mul hx.rate_follows) ?_
    filter_upwards [hx.1, hrest, hne] with t ha hb ht
    have hfixed : (fun u => x.path u ^ y.path u) =ᶠ[nhds t] fun u => x.path u ^ y.path t :=
      hb.mono fun u hu => congrArg (x.path u ^ ·) hu
    refine hfixed.deriv_eq.trans
      ((ha.differentiableAt.hasDerivAt.rpow_const (.inl ht)).deriv.trans ?_)
    change deriv x.path t * y.path t * x.path t ^ (y.path t - 1) =
      y.path t * x.path t ^ (y.path t - 1) * deriv x.path t
    ring

theorem calculus_rate : Calculus rate where
  unary f x h := by
    have hx := x.follows_path
    have htrunc : ∀ y : Moving, rate (image (realUnary · .trunc) y) = 0 :=
      rate_image_eq_zero fun _ => ⟨_, rfl⟩
    cases f with
    | exp | exp2 | expm1 | ln | ln1p | log2 | log10 | sqrt | cbrt | reciprocal | sin | cos | tan
    | asin | acos | atan | sinh | cosh | tanh | asinh | acosh | atanh | toDegrees | toRadians =>
      exact rate_unary hx trivial h
    | abs =>
      have hne : x ≠ 0 := h
      change rate |x| = (if 0 < x then 1 else -1) * rate x
      by_cases hpos : 0 < x
      · rw [abs_of_pos hpos, if_pos hpos, one_mul]
      · rw [abs_of_nonpos (not_lt.mp hpos), if_neg hpos, map_neg, neg_one_mul]
    | sign =>
      change rate (if 0 ≤ x then 1 else -1) = 0 * rate x
      rw [zero_mul]
      split
      · exact rate.map_one_eq_zero
      · rw [map_neg, rate.map_one_eq_zero, neg_zero]
    | fraction =>
      change rate (x - image (realUnary · .trunc) x) = 1 * rate x
      rw [map_sub, htrunc, sub_zero, one_mul]
    | floor | ceil | trunc =>
      exact (rate_image_eq_zero (fun _ => ⟨_, rfl⟩) x).trans (zero_mul _).symm
    | round => exact (rate_image_eq_zero exists_round x).trans (zero_mul _).symm
  pow _ _ h := rate_pow h
  pow_constant _ _ hp h := rate_pow_constant hp h
  atan2 y x h := by
    have hx := x.follows_path
    have hy := y.follows_path
    have hslit : ∀ᶠ t in (times : Filter ℝ), y.path t ≠ 0 ∨ 0 < x.path t :=
      Ultrafilter.eventually_or.mpr
        (h.imp (hy.ne_iff follows_zero).mp (follows_zero.lt_iff hx).mp)
    have hangle := hy.image₂ hx (g := (realBinary · · .atan2)) (by
      filter_upwards [hx.1, hy.1, hslit] with t ha hb ht using analyticAt_atan2 ha hb ht)
    refine hangle.rate_follows.unique
      (((hx.mul hy.rate_follows).sub (hy.mul hx.rate_follows)).div (hx.sq.add hy.sq)) ?_
    filter_upwards [hx.1, hy.1, hslit] with t ha hb ht
    exact (hasDerivAt_atan2 ha.differentiableAt.hasDerivAt hb.differentiableAt.hasDerivAt ht).deriv
  hypot x y h := by
    have hx := x.follows_path
    have hy := y.follows_path
    have hne : ∀ᶠ t in (times : Filter ℝ), x.path t ≠ 0 ∨ y.path t ≠ 0 :=
      Ultrafilter.eventually_or.mpr
        (h.imp (hx.ne_iff follows_zero).mp (hy.ne_iff follows_zero).mp)
    have hlength := hx.image₂ hy (g := (realBinary · · .hypot)) (by
      filter_upwards [hx.1, hy.1, hne] with t ha hb ht using analyticAt_hypot ha hb ht)
    refine hlength.rate_follows.unique
      (((hx.mul hx.rate_follows).add (hy.mul hy.rate_follows)).div hlength) ?_
    filter_upwards [hx.1, hy.1, hne] with t ha hb ht
    exact (hasDerivAt_hypot ha.differentiableAt.hasDerivAt hb.differentiableAt.hasDerivAt ht).deriv

end Functions

end Moving

end

end Autodiff
