import Mathlib
import Autodiff.Primitive.Catalog
import Autodiff.Proofs.Number.Extended

set_option autoImplicit false

namespace Autodiff

open Functions (unary binary)

variable {K : Type} [Field K] [LinearOrder K] [Functions K]

namespace Extended

theorem max_spec {x y : Extended K} (hx : x ≠ nan) (hy : y ≠ nan) :
    binary .max x y ≠ nan ∧
      (binary .max x y = infinite false ↔ x = infinite false ∨ y = infinite false) ∧
      (binary .max x y = infinite true ↔ x = infinite true ∧ y = infinite true) := by
  change maximum x y ≠ nan ∧ (maximum x y = infinite false ↔ _) ∧ (maximum x y = infinite true ↔ _)
  cases x with
  | nan => exact absurd rfl hx
  | real a =>
    cases y with
    | nan => exact absurd rfl hy
    | real b => simp [maximum]
    | infinite b => cases b <;> simp [maximum]
  | infinite a =>
    cases y with
    | nan => exact absurd rfl hy
    | real b => cases a <;> simp [maximum]
    | infinite b => cases a <;> cases b <;> simp [maximum]

theorem foldl_max_spec {xs : List (Extended K)} (hxs : nan ∉ xs) {m : Extended K} (hm : m ≠ nan) :
    xs.foldl (binary .max) m ≠ nan ∧
      (xs.foldl (binary .max) m = infinite false ↔ m = infinite false ∨ infinite false ∈ xs) ∧
      (xs.foldl (binary .max) m = infinite true ↔
        m = infinite true ∧ ∀ x ∈ xs, x = infinite true) := by
  induction xs generalizing m with
  | nil => simp [hm]
  | cons x xs ih =>
    obtain ⟨hx, hxs⟩ := List.ne_and_not_mem_of_not_mem_cons hxs
    obtain ⟨hnan, hpos, hneg⟩ := max_spec hm (Ne.symm hx)
    obtain ⟨ihnan, ihpos, ihneg⟩ := ih hxs hnan
    refine ⟨ihnan, ?_, ?_⟩
    · rw [List.foldl_cons, ihpos, hpos, List.mem_cons, or_assoc, eq_comm (a := x)]
    · rw [List.foldl_cons, ihneg, hneg, List.forall_mem_cons, and_assoc]

theorem exists_foldl_max {xs : List (Extended K)} (hnan : nan ∉ xs) (hpos : infinite false ∉ xs)
    (hreal : ∃ x ∈ xs, x ≠ infinite true) :
    ∃ m, xs.foldl (binary .max) (infinite true) = real m := by
  obtain ⟨hne, hfalse, htrue⟩ := foldl_max_spec hnan (m := infinite true) nofun
  cases hm : xs.foldl (binary .max) (infinite true) with
  | real m => exact ⟨m, rfl⟩
  | nan => exact absurd hm hne
  | infinite a =>
    cases a with
    | false =>
      rcases hfalse.mp hm with h | h
      · cases h
      · exact absurd h hpos
    | true =>
      obtain ⟨x, hx, hne⟩ := hreal
      exact absurd ((htrue.mp hm).2 x hx) hne

theorem max_add [IsStrictOrderedRing K] (x y : Extended K) (c : K) :
    binary .max (x + real c) (y + real c) = binary .max x y + real c := by
  change maximum (x + real c) (y + real c) = maximum x y + real c
  cases x with
  | nan => cases y <;> rfl
  | infinite a => cases a <;> cases y <;> rfl
  | real a =>
    cases y with
    | nan => rfl
    | infinite b => cases b <;> rfl
    | real b => exact congrArg real (max_add_add_right a b c)

theorem foldl_max_add [IsStrictOrderedRing K] (xs : List (Extended K)) (m : Extended K) (c : K) :
    (xs.map (· + real c)).foldl (binary .max) (m + real c) =
      xs.foldl (binary .max) m + real c := by
  induction xs generalizing m with
  | nil => rfl
  | cons x xs ih =>
    rw [List.map_cons, List.foldl_cons, List.foldl_cons, max_add]
    exact ih _

def weight : Extended K → K
  | real x => unary .exp x
  | _ => 0

theorem weight_nonneg [ExponentialLaws K] (x : Extended K) : 0 ≤ x.weight := by
  cases x with
  | real a => exact (ExponentialLaws.exp_pos a).le
  | infinite | nan => exact le_rfl

/-- The sum of the exponentials of all operands. -/
def total (xs : List (Extended K)) : K := (xs.map weight).sum

variable {xs : List (Extended K)}

theorem total_pos [IsStrictOrderedRing K] [ExponentialLaws K] {a : K} (h : real a ∈ xs) :
    0 < total xs := by
  have hle : weight (real a) ≤ total xs := by
    refine List.single_le_sum (fun w hw => ?_) _ (List.mem_map_of_mem h)
    obtain ⟨x, -, rfl⟩ := List.mem_map.mp hw
    exact x.weight_nonneg
  exact lt_of_lt_of_le (ExponentialLaws.exp_pos a) hle

def Summable {K : Type} (x : Extended K) : Prop := x ≠ nan ∧ x ≠ infinite false

omit [Field K] [LinearOrder K] [Functions K] in
theorem summable_of_not_mem (hnan : nan ∉ xs) (hpos : infinite false ∉ xs) :
    ∀ x ∈ xs, x.Summable :=
  fun _ hx => ⟨fun h => hnan (h ▸ hx), fun h => hpos (h ▸ hx)⟩

variable {x : Extended K}

omit [Field K] [LinearOrder K] [Functions K] in
theorem Summable.cases (h : x.Summable) : x = infinite true ∨ ∃ a, x = real a := by
  match x, h with
  | real a, _ => exact .inr ⟨a, rfl⟩
  | infinite true, _ => exact .inl rfl
  | infinite false, h => exact absurd rfl h.2
  | nan, h => exact absurd rfl h.1

theorem Summable.exp_eq (h : x.Summable) : unary .exp x = real x.weight := by
  rcases h.cases with rfl | ⟨a, rfl⟩
  · rfl
  · rfl

theorem Summable.exp_sub [ExponentialLaws K] (h : x.Summable) (m : K) :
    unary .exp (x - real m) = real (x.weight * unary .exp (-m)) := by
  rcases h.cases with rfl | ⟨a, rfl⟩
  · exact congrArg real (zero_mul _).symm
  · rw [real_sub, exp_real, sub_eq_add_neg, ExponentialLaws.exp_add]
    rfl

theorem sum_exp (h : ∀ x ∈ xs, x.Summable) : (xs.map (unary .exp)).sum = real (total xs) := by
  induction xs with
  | nil => rfl
  | cons x xs ih =>
    obtain ⟨hx, hxs⟩ := List.forall_mem_cons.mp h
    rw [List.map_cons, List.sum_cons, ih hxs, hx.exp_eq, real_add]
    rfl

/-- The sum around `m` is the sum of all terms, scaled. -/
theorem foldl_exp [ExponentialLaws K] (h : ∀ x ∈ xs, x.Summable) (m c : K) :
    xs.foldl (fun acc x => acc + unary .exp (x - real m)) (real c) =
      real (c + total xs * unary .exp (-m)) := by
  induction xs generalizing c with
  | nil => simp [total]
  | cons x xs ih =>
    obtain ⟨hx, hxs⟩ := List.forall_mem_cons.mp h
    rw [List.foldl_cons, hx.exp_sub, real_add, ih hxs]
    simp only [total, List.map_cons, List.sum_cons]
    congr 1
    ring

omit [Functions K] in
theorem sum_map_real (ws : List K) : (ws.map real).sum = real ws.sum := by
  induction ws with
  | nil => rfl
  | cons w ws ih =>
    rw [List.map_cons, List.sum_cons, ih, real_add, List.sum_cons]

def shares (xs : List (Extended K)) : List K := xs.map fun x => weight x / total xs

theorem sum_shares (h : 0 < total xs) : (shares xs).sum = 1 := by
  simp only [shares, div_eq_mul_inv, List.sum_map_mul_right]
  exact mul_inv_cancel₀ h.ne'

theorem exp_mul_exp_neg [IsStrictOrderedRing K] [ExponentialLaws K] (c : K) :
    unary .exp c * unary .exp (-c) = 1 := by
  have hzero : unary .exp (0 : K) * unary .exp (0 : K) = unary .exp (0 : K) * 1 := by
    rw [← ExponentialLaws.exp_add, add_zero, mul_one]
  rw [← ExponentialLaws.exp_add, add_neg_cancel]
  exact mul_left_cancel₀ (ExponentialLaws.exp_pos 0).ne' hzero

theorem exp_mul_exp_neg_add [IsStrictOrderedRing K] [ExponentialLaws K] (m c : K) :
    unary .exp c * unary .exp (-(m + c)) = unary .exp (-m) := by
  rw [neg_add, ExponentialLaws.exp_add, mul_left_comm, exp_mul_exp_neg, mul_one]

omit [Functions K] in
theorem Summable.add (h : x.Summable) (c : K) : (x + real c).Summable := by
  rcases h.cases with rfl | ⟨a, rfl⟩
  · exact ⟨nofun, nofun⟩
  · exact ⟨nofun, nofun⟩

theorem Summable.weight_add [ExponentialLaws K] (h : x.Summable) (c : K) :
    weight (x + real c) = weight x * unary .exp c := by
  rcases h.cases with rfl | ⟨a, rfl⟩
  · exact (zero_mul _).symm
  · exact ExponentialLaws.exp_add a c

omit [Functions K] in
theorem summable_shifted (h : ∀ x ∈ xs, x.Summable) (c : K) :
    ∀ x ∈ xs.map (· + real c), x.Summable := by
  intro y hy
  obtain ⟨x, hx, rfl⟩ := List.mem_map.mp hy
  exact (h x hx).add c

theorem total_shifted [ExponentialLaws K] (h : ∀ x ∈ xs, x.Summable) (c : K) :
    total (xs.map (· + real c)) = total xs * unary .exp c := by
  induction xs with
  | nil => exact (zero_mul _).symm
  | cons x xs ih =>
    obtain ⟨hx, hxs⟩ := List.forall_mem_cons.mp h
    simp only [total, List.map_cons, List.sum_cons] at ih ⊢
    rw [ih hxs, hx.weight_add, add_mul]

open Primitive (logSumExp logSumExpValue)

theorem eval_list (xs : List (Extended K)) :
    (logSumExp xs.length).eval xs = logSumExpValue xs := by
  have hargs : xs.length = (logSumExp xs.length : Primitive (Extended K)).arity := rfl
  rw [Primitive.eval, Primitive.operands, dif_pos hargs]
  rfl

theorem partials_list {len : ℕ} (args : Vector (Extended K) len) (y : Extended K) :
    ((logSumExp len).partials args y).toList =
      if Functions.eq y (infinite true) then List.replicate len 0
      else args.toList.map fun x => unary .exp (x - y) := by
  change (if Functions.eq y (infinite true) then Vector.replicate len 0
    else args.map fun x => unary .exp (x - y)).toList = _
  split
  · exact Vector.toList_replicate
  · exact Vector.toList_map

theorem gradient_list (xs : List (Extended K)) (y : Extended K) :
    (logSumExp xs.length).gradient xs y =
      .ok (if Functions.eq y (infinite true) then List.replicate xs.length 0
        else xs.map fun x => unary .exp (x - y)) := by
  have hargs : xs.length = (logSumExp xs.length : Primitive (Extended K)).arity := rfl
  rw [Primitive.gradient, Primitive.operands, dif_pos hargs]
  exact congrArg Except.ok (partials_list _ y)

theorem find?_isNaN (h : nan ∉ xs) : xs.find? Primitive.isNaN = none := by
  refine List.find?_eq_none.mpr fun x hx hnan => h ?_
  rwa [(isNan_iff x).mp hnan] at hx

theorem eval_nan {y : Extended K} (h : xs.find? Primitive.isNaN = some y) :
    (logSumExp xs.length).eval xs = Primitive.refuse "log_sum_exp" "x" y "a number" := by
  rw [eval_list, logSumExpValue, h]

theorem eval_infinity (hnan : nan ∉ xs) (h : infinite false ∈ xs) :
    (logSumExp xs.length).eval xs =
      Primitive.refuse "log_sum_exp" "max(x)" (infinite false) "finite" := by
  have hmax : xs.foldl (binary .max) (infinite true) = infinite false :=
    (foldl_max_spec hnan (m := infinite true) nofun).2.1.mpr (.inr h)
  rw [eval_list, logSumExpValue, find?_isNaN hnan]
  simp only [constant_negInfinity, hmax]
  rfl

theorem eval_flat (h : ∀ x ∈ xs, x = infinite true) :
    (logSumExp xs.length).eval xs = .ok (infinite true) := by
  have hnan : nan ∉ xs := fun hx => by cases h _ hx
  have hmax : xs.foldl (binary .max) (infinite true) = infinite true :=
    (foldl_max_spec hnan (m := infinite true) nofun).2.2.mpr ⟨rfl, h⟩
  rw [eval_list, logSumExpValue, find?_isNaN hnan]
  simp only [constant_negInfinity, hmax]
  rfl

variable [IsStrictOrderedRing K] [ExponentialLaws K]

def around (xs : List (Extended K)) (m : K) : K :=
  m + unary .ln (total xs * unary .exp (-m))

theorem exp_around (m : K) (h : 0 < total xs) : unary .exp (around xs m) = total xs := by
  have hscaled : 0 < total xs * unary .exp (-m) := mul_pos h (ExponentialLaws.exp_pos _)
  calc
    unary .exp (around xs m)
      = unary .exp m * (total xs * unary .exp (-m)) := by
        rw [around, ExponentialLaws.exp_add, ExponentialLaws.exp_ln _ hscaled]
    _ = total xs * (unary .exp m * unary .exp (-m)) := mul_left_comm _ _ _
    _ = total xs := by rw [exp_mul_exp_neg, mul_one]

theorem around_shifted (h : ∀ x ∈ xs, x.Summable) (m c : K) :
    around (xs.map (· + real c)) (m + c) = around xs m + c := by
  rw [around, total_shifted h, mul_assoc, exp_mul_exp_neg_add, around, add_right_comm]

theorem eval_around (h : ∀ x ∈ xs, x.Summable) (hpos : 0 < total xs) {m : K}
    (hmax : xs.foldl (binary .max) (infinite true) = real m) :
    (logSumExp xs.length).eval xs = .ok (real (around xs m)) := by
  have hnan : nan ∉ xs := fun hx => (h _ hx).1 rfl
  have hscaled : 0 < total xs * unary .exp (-m) := mul_pos hpos (ExponentialLaws.exp_pos _)
  have hsum := foldl_exp h m 0
  rw [zero_add] at hsum
  rw [eval_list, logSumExpValue, find?_isNaN hnan]
  simp only [constant_negInfinity, hmax, real_zero, hsum, ln_real hscaled, real_add]
  rfl

omit [IsStrictOrderedRing K] in
theorem shares_shifted (h : ∀ x ∈ xs, x.Summable) (c : K) :
    shares (xs.map (· + real c)) = shares xs := by
  rw [shares, List.map_map, total_shifted h]
  refine List.map_congr_left fun x hx => ?_
  rw [Function.comp_apply, (h x hx).weight_add,
    mul_div_mul_right _ _ (ExponentialLaws.exp_pos c).ne']

theorem gradient_shares (h : ∀ x ∈ xs, x.Summable) {v : K} (hv : unary .exp v = total xs) :
    (logSumExp xs.length).gradient xs (real v) = .ok ((shares xs).map real) := by
  have hneg : unary .exp (-v) = (total xs)⁻¹ := by
    rw [← hv]
    exact (inv_eq_of_mul_eq_one_right (exp_mul_exp_neg v)).symm
  rw [gradient_list]
  refine congrArg Except.ok ?_
  change xs.map (fun x => unary .exp (x - real v)) = (xs.map _).map real
  rw [List.map_map]
  refine List.map_congr_left fun x hx => ?_
  rw [(h x hx).exp_sub, hneg, ← div_eq_mul_inv]
  rfl

/-- The number `v` is the logarithm of the sum of the exponentials of `xs`, and `ps` are the shares
of the terms. -/
structure IsLogSum (xs : List (Extended K)) (v : K) (ps : List (Extended K)) : Prop where
  exp_value : unary .exp (real v) = (xs.map (unary .exp)).sum
  partials : ps = xs.map fun x => unary .exp x / (xs.map (unary .exp)).sum
  nonneg : ∀ p ∈ ps, Functions.le 0 p = true
  flat : ∀ i : ℕ, xs[i]? = some (infinite true) → ps[i]? = some 0
  sum_partials : ps.sum = 1

theorem isLogSum_shares (h : ∀ x ∈ xs, x.Summable) (hpos : 0 < total xs) {v : K}
    (hv : unary .exp v = total xs) : IsLogSum xs v ((shares xs).map real) where
  exp_value := by rw [exp_real, hv, sum_exp h]
  partials := by
    rw [sum_exp h, shares, List.map_map]
    refine List.map_congr_left fun x hx => ?_
    rw [(h x hx).exp_eq, real_div _ hpos.ne']
    rfl
  nonneg := by
    intro p hp
    obtain ⟨w, hw, rfl⟩ := List.mem_map.mp hp
    obtain ⟨x, -, rfl⟩ := List.mem_map.mp hw
    exact (le_real 0 _).mpr (div_nonneg x.weight_nonneg hpos.le)
  flat := by
    intro i hi
    simp only [shares, List.getElem?_map, hi, Option.map_some, weight, zero_div, real_zero]
  sum_partials := by rw [sum_map_real, sum_shares hpos, real_one]

end Extended

namespace Primitive

open Extended (real infinite nan)

def LogSumExpIs (xs : List (Extended K)) (y : Extended K) (ps : List (Extended K)) : Prop :=
  (logSumExp xs.length).eval xs = .ok y ∧ (logSumExp xs.length).gradient xs y = .ok ps

theorem logSumExpIs_flat {xs : List (Extended K)} (h : ∀ x ∈ xs, x = infinite true) :
    LogSumExpIs xs (infinite true) (List.replicate xs.length 0) :=
  ⟨Extended.eval_flat h, Extended.gradient_list xs _⟩

theorem logSumExp_undefined {xs : List (Extended K)} (h : nan ∈ xs) :
    ∃ y, xs.find? isNaN = some y ∧
      (logSumExp xs.length).eval xs = refuse "log_sum_exp" "x" y "a number" := by
  obtain ⟨y, hy⟩ := Option.isSome_iff_exists.mp
    (List.find?_isSome.mpr ⟨nan, h, (Extended.isNan_iff nan).mpr rfl⟩)
  exact ⟨y, hy, Extended.eval_nan hy⟩

variable [IsStrictOrderedRing K] [ExponentialLaws K] {xs : List (Extended K)}

theorem logSumExpIs_around (h : ∀ x ∈ xs, x.Summable) (hpos : 0 < Extended.total xs) {m : K}
    (hmax : xs.foldl (binary .max) (infinite true) = real m) :
    LogSumExpIs xs (real (Extended.around xs m)) ((Extended.shares xs).map real) :=
  ⟨Extended.eval_around h hpos hmax, Extended.gradient_shares h (Extended.exp_around m hpos)⟩

theorem logSumExpIs_shifted (h : ∀ x ∈ xs, x.Summable) (hpos : 0 < Extended.total xs) {m : K}
    (hmax : xs.foldl (binary .max) (infinite true) = real m) (c : K) :
    LogSumExpIs (xs.map (· + real c)) (real (Extended.around xs m + c))
      ((Extended.shares xs).map real) := by
  have hpos' : 0 < Extended.total (xs.map (· + real c)) := by
    rw [Extended.total_shifted h]
    exact mul_pos hpos (ExponentialLaws.exp_pos c)
  have hmax' : (xs.map (· + real c)).foldl (binary .max) (infinite true) = real (m + c) := by
    have hshift := Extended.foldl_max_add xs (infinite true) c
    rwa [hmax] at hshift
  rw [← Extended.around_shifted h, ← Extended.shares_shifted h c]
  exact logSumExpIs_around (Extended.summable_shifted h c) hpos' hmax'

theorem exists_logSum (hnan : nan ∉ xs) (hinf : infinite false ∉ xs)
    (hreal : ∃ x ∈ xs, x ≠ infinite true) :
    ∃ v ps, LogSumExpIs xs (real v) ps ∧ Extended.IsLogSum xs v ps ∧
      ∀ c, LogSumExpIs (xs.map (· + real c)) (real (v + c)) ps := by
  have h := Extended.summable_of_not_mem hnan hinf
  obtain ⟨m, hm⟩ := Extended.exists_foldl_max hnan hinf hreal
  have hpos : 0 < Extended.total xs := by
    obtain ⟨x, hx, hne⟩ := hreal
    obtain rfl | ⟨a, rfl⟩ := (h x hx).cases
    · exact absurd rfl hne
    · exact Extended.total_pos hx
  exact ⟨_, _, logSumExpIs_around h hpos hm,
    Extended.isLogSum_shares h hpos (Extended.exp_around m hpos), logSumExpIs_shifted h hpos hm⟩

/-- Log-sum-exp refuses undefined and positively infinite operands, is flat where no operand is
finite, and otherwise is the logarithm of the sum of exponentials with the shares of the terms as
gradient. A number added to all operands is added to the result. -/
theorem logSumExp_softmax (xs : List (Extended K)) :
    ((∃ e, (logSumExp xs.length).eval xs = .error e) ↔ nan ∈ xs ∨ infinite false ∈ xs) ∧
      (nan ∈ xs → ∃ y, xs.find? isNaN = some y ∧
        (logSumExp xs.length).eval xs = refuse "log_sum_exp" "x" y "a number") ∧
      (nan ∉ xs → infinite false ∈ xs →
        (logSumExp xs.length).eval xs =
          refuse "log_sum_exp" "max(x)" (infinite false) "finite") ∧
      ((∀ x ∈ xs, x = infinite true) →
        LogSumExpIs xs (infinite true) (List.replicate xs.length 0)) ∧
      (nan ∉ xs → infinite false ∉ xs → (∃ x ∈ xs, x ≠ infinite true) →
        ∃ v ps, LogSumExpIs xs (real v) ps ∧ Extended.IsLogSum xs v ps ∧
          ∀ c, LogSumExpIs (xs.map (· + real c)) (real (v + c)) ps) := by
  refine ⟨⟨fun ⟨e, he⟩ => ?_, fun h => ?_⟩, logSumExp_undefined, Extended.eval_infinity,
    logSumExpIs_flat, exists_logSum⟩
  · by_contra hneither
    obtain ⟨hnan, hinf⟩ := not_or.mp hneither
    by_cases hall : ∀ x ∈ xs, x = infinite true
    · cases he.symm.trans (Extended.eval_flat hall)
    · push Not at hall
      obtain ⟨v, ps, ⟨heval, -⟩, -⟩ := exists_logSum hnan hinf hall
      cases he.symm.trans heval
  · by_cases hnan : nan ∈ xs
    · obtain ⟨y, -, heval⟩ := logSumExp_undefined hnan
      exact ⟨_, heval⟩
    · exact ⟨_, Extended.eval_infinity hnan (h.resolve_left hnan)⟩

theorem logSumExp_softmax_halves :
    ∃ v : ℝ, (logSumExp 3).eval [real 0, infinite true, real 0] = .ok (real v) ∧ Real.exp v = 2 ∧
      (logSumExp 3).gradient [real 0, infinite true, real 0] (real v) =
        .ok [real (1 / 2), real 0, real (1 / 2)] := by
  obtain ⟨-, -, -, -, hfinite⟩ := logSumExp_softmax [real (0 : ℝ), infinite true, real 0]
  obtain ⟨v, ps, ⟨heval, hgradient⟩, hsum, -⟩ :=
    hfinite (by simp) (by simp) ⟨real 0, by simp, nofun⟩
  have htotal : (([real (0 : ℝ), infinite true, real 0]).map (unary .exp)).sum = real 2 := by
    rw [Extended.sum_exp (Extended.summable_of_not_mem (by simp) (by simp))]
    simp only [Extended.total, Extended.weight, List.map_cons, List.map_nil, List.sum_cons,
      List.sum_nil]
    congr 1
    change Real.exp 0 + (0 + (Real.exp 0 + 0)) = 2
    norm_num
  have hv := hsum.exp_value
  rw [htotal] at hv
  refine ⟨v, heval, Extended.real.inj hv, hgradient.trans (congrArg Except.ok ?_)⟩
  rw [hsum.partials, htotal]
  have hdiv (x : ℝ) : real x / real 2 = real (x / 2) := Extended.real_div x two_ne_zero
  have hzero : Functions.unary UnaryFn.exp (0 : ℝ) = 1 := Real.exp_zero
  simp only [List.map_cons, List.map_nil, Extended.exp_real, Extended.exp_negInfinity, hdiv, hzero,
    zero_div]

end Primitive

end Autodiff
