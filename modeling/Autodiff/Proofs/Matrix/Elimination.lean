import Mathlib
import Autodiff.Matrix.Factorization
import Autodiff.Proofs.Matrix.Definite
import Autodiff.Proofs.Matrix.Entries

/-!
# Elimination of columns

The factorization replaces one column after another. `Eliminated a j m` relates the matrix `m`
after `j` columns to the input `a`: the columns still to come are those of `a`, and the columns done
hold pivots and multipliers from which those of `a` can be recovered. Only the lower triangle of `a`
matters, so all that follows is about the symmetric table `s` that mirrors it. A pivot that is not
positive shows a leading block of `s` that is not positive definite.
-/

set_option autoImplicit false

namespace Autodiff.Factorization

open Finset (range sum_range_succ mem_range)

section Entries

variable {F : Type} [Field F]

theorem pivot_eq (m : Matrix F) (j : ℕ) :
    pivot m j = m.peek j j - ∑ k ∈ range j, m.peek j k * m.peek j k * m.peek k k :=
  Matrix.foldl_sub (fun k => m.peek j k * m.peek j k * m.peek k k) (m.peek j j) (List.range j)

theorem multiplier_eq (m : Matrix F) (j i : ℕ) (d : F) :
    multiplier m j i d =
      (m.peek i j - ∑ k ∈ range j, m.peek i k * m.peek j k * m.peek k k) / d :=
  congrArg (· / d)
    (Matrix.foldl_sub (fun k => m.peek i k * m.peek j k * m.peek k k) _ (List.range j))

def fill (m : Matrix F) (j s count : ℕ) (d : F) : Matrix F :=
  (List.range' s count).foldl (fun m i => m.poke i j (multiplier m j i d)) m

theorem fill_succ (m : Matrix F) (j s count : ℕ) (d : F) :
    fill m j s (count + 1) d = (fill m j s count d).poke (s + count) j
      (multiplier (fill m j s count d) j (s + count) d) := by
  rw [fill, List.range'_concat, List.foldl_append, List.foldl_cons, List.foldl_nil, Nat.one_mul]
  rfl

theorem fill_rows (m : Matrix F) (j s count : ℕ) (d : F) :
    (fill m j s count d).rows = m.rows := by
  induction count with
  | zero => rfl
  | succ count ih => rw [fill_succ, Matrix.rows_poke, ih]

theorem fill_cols (m : Matrix F) (j s count : ℕ) (d : F) :
    (fill m j s count d).cols = m.cols := by
  induction count with
  | zero => rfl
  | succ count ih => rw [fill_succ, Matrix.cols_poke, ih]

theorem peek_fill (m : Matrix F) {j s count : ℕ} (d : F) (hj : j < m.cols) (hjs : j < s)
    (hcount : s + count ≤ m.rows) (i k : ℕ) :
    (fill m j s count d).peek i k =
      if k = j ∧ s ≤ i ∧ i < s + count then multiplier m j i d else m.peek i k := by
  induction count generalizing i k with
  | zero =>
    rw [if_neg (by omega)]
    rfl
  | succ count ih =>
    have ih : ∀ i k, (fill m j s count d).peek i k =
        if k = j ∧ s ≤ i ∧ i < s + count then multiplier m j i d else m.peek i k :=
      ih (by omega)
    -- A multiplier reads earlier columns and its own entry, and the loop has written neither.
    have hsame : multiplier (fill m j s count d) j (s + count) d =
        multiplier m j (s + count) d := by
      rw [multiplier_eq, multiplier_eq, ih, if_neg (by omega)]
      congr 2
      refine Finset.sum_congr rfl fun t ht => ?_
      have ht : t < j := mem_range.mp ht
      rw [ih, if_neg (by omega), ih, if_neg (by omega), ih, if_neg (by omega)]
    rw [fill_succ, hsame]
    by_cases hik : i = s + count ∧ k = j
    · obtain ⟨rfl, rfl⟩ := hik
      rw [if_pos (by omega), Matrix.peek_poke_self]
      · rw [fill_rows]
        omega
      · rw [fill_cols]
        exact hj
    · rw [Matrix.peek_poke_ne _ _ hik, ih]
      exact if_congr (by omega) rfl rfl

def lower (m : Matrix F) (i k : ℕ) : F :=
  if i = k then 1 else if k < i then m.peek i k else 0

theorem unitLower_lower (m : Matrix F) : UnitLower (lower m) where
  diagonal _ := if_pos rfl
  upper i k hik := by rw [lower, if_neg (by omega), if_neg (by omega)]

theorem lower_below (m : Matrix F) {i k : ℕ} (h : k < i) : lower m i k = m.peek i k := by
  rw [lower, if_neg (by omega), if_pos h]

theorem sum_lower_row (m : Matrix F) {n i : ℕ} (hi : i < n) (y : ℕ → F) :
    ∑ k ∈ range n, lower m i k * y k = ∑ k ∈ range i, m.peek i k * y k + y i := by
  have hzero : ∀ k ∈ range n, k ∉ range (i + 1) → lower m i k * y k = 0 := by
    intro k _ hk
    rw [(unitLower_lower m).upper i k (by simpa using hk), zero_mul]
  rw [← Finset.sum_subset (Finset.range_mono hi) hzero, sum_range_succ,
    (unitLower_lower m).diagonal, one_mul]
  congr 1
  refine Finset.sum_congr rfl fun k hk => ?_
  rw [lower_below m (mem_range.mp hk)]

theorem sum_lower_column (m : Matrix F) {n i : ℕ} (hi : i < n) (x : ℕ → F) :
    ∑ k ∈ range n, lower m k i * x k = ∑ k ∈ Finset.Ico (i + 1) n, m.peek k i * x k + x i := by
  have hbelow : ∑ k ∈ Finset.Ico (i + 1) n, lower m k i * x k =
      ∑ k ∈ Finset.Ico (i + 1) n, m.peek k i * x k := by
    refine Finset.sum_congr rfl fun k hk => ?_
    rw [lower_below m (Finset.mem_Ico.mp hk).1]
  rw [← Finset.sum_range_add_sum_Ico _ (Nat.succ_le_of_lt hi), (unitLower_lower m).sum_last, hbelow,
    add_comm]

end Entries

section Run

variable {F : Type} [Field F] [LinearOrder F]

/-- The state after the columns before `j`. -/
structure Eliminated (a : Matrix F) (j : ℕ) (m : Matrix F) : Prop where
  rows : m.rows = a.rows
  cols : m.cols = a.rows
  pending : ∀ i k, j ≤ k → m.peek i k = a.peek i k
  positive : ∀ k < j, 0 < m.peek k k
  column : ∀ i k, k < j → k ≤ i → i < a.rows →
    a.peek i k = ∑ t ∈ range (k + 1), lower m i t * m.peek t t * lower m k t

/-- `s` is symmetric with the lower triangle of `a`. -/
structure Mirrors (a : Matrix F) (s : ℕ → ℕ → F) : Prop where
  symmetric : ∀ i k, i < a.rows → k < a.rows → s i k = s k i
  lower : ∀ i k, k ≤ i → i < a.rows → s i k = a.peek i k

def mirrored (a : Matrix F) (i k : ℕ) : F := if k ≤ i then a.peek i k else a.peek k i

variable {a m : Matrix F} {s : ℕ → ℕ → F} {j : ℕ}

omit [LinearOrder F] in
theorem mirrors_mirrored (a : Matrix F) : Mirrors a (mirrored a) where
  symmetric i k _ _ := by
    obtain hik | rfl | hki := Nat.lt_trichotomy i k
    · rw [mirrored, mirrored, if_neg (Nat.not_le.mpr hik), if_pos hik.le]
    · rfl
    · rw [mirrored, mirrored, if_pos hki.le, if_neg (Nat.not_le.mpr hki)]
  lower _ _ hki _ := if_pos hki

omit [LinearOrder F] in
theorem Mirrors.ofSymmetric (h : ∀ i k, i < a.rows → k < a.rows → a.peek i k = a.peek k i) :
    Mirrors a a.peek where
  symmetric := h
  lower _ _ _ _ := rfl

theorem eliminated_zero (h : a.rows = a.cols) : Eliminated a 0 a where
  rows := rfl
  cols := h.symm
  pending _ _ _ := rfl
  positive k hk := absurd hk (Nat.not_lt_zero k)
  column _ k hk := absurd hk (Nat.not_lt_zero k)

def replaced (m : Matrix F) (j : ℕ) : Matrix F :=
  fill (m.poke j j (pivot m j)) j (j + 1) (m.rows - (j + 1)) (pivot m j)

namespace Eliminated

theorem column_eq (h : Eliminated a j m) {i : ℕ} (hij : j ≤ i) {s : F}
    (hs : s * pivot m j = m.peek i j - ∑ k ∈ range j, m.peek i k * m.peek j k * m.peek k k) :
    a.peek i j = (∑ t ∈ range j, lower m i t * m.peek t t * lower m j t) + s * pivot m j := by
  have hsum : ∑ t ∈ range j, lower m i t * m.peek t t * lower m j t =
      ∑ k ∈ range j, m.peek i k * m.peek j k * m.peek k k := by
    refine Finset.sum_congr rfl fun t ht => ?_
    have ht : t < j := mem_range.mp ht
    rw [lower_below m ht, lower_below m (by omega)]
    ring
  rw [hs, hsum, h.pending i j (le_refl j)]
  ring

/-- Before column `j` is divided by its pivot, the leading block with that column decomposes. -/
theorem leading (h : Eliminated a j m) (hj : j < a.rows) (hs : Mirrors a s) :
    Decomposition (j + 1) s (lower m) (Function.update (fun t => m.peek t t) j (pivot m j)) := by
  have hd : ∀ t < j, Function.update (fun t => m.peek t t) j (pivot m j) t = m.peek t t :=
    fun t ht => Function.update_of_ne (Nat.ne_of_lt ht) _ _
  refine .ofLower (unitLower_lower m)
    (fun i k hi hk => hs.symmetric i k (by omega) (by omega)) ?_
  intro i k hki hi
  rw [hs.lower i k hki (by omega)]
  obtain hk | rfl := Nat.lt_or_eq_of_le (Nat.le_of_lt_succ (Nat.lt_of_le_of_lt hki hi))
  · rw [h.column i k hk hki (by omega)]
    refine Finset.sum_congr rfl fun t ht => ?_
    have ht : t < k + 1 := mem_range.mp ht
    rw [hd t (by omega)]
  -- In the last column of the block only the diagonal is left, where `L` is one.
  · obtain rfl : i = k := by omega
    rw [sum_range_succ, Function.update_self, (unitLower_lower m).diagonal]
    have hpivot : 1 * pivot m i =
        m.peek i i - ∑ k ∈ range i, m.peek i k * m.peek i k * m.peek k k := by
      rw [one_mul, pivot_eq]
    rw [h.column_eq (le_refl i) hpivot, mul_one, one_mul]
    congr 1
    refine Finset.sum_congr rfl fun t ht => ?_
    rw [hd t (mem_range.mp ht)]

theorem decomposition (h : Eliminated a j m) (hj : j ≤ a.rows) (hs : Mirrors a s) :
    Decomposition j s (lower m) fun t => m.peek t t := by
  refine .ofLower (unitLower_lower m)
    (fun i k hi hk => hs.symmetric i k (by omega) (by omega)) ?_
  intro i k hki hi
  rw [hs.lower i k hki (by omega)]
  exact h.column i k (by omega) hki (by omega)

theorem positiveDefinite [IsStrictOrderedRing F] (h : Eliminated a j m) (hj : j ≤ a.rows)
    (hs : Mirrors a s) : PositiveDefinite j s :=
  (h.decomposition hj hs).positiveDefinite h.positive

theorem not_positiveDefinite [IsStrictOrderedRing F] (h : Eliminated a j m) (hj : j < a.rows)
    (hs : Mirrors a s) (hd : pivot m j ≤ 0) : ¬PositiveDefinite (j + 1) s := by
  refine (h.leading hj hs).not_positiveDefinite ?_
  rw [Function.update_self]
  exact hd

theorem schurComplement [IsStrictOrderedRing F] (h : Eliminated a j m) (hj : j < a.rows)
    (hs : Mirrors a s) : SchurComplement j s (pivot m j) := by
  have hleft := (h.leading hj hs).schurComplement (h.positiveDefinite hj.le hs)
  rwa [Function.update_self] at hleft

theorem peek_replaced (h : Eliminated a j m) (hj : j < a.rows) (i k : ℕ) :
    (replaced m j).peek i k =
      if k = j ∧ j ≤ i ∧ i < a.rows then
        if i = j then pivot m j else multiplier m j i (pivot m j)
      else m.peek i k := by
  have hrows : m.rows = a.rows := h.rows
  have hcols : m.cols = a.rows := h.cols
  have hpoke : ∀ i k, ¬(i = j ∧ k = j) →
      (m.poke j j (pivot m j)).peek i k = m.peek i k :=
    fun i k hne => Matrix.peek_poke_ne m (pivot m j) hne
  rw [replaced, peek_fill _ _ (by rw [Matrix.cols_poke]; omega) (Nat.lt_succ_self j)
    (by rw [Matrix.rows_poke]; omega)]
  by_cases hkj : k = j
  · subst hkj
    by_cases hik : i = k
    · subst hik
      rw [if_neg (by omega), if_pos (by omega), if_pos rfl, Matrix.peek_poke_self]
      · omega
      · omega
    · by_cases hlt : k < i ∧ i < a.rows
      · rw [if_pos (by omega), if_pos (by omega), if_neg hik, multiplier_eq, multiplier_eq,
          hpoke i k (by omega)]
        congr 2
        refine Finset.sum_congr rfl fun t ht => ?_
        have ht : t < k := mem_range.mp ht
        rw [hpoke i t (by omega), hpoke k t (by omega), hpoke t t (by omega)]
      · rw [if_neg (by omega), if_neg (by omega), hpoke i k (by omega)]
  · rw [if_neg (by omega), if_neg (by omega), hpoke i k (by omega)]

theorem step (h : Eliminated a j m) (hj : j < a.rows) (hpos : 0 < pivot m j) :
    Eliminated a (j + 1) (replaced m j) := by
  -- Nothing outside column `j` changes.
  have hother : ∀ i k, k ≠ j → (replaced m j).peek i k = m.peek i k := by
    intro i k hkj
    rw [h.peek_replaced hj i k, if_neg (by omega)]
  have hpivot : (replaced m j).peek j j = pivot m j := by
    rw [h.peek_replaced hj j j, if_pos (by omega), if_pos rfl]
  have hlower : ∀ i k, k ≠ j → lower (replaced m j) i k = lower m i k := by
    intro i k hkj
    rw [lower, lower, hother i k hkj]
  have hentry : ∀ i, j ≤ i → i < a.rows → lower (replaced m j) i j * pivot m j =
      m.peek i j - ∑ k ∈ range j, m.peek i k * m.peek j k * m.peek k k := by
    intro i hji hi
    by_cases hij : i = j
    · subst hij
      rw [(unitLower_lower _).diagonal, one_mul, pivot_eq]
    · rw [lower_below _ (by omega), h.peek_replaced hj i j, if_pos (by omega), if_neg hij,
        multiplier_eq, div_mul_cancel₀ _ (ne_of_gt hpos)]
  refine ⟨?_, ?_, fun i k hk => ?_, fun k hk => ?_, fun i k hk hki hi => ?_⟩
  · rw [replaced, fill_rows, Matrix.rows_poke, h.rows]
  · rw [replaced, fill_cols, Matrix.cols_poke, h.cols]
  · rw [hother i k (by omega)]
    exact h.pending i k (by omega)
  · obtain hk | rfl := Nat.lt_succ_iff_lt_or_eq.mp hk
    · rw [hother k k (Nat.ne_of_lt hk)]
      exact h.positive k hk
    · rw [hpivot]
      exact hpos
  · have hdone : ∀ t < j, lower (replaced m j) i t * (replaced m j).peek t t *
        lower (replaced m j) k t = lower m i t * m.peek t t * lower m k t := by
      intro t ht
      rw [hlower i t (Nat.ne_of_lt ht), hlower k t (Nat.ne_of_lt ht), hother t t (Nat.ne_of_lt ht)]
    obtain hk | rfl := Nat.lt_succ_iff_lt_or_eq.mp hk
    · rw [h.column i k hk hki hi]
      refine Finset.sum_congr rfl fun t ht => (hdone t ?_).symm
      have ht : t < k + 1 := mem_range.mp ht
      omega
    · rw [h.column_eq hki (hentry i hki hi), sum_range_succ, hpivot,
        (unitLower_lower _).diagonal, mul_one]
      congr 1
      exact Finset.sum_congr rfl fun t ht => (hdone t (mem_range.mp ht)).symm

end Eliminated

variable [Functions F] [ExactOrderedField F]

theorem eliminate_positive (op : String) (hpos : 0 < pivot m j) :
    eliminate op m j = .ok (replaced m j) := by
  have hle : Functions.le (pivot m j) 0 = false := by
    rw [Bool.eq_false_iff, Ne, ExactOrderedField.le_iff]
    exact not_le.mpr hpos
  have hguard : (!Functions.test .finite (pivot m j) || Functions.le (pivot m j) 0) = false := by
    rw [ExactOrderedField.finite, hle]
    rfl
  exact if_neg (by rw [hguard]; exact Bool.false_ne_true)

theorem eliminate_nonpositive (op : String) (hd : pivot m j ≤ 0) :
    eliminate op m j = .error (.error (.notPositiveDefinite op j (pivot m j))) := by
  have hle : Functions.le (pivot m j) 0 = true := (ExactOrderedField.le_iff _ _).mpr hd
  exact if_pos (by rw [hle, Bool.or_true])

theorem eliminated_range (op : String) (hsquare : a.rows = a.cols) (hj : j ≤ a.rows) :
    (∃ m, (List.range j).foldlM (eliminate op) a = .ok m ∧ Eliminated a j m) ∨
      ∃ k m, k < j ∧ Eliminated a k m ∧ pivot m k ≤ 0 ∧
        (List.range j).foldlM (eliminate op) a =
          .error (.error (.notPositiveDefinite op k (pivot m k))) := by
  induction j with
  | zero => exact .inl ⟨a, rfl, eliminated_zero hsquare⟩
  | succ j ih =>
    rw [List.range_succ, List.foldlM_append]
    obtain ⟨m, hm, h⟩ | ⟨k, m, hk, h, hd, hm⟩ := ih (by omega)
    · rw [hm]
      change (∃ m', [j].foldlM (eliminate op) m = .ok m' ∧ Eliminated a (j + 1) m') ∨ ∃ k m',
        k < j + 1 ∧ Eliminated a k m' ∧ pivot m' k ≤ 0 ∧ [j].foldlM (eliminate op) m =
          .error (.error (.notPositiveDefinite op k (pivot m' k)))
      by_cases hpos : 0 < pivot m j
      · have hstep : [j].foldlM (eliminate op) m = .ok (replaced m j) := by
          rw [List.foldlM_cons, eliminate_positive op hpos]
          rfl
        exact .inl ⟨replaced m j, hstep, h.step (by omega) hpos⟩
      · have hd : pivot m j ≤ 0 := not_lt.mp hpos
        have hstep : [j].foldlM (eliminate op) m =
            .error (.error (.notPositiveDefinite op j (pivot m j))) := by
          rw [List.foldlM_cons, eliminate_nonpositive op hd]
          rfl
        exact .inr ⟨j, m, Nat.lt_succ_self j, h, hd, hstep⟩
    · refine .inr ⟨k, m, by omega, h, hd, ?_⟩
      rw [hm]
      rfl

variable [IsStrictOrderedRing F]

theorem ofMatrix_positiveDefinite (op : String) (hsquare : a.rows = a.cols) (hs : Mirrors a s)
    (hdef : PositiveDefinite a.rows s) :
    ∃ m, ofMatrix op a = .ok ⟨m⟩ ∧ Eliminated a a.rows m := by
  have hof : ofMatrix op a = ((List.range a.rows).foldlM (eliminate op) a).map .mk :=
    if_pos (beq_iff_eq.mpr hsquare)
  obtain ⟨m, hm, h⟩ | ⟨k, m, hk, h, hd, -⟩ := eliminated_range op hsquare (le_refl a.rows)
  · exact ⟨m, by rw [hof, hm]; rfl, h⟩
  · exact absurd (hdef.mono hk) (h.not_positiveDefinite hk hs hd)

theorem ofMatrix_not_positiveDefinite (op : String) (hsquare : a.rows = a.cols)
    (hs : Mirrors a s) (hdef : ¬PositiveDefinite a.rows s) :
    ∃ k d, IsLeast {k | k < a.rows ∧ ¬PositiveDefinite (k + 1) s} k ∧ d ≤ 0 ∧
      SchurComplement k s d ∧
      ofMatrix op a = .error (.error (.notPositiveDefinite op k d)) := by
  have hof : ofMatrix op a = ((List.range a.rows).foldlM (eliminate op) a).map .mk :=
    if_pos (beq_iff_eq.mpr hsquare)
  obtain ⟨m, -, h⟩ | ⟨k, m, hk, h, hd, hm⟩ := eliminated_range op hsquare (le_refl a.rows)
  · exact absurd (h.positiveDefinite (le_refl a.rows) hs) hdef
  · refine ⟨k, pivot m k, ⟨⟨hk, h.not_positiveDefinite hk hs hd⟩, ?_⟩, hd,
      h.schurComplement hk hs, by rw [hof, hm]; rfl⟩
    rintro i ⟨-, hi⟩
    by_contra hik
    exact hi ((h.positiveDefinite (by omega) hs).mono (by omega))

structure Factors (f : Factorization F) (n : ℕ) (s : ℕ → ℕ → F) : Prop where
  dim : f.dim = n
  positive : ∀ d ∈ f.diagonal, 0 < d
  product : ∀ i k, i < n → k < n →
    ∑ t ∈ range n, lower f.packed i t * f.diagonal.getD t 0 * lower f.packed k t = s i k

omit [Functions F] [ExactOrderedField F] [IsStrictOrderedRing F] in
theorem Eliminated.factors (h : Eliminated a a.rows m) (hs : Mirrors a s) :
    Factors ⟨m⟩ a.rows s where
  dim := h.rows
  positive d hd := by
    obtain ⟨t, ht, rfl⟩ := List.mem_map.mp hd
    have ht : t < m.rows := List.mem_range.mp ht
    exact h.positive t (h.rows ▸ ht)
  product i k hi hk := by
    rw [(h.decomposition (le_refl _) hs).product i k hi hk]
    refine Finset.sum_congr rfl fun t ht => ?_
    have ht : t < m.rows := h.rows.symm ▸ mem_range.mp ht
    have hdiagonal : (diagonal ⟨m⟩).getD t 0 = m.peek t t := by
      simp [diagonal, dim, ht]
    rw [hdiagonal]

/-- A square matrix is factored exactly if its lower triangle is that of a positive definite one,
and the error shows the first leading block that is not. -/
theorem ofMatrix_decides (op : String) (a : Matrix F) (hsquare : a.rows = a.cols) :
    ((∃ f, ofMatrix op a = .ok f) ↔ PositiveDefinite a.rows (mirrored a)) ∧
      (∀ f, ofMatrix op a = .ok f → Factors f a.rows (mirrored a)) ∧
      (¬PositiveDefinite a.rows (mirrored a) →
        ∃ j d, IsLeast {j | j < a.rows ∧ ¬PositiveDefinite (j + 1) (mirrored a)} j ∧ d ≤ 0 ∧
          SchurComplement j (mirrored a) d ∧
          ofMatrix op a = .error (.error (.notPositiveDefinite op j d))) := by
  have hs : Mirrors a (mirrored a) := mirrors_mirrored a
  by_cases hdef : PositiveDefinite a.rows (mirrored a)
  · obtain ⟨m, hm, h⟩ := ofMatrix_positiveDefinite op hsquare hs hdef
    refine ⟨⟨fun _ => hdef, fun _ => ⟨_, hm⟩⟩, fun f hf => ?_, fun hno => absurd hdef hno⟩
    obtain rfl : ⟨m⟩ = f := Except.ok.inj (hm.symm.trans hf)
    exact h.factors hs
  · obtain ⟨j, d, hleast, hd, hschur, herror⟩ := ofMatrix_not_positiveDefinite op hsquare hs hdef
    have hfails : ∀ f, ofMatrix op a ≠ .ok f := by
      intro f hf
      rw [herror] at hf
      cases hf
    exact ⟨⟨fun ⟨f, hf⟩ => absurd hf (hfails f), fun h => absurd h hdef⟩,
      fun f hf => absurd hf (hfails f), fun _ => ⟨j, d, hleast, hd, hschur, herror⟩⟩

end Run

def lopsided : Matrix ℚ := ⟨2, 2, #v[1, 7, 2, 1]⟩

theorem ofMatrix_decides_lopsided :
    lopsided.rows = lopsided.cols ∧
      IsLeast {j | j < 2 ∧ ¬PositiveDefinite (j + 1) (mirrored lopsided)} 1 ∧
      SchurComplement 1 (mirrored lopsided) (-3) := by
  obtain ⟨hiff, -, herror⟩ := ofMatrix_decides "ldlt" lopsided rfl
  have hrun : ofMatrix "ldlt" lopsided =
      .error (.error (.notPositiveDefinite "ldlt" 1 (-3))) := by
    cbv
  have hdef : ¬PositiveDefinite lopsided.rows (mirrored lopsided) := by
    intro hdef
    obtain ⟨f, hf⟩ := hiff.mpr hdef
    rw [hrun] at hf
    cases hf
  obtain ⟨j, d, hleast, -, hschur, hfail⟩ := herror hdef
  rw [hrun] at hfail
  cases hfail
  exact ⟨rfl, hleast, hschur⟩

end Autodiff.Factorization
