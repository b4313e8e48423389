import Mathlib.Data.Prod.Basic
import Mathlib.Logic.Function.Basic
import Autodiff.Proofs.Tape.Records
import Autodiff.Proofs.Tape.Sweep

/-!
# A tape inside another

The nodes of one tape may stand among those of another, in their order and with their own operands
only. A sweep gives them the adjoints that they have on the tape of their own: the other nodes start
with a zero adjoint, nothing is ever passed to them, and a zero adjoint passes nothing on. All this
ends when the spans of the larger tape are wrong.
-/

set_option autoImplicit false

namespace Autodiff.Tape

variable {F : Type}

/-- Node `i` of the first tape is node `place i` of the second. -/
structure Embeds (place : ℕ → ℕ) (t t' : Tape F) : Prop where
  mono : ∀ i j, i < j → j < t.size → place i < place j
  lt : ∀ i, i < t.size → place i < t'.size
  operands_le : t.operands.size ≤ t'.operands.size
  edges : t'.Addressable → ∀ i, i < t.size →
    t'.edges (place i) = (t.edges i).map (Prod.map place id)

namespace Embeds

variable {place : ℕ → ℕ} {t t' t'' : Tape F}

theorem refl (t : Tape F) : t.Embeds id t where
  mono _ _ hij _ := hij
  lt _ hi := hi
  operands_le := le_refl _
  edges _ _ _ := (List.map_id _).symm

theorem le_place (h : t.Embeds place t') {i : ℕ} (hi : i < t.size) : i ≤ place i := by
  induction i with
  | zero => exact Nat.zero_le _
  | succ i ih =>
    have hstep : place i < place (i + 1) := h.mono i (i + 1) (Nat.lt_succ_self i) hi
    have hle : i ≤ place i := ih (Nat.lt_of_succ_lt hi)
    omega

theorem size_le (h : t.Embeds place t') : t.size ≤ t'.size := by
  rcases Nat.eq_zero_or_pos t.size with hzero | hpos
  · omega
  · have hlast : t.size - 1 ≤ place (t.size - 1) := h.le_place (by omega)
    have hlt : place (t.size - 1) < t'.size := h.lt _ (by omega)
    omega

theorem lt_iff (h : t.Embeds place t') {i j : ℕ} (hi : i < t.size) (hj : j < t.size) :
    place i < place j ↔ i < j := by
  refine ⟨fun hlt => ?_, fun hlt => h.mono i j hlt hj⟩
  rcases Nat.lt_trichotomy i j with hij | rfl | hji
  · exact hij
  · exact absurd hlt (Nat.lt_irrefl _)
  · exact absurd (h.mono j i hji hi) (Nat.lt_asymm hlt)

theorem inj (h : t.Embeds place t') {i j : ℕ} (hi : i < t.size) (hj : j < t.size)
    (hij : place i = place j) : i = j := by
  have hlt := h.lt_iff hi hj
  have hgt := h.lt_iff hj hi
  omega

theorem eq_succ (h : t.Embeds place t') {i k : ℕ} (hi : i < t.size) (hk : k ≤ t.size)
    (hbelow : ∀ j, j < t.size → (place j < place i + 1 ↔ j < k)) : k = i + 1 := by
  have hik : i < k := (hbelow i hi).mp (Nat.lt_succ_self _)
  by_contra hne
  have hlt : i + 1 < t.size := by omega
  have hplace : place (i + 1) < place i + 1 := (hbelow (i + 1) hlt).mpr (by omega)
  have hmono : place i < place (i + 1) := h.mono i (i + 1) (Nat.lt_succ_self i) hlt
  omega

theorem grow (h : t.Embeds place t') (hwf : t'.WellFormed) (hinit : t'.Initial t'') :
    t.Embeds place t'' where
  mono := h.mono
  lt i hi := Nat.lt_of_lt_of_le (h.lt i hi) hinit.size_le
  operands_le := h.operands_le.trans hinit.size_operands_le
  edges haddr i hi :=
    (hinit.edges_eq hwf (h.lt i hi)).trans (h.edges (hinit.addressable haddr) i hi)

theorem push (h : t.Embeds place t') (hwf : t.WellFormed) (hwf' : t'.WellFormed) {kind : NodeKind}
    {es : List (ℕ × F)} (hes : ∀ e ∈ es, e.1 < t.size) {value : F} :
    (t.push kind es value).Embeds (Function.update place t.size t'.size)
      (t'.push kind (es.map (Prod.map place id)) value) where
  mono i j hij hj := by
    rw [size_push] at hj
    rw [Function.update_of_ne (by omega)]
    by_cases hlt : j < t.size
    · rw [Function.update_of_ne (Nat.ne_of_lt hlt)]
      exact h.mono i j hij hlt
    · obtain rfl : j = t.size := by omega
      rw [Function.update_self]
      exact h.lt i hij
  lt i hi := by
    rw [size_push] at hi ⊢
    by_cases hlt : i < t.size
    · rw [Function.update_of_ne (Nat.ne_of_lt hlt)]
      exact Nat.lt_succ_of_lt (h.lt i hlt)
    · obtain rfl : i = t.size := by omega
      rw [Function.update_self]
      exact Nat.lt_succ_self _
  operands_le := by
    rw [size_operands_push, size_operands_push, List.length_map]
    exact Nat.add_le_add_right h.operands_le _
  edges haddr' i hi := by
    have haddr : (t.push kind es value).Addressable := by
      rw [Addressable, size_operands_push] at haddr' ⊢
      rw [List.length_map] at haddr'
      exact (Nat.add_le_add_right h.operands_le _).trans_lt haddr'
    rw [size_push] at hi
    -- Older nodes do not see the place that is added.
    have holder : ∀ es' : List (ℕ × F), (∀ e ∈ es', e.1 < t.size) →
        es'.map (Prod.map (Function.update place t.size t'.size) id) =
          es'.map (Prod.map place id) := by
      intro es' hes'
      refine List.map_congr_left fun e he => ?_
      exact Prod.ext (Function.update_of_ne (Nat.ne_of_lt (hes' e he)) _ _) rfl
    by_cases hlt : i < t.size
    · rw [Function.update_of_ne (Nat.ne_of_lt hlt), edges_push_of_lt hwf hlt,
        edges_push_of_lt hwf' (h.lt i hlt), h.edges (addressable_of_push haddr') i hlt,
        holder _ fun e he => Nat.lt_trans (hwf.older i hlt e he) hlt]
    · obtain rfl : i = t.size := by omega
      rw [Function.update_self, edges_push_size hwf haddr, edges_push_size hwf' haddr',
        holder es hes]

end Embeds

variable [Arith F]

/-- Adjoints of the nodes of `t` at their places, and zero at all others. -/
structure Spread (place : ℕ → ℕ) (t : Tape F) (adjoints adjoints' : Array F) : Prop where
  placed : ∀ i, i < t.size → adjoints'[place i]? = adjoints[i]?
  zero : ∀ j, (∀ i, i < t.size → place i ≠ j) → adjoints'.getD j 0 = 0

namespace Spread

variable {place : ℕ → ℕ} {t t' : Tape F} {adjoints adjoints' : Array F}

theorem replicate (h : t.Embeds place t') :
    t.Spread place (Array.replicate t.size 0) (Array.replicate t'.size 0) where
  placed i hi := by
    rw [Array.getElem?_replicate, Array.getElem?_replicate, if_pos hi, if_pos (h.lt i hi)]
  zero j _ := by
    rw [Array.getD_eq_getD_getElem?, Array.getElem?_replicate]
    split <;> rfl

theorem getD_eq (hs : t.Spread place adjoints adjoints') {i : ℕ} (hi : i < t.size) :
    adjoints'.getD (place i) 0 = adjoints.getD i 0 := by
  rw [Array.getD_eq_getD_getElem?, Array.getD_eq_getD_getElem?, hs.placed i hi]

theorem modify (hs : t.Spread place adjoints adjoints') (h : t.Embeds place t') {k : ℕ}
    (hk : k < t.size) (f : F → F) :
    t.Spread place (adjoints.modify k f) (adjoints'.modify (place k) f) where
  placed i hi := by
    have hiff : place k = place i ↔ k = i := ⟨h.inj hk hi, congrArg place⟩
    rw [Array.getElem?_modify, Array.getElem?_modify, hs.placed i hi]
    simp only [hiff]
  zero j hj := by
    rw [Array.getD_eq_getD_getElem?, Array.getElem?_modify, if_neg (hj k hk),
      ← Array.getD_eq_getD_getElem?]
    exact hs.zero j hj

theorem foldl_modify (hs : t.Spread place adjoints adjoints') (h : t.Embeds place t')
    {es : List (ℕ × F)} (hes : ∀ e ∈ es, e.1 < t.size) (a : F) :
    t.Spread place
      (es.foldl (fun adjoints (k, p) => adjoints.modify k (· + p * a)) adjoints)
      ((es.map (Prod.map place id)).foldl
        (fun adjoints (k, p) => adjoints.modify k (· + p * a)) adjoints') := by
  induction es generalizing adjoints adjoints' with
  | nil => exact hs
  | cons e es ih =>
    exact ih (hs.modify h (hes e List.mem_cons_self) _)
      fun e' he' => hes e' (List.mem_cons_of_mem e he')

theorem addSeed (hs : t.Spread place adjoints adjoints') (h : t.Embeds place t') {x y : Handle F}
    (hx : t.Live x) (hnode : y.node = x.node.map place) (seed : F) :
    t.Spread place (Tape.addSeed adjoints (x, seed)) (Tape.addSeed adjoints' (y, seed)) := by
  unfold Tape.addSeed
  cases hi : x.node with
  | none =>
    simp only [hnode, hi, Option.map_none]
    exact hs
  | some i =>
    simp only [hnode, hi, Option.map_some]
    exact hs.modify h (hx i hi).2 _

variable [Functions F]

theorem propagate (hs : t.Spread place adjoints adjoints') (h : t.Embeds place t')
    (hwf : t.WellFormed) (haddr : t'.Addressable) {i : ℕ} (hi : i < t.size) :
    t.Spread place (t.propagate adjoints i) (t'.propagate adjoints' (place i)) := by
  simp only [Tape.propagate, hs.getD_eq hi, h.edges haddr i hi]
  split
  · exact hs
  · exact hs.foldl_modify h (fun e he => Nat.lt_trans (hwf.older i hi e he) hi) _

theorem propagate_other (hz : Functions.eq (0 : F) 0 = true)
    (hs : t.Spread place adjoints adjoints') {j : ℕ} (hj : ∀ i, i < t.size → place i ≠ j) :
    t'.propagate adjoints' j = adjoints' :=
  t'.propagate_zero (hs.zero j hj) hz

/-- The sweeps are compared as the larger tape goes: its nodes below `k'` hold those below `k` of
the other. -/
theorem foldl_propagate (hz : Functions.eq (0 : F) 0 = true) (h : t.Embeds place t')
    (hwf : t.WellFormed) (haddr : t'.Addressable) {k k' : ℕ} (hk : k ≤ t.size)
    (hbelow : ∀ i, i < t.size → (place i < k' ↔ i < k))
    (hs : t.Spread place adjoints adjoints') :
    t.Spread place ((List.range k).reverse.foldl t.propagate adjoints)
      ((List.range k').reverse.foldl t'.propagate adjoints') := by
  induction k' generalizing k adjoints adjoints' with
  | zero =>
    have hzero : k = 0 := by
      by_contra hpos
      have hplace := (hbelow 0 (by omega)).mpr (by omega)
      omega
    subst hzero
    exact hs
  | succ k' ih =>
    rw [List.range_succ (n := k'), List.reverse_concat, List.foldl_cons]
    by_cases hother : ∀ i, i < t.size → place i ≠ k'
    · rw [hs.propagate_other hz hother]
      refine ih hk (fun i hi => ?_) hs
      have hne := hother i hi
      have hiff := hbelow i hi
      omega
    · obtain ⟨i, hi, hplace⟩ : ∃ i, i < t.size ∧ place i = k' := by
        by_contra hnone
        exact hother fun i hi hplace => hnone ⟨i, hi, hplace⟩
      subst hplace
      obtain rfl : k = i + 1 := h.eq_succ hi hk hbelow
      rw [List.range_succ (n := i), List.reverse_concat, List.foldl_cons]
      exact ih (Nat.le_of_lt hi) (fun j hj => h.lt_iff hj hi) (hs.propagate h hwf haddr hi)

end Spread

theorem Embeds.seedAdjoints {place : ℕ → ℕ} {t t' : Tape F} (h : t.Embeds place t')
    {xs ys : List (Handle F)} (hxs : ∀ x ∈ xs, t.Live x)
    (hnodes : ys.map Handle.node = xs.map fun x => x.node.map place) (w : List F) :
    t.Spread place (t.seedAdjoints (xs.zip w)) (t'.seedAdjoints (ys.zip w)) := by
  unfold Tape.seedAdjoints
  have hs := Spread.replicate h
  generalize Array.replicate t.size (0 : F) = adjoints at hs ⊢
  generalize Array.replicate t'.size (0 : F) = adjoints' at hs ⊢
  induction xs generalizing ys w adjoints adjoints' with
  | nil =>
    obtain rfl : ys = [] := List.map_eq_nil_iff.mp hnodes
    exact hs
  | cons x xs ih =>
    cases ys with
    | nil => cases hnodes
    | cons y ys =>
      obtain ⟨hnode, hnodes⟩ := List.cons.inj hnodes
      cases w with
      | nil => exact hs
      | cons seed w =>
        exact ih (fun x' hx' => hxs x' (List.mem_cons_of_mem x hx')) hnodes w _ _
          (hs.addSeed h (hxs x List.mem_cons_self) hnode seed)

variable [Functions F]

theorem Embeds.adjointsFrom (hz : Functions.eq (0 : F) 0 = true) {place : ℕ → ℕ} {t t' : Tape F}
    (h : t.Embeds place t') (hwf : t.WellFormed) (haddr : t'.Addressable) {xs ys : List (Handle F)}
    (hxs : ∀ x ∈ xs, t.Live x)
    (hnodes : ys.map Handle.node = xs.map fun x => x.node.map place) (w : List F) :
    t.Spread place (t.adjointsFrom (xs.zip w)) (t'.adjointsFrom (ys.zip w)) :=
  .foldl_propagate hz h hwf haddr (le_refl t.size) (fun i hi => ⟨fun _ => hi, fun _ => h.lt i hi⟩)
    (h.seedAdjoints hxs hnodes w)

end Autodiff.Tape
