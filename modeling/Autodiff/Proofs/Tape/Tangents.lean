import Mathlib
import Autodiff.Proofs.Number.Exact
import Autodiff.Proofs.Tape.Growth
import Autodiff.Proofs.Tape.Sweep

/-!
# Tangents on the tape

Tangents of the inputs run up the tape through the partials, and adjoints of the outputs run down
through the same partials. While the sweep passes a node, the sum of adjoint times tangent over the
nodes still to come does not change: what the node adds below is what it takes away itself.
-/

set_option autoImplicit false

namespace Autodiff

open Finset (range sum_range_succ)

variable {F : Type} [Field F]

namespace Tape

/-- The first `n` nodes are inputs, and the tangent of every later node is the sum over its edges of
partial times tangent. -/
structure Carries (t : Tape F) (n : ℕ) (τ : ℕ → F) : Prop where
  inputs_le : n ≤ t.size
  bare : ∀ i, i < n → t.edges i = []
  linked : ∀ i, n ≤ i → i < t.size → τ i = ((t.edges i).map fun e => e.2 * τ e.1).sum

def tangentAt (τ : ℕ → F) (x : Handle F) : F := x.node.elim 0 τ

theorem tangentAt_of_isConstant (τ : ℕ → F) {x : Handle F} (h : x.isConstant = true) :
    tangentAt τ x = 0 := by
  have hnode : x.node = none := Option.isNone_iff_eq_none.mp h
  rw [tangentAt, hnode]
  rfl

theorem sum_liveEdges (τ : ℕ → F) (args : List (Handle F)) (partials : List F) :
    ((liveEdges (args.map Handle.node) partials).map fun e => e.2 * τ e.1).sum =
      dot partials (args.map (tangentAt τ)) := by
  induction args generalizing partials with
  | nil => cases partials <;> rfl
  | cons x args ih =>
    cases partials with
    | nil => rfl
    | cons p partials =>
      have hrest := ih partials
      unfold liveEdges at hrest ⊢
      rw [List.map_cons, List.map_cons, List.zip_cons_cons, dot_cons, ← hrest, List.filterMap_cons]
      cases hx : x.node with
      | none => simp [tangentAt, hx]
      | some i => simp [tangentAt, hx]

theorem tangentAt_congr {t : Tape F} {τ τ' : ℕ → F} (h : ∀ i, i < t.size → τ' i = τ i)
    {x : Handle F} (hx : t.Live x) : tangentAt τ' x = tangentAt τ x := by
  unfold tangentAt
  cases hnode : x.node with
  | none => rfl
  | some i => exact h i (hx i hnode).2

theorem Carries.push {t : Tape F} {n : ℕ} {τ : ℕ → F} (h : t.Carries n τ) (hwf : t.WellFormed)
    {kind : NodeKind} {es : List (ℕ × F)} (hes : ∀ e ∈ es, e.1 < t.size) {value : F}
    (haddr : (t.push kind es value).Addressable) :
    (t.push kind es value).Carries n
      (Function.update τ t.size (es.map fun e => e.2 * τ e.1).sum) where
  inputs_le := by
    rw [size_push]
    exact Nat.le_succ_of_le h.inputs_le
  bare i hi := by
    rw [edges_push_of_lt hwf (Nat.lt_of_lt_of_le hi h.inputs_le)]
    exact h.bare i hi
  linked i hn hi := by
    rw [size_push] at hi
    have holder : ∀ es' : List (ℕ × F), (∀ e ∈ es', e.1 < t.size) →
        es'.map (fun e => e.2 * Function.update τ t.size
          (es.map fun e => e.2 * τ e.1).sum e.1) = es'.map fun e => e.2 * τ e.1 := by
      intro es' hes'
      refine List.map_congr_left fun e he => ?_
      rw [Function.update_of_ne (Nat.ne_of_lt (hes' e he))]
    by_cases hlt : i < t.size
    · rw [Function.update_of_ne (Nat.ne_of_lt hlt), edges_push_of_lt hwf hlt,
        holder _ fun e he => Nat.lt_trans (hwf.older i hlt e he) hlt]
      exact h.linked i hn hlt
    · obtain rfl : i = t.size := by omega
      rw [Function.update_self, edges_push_size hwf haddr, holder _ hes]

def pairing (τ : ℕ → F) (adjoints : Array F) (i : ℕ) : F :=
  ∑ k ∈ range i, adjoints.getD k 0 * τ k

theorem pairing_modify (τ : ℕ → F) {adjoints : Array F} {i k : ℕ} (hk : k < i)
    (hi : i ≤ adjoints.size) (c : F) :
    pairing τ (adjoints.modify k (· + c)) i = pairing τ adjoints i + c * τ k := by
  have hentry : ∀ j ∈ range i, (adjoints.modify k (· + c)).getD j 0 * τ j =
      adjoints.getD j 0 * τ j + if j = k then c * τ k else 0 := by
    intro j hj
    have hj : j < adjoints.size := Nat.lt_of_lt_of_le (Finset.mem_range.mp hj) hi
    by_cases hjk : j = k
    · subst hjk
      simp [Array.getD, hj, Array.getElem_modify_self, add_mul]
    · simp [Array.getD, hj, hjk, Array.getElem_modify_of_ne (Ne.symm hjk)]
  unfold pairing
  rw [Finset.sum_congr rfl hentry, Finset.sum_add_distrib,
    Finset.sum_ite_eq' (range i) k, if_pos (Finset.mem_range.mpr hk)]

theorem pairing_foldl_modify (τ : ℕ → F) (a : F) {i : ℕ} (edges : List (ℕ × F))
    (hedges : ∀ e ∈ edges, e.1 < i) {adjoints : Array F} (hi : i ≤ adjoints.size) :
    pairing τ (edges.foldl (fun adjoints (k, p) => adjoints.modify k (· + p * a)) adjoints) i =
      pairing τ adjoints i + a * (edges.map fun e => e.2 * τ e.1).sum := by
  induction edges generalizing adjoints with
  | nil => simp
  | cons e edges ih =>
    have hsize : i ≤ (adjoints.modify e.1 (· + e.2 * a)).size := by
      rw [Array.size_modify]
      exact hi
    rw [List.foldl_cons, ih (fun e' he' => hedges e' (List.mem_cons_of_mem e he')) hsize,
      pairing_modify τ (hedges e List.mem_cons_self) hi, List.map_cons, List.sum_cons]
    ring

theorem pairing_addSeed (τ : ℕ → F) {t : Tape F} {seed : Handle F × F} (hlive : t.Live seed.1)
    {adjoints : Array F} (hsize : adjoints.size = t.size) :
    pairing τ (addSeed adjoints seed) t.size =
      pairing τ adjoints t.size + seed.2 * tangentAt τ seed.1 := by
  unfold addSeed tangentAt
  cases hnode : seed.1.node with
  | none => simp
  | some i => exact pairing_modify τ (hlive i hnode).2 (Nat.le_of_eq hsize.symm) _

theorem pairing_seedAdjoints (τ : ℕ → F) {t : Tape F} {seeds : List (Handle F × F)}
    (hlive : ∀ e ∈ seeds, t.Live e.1) :
    pairing τ (t.seedAdjoints seeds) t.size =
      (seeds.map fun e => e.2 * tangentAt τ e.1).sum := by
  have hfold : ∀ adjoints : Array F, adjoints.size = t.size →
      pairing τ (seeds.foldl addSeed adjoints) t.size =
        pairing τ adjoints t.size + (seeds.map fun e => e.2 * tangentAt τ e.1).sum := by
    induction seeds with
    | nil => simp
    | cons seed seeds ih =>
      intro adjoints hsize
      have hsize' : (addSeed adjoints seed).size = t.size := by rw [size_addSeed, hsize]
      rw [List.foldl_cons, ih (fun e he => hlive e (List.mem_cons_of_mem seed he)) _ hsize',
        pairing_addSeed τ (hlive seed List.mem_cons_self) hsize, List.map_cons, List.sum_cons]
      ring
  have hzero : pairing τ (Array.replicate t.size (0 : F)) t.size = 0 := by
    unfold pairing
    refine Finset.sum_eq_zero fun k hk => ?_
    have hk : k < t.size := Finset.mem_range.mp hk
    simp [Array.getD, hk]
  unfold seedAdjoints
  rw [hfold _ Array.size_replicate, hzero, zero_add]

variable [Functions F] [ExactField F]

/-- Passing node `i` moves its share of the sum to the nodes before it. -/
theorem pairing_propagate {t : Tape F} {n : ℕ} {τ : ℕ → F} (hwf : t.WellFormed)
    (h : t.Carries n τ) {i : ℕ} (hn : n ≤ i) (hi : i < t.size) {adjoints : Array F}
    (hsize : adjoints.size = t.size) :
    pairing τ (t.propagate adjoints i) i = pairing τ adjoints (i + 1) := by
  have hsplit : pairing τ adjoints (i + 1) = pairing τ adjoints i + adjoints.getD i 0 * τ i :=
    sum_range_succ _ _
  simp only [propagate]
  split
  · rename_i hzero
    rw [hsplit, (ExactField.eq_iff _ _).mp hzero, zero_mul, add_zero]
  · rw [hsplit, h.linked i hn hi]
    exact pairing_foldl_modify τ _ _ (hwf.older i hi) (by omega)

theorem pairing_sweep_range {t : Tape F} {n : ℕ} {τ : ℕ → F} (hwf : t.WellFormed)
    (h : t.Carries n τ) {k : ℕ} (hn : n ≤ k) (hk : k ≤ t.size) {adjoints : Array F}
    (hsize : adjoints.size = t.size) :
    pairing τ ((List.range k).reverse.foldl t.propagate adjoints) n = pairing τ adjoints k := by
  induction k, hn using Nat.le_induction generalizing adjoints with
  | base =>
    rw [foldl_propagate_bare fun i hi => h.bare i (List.mem_range.mp (List.mem_reverse.mp hi))]
  | succ k hn ih =>
    have hsize' : (t.propagate adjoints k).size = t.size := by rw [size_propagate, hsize]
    rw [foldl_reverse_range_succ, ih (by omega) hsize',
      pairing_propagate hwf h hn (by omega) hsize]

/-- The adjoints of the inputs pair with their tangents to what the seeds pair to. -/
theorem pairing_adjointsFrom {t : Tape F} {n : ℕ} {τ : ℕ → F} (hwf : t.WellFormed)
    (h : t.Carries n τ) {seeds : List (Handle F × F)} (hlive : ∀ e ∈ seeds, t.Live e.1) :
    pairing τ (t.adjointsFrom seeds) n = (seeds.map fun e => e.2 * tangentAt τ e.1).sum := by
  unfold adjointsFrom sweep
  rw [← pairing_seedAdjoints τ hlive]
  exact pairing_sweep_range hwf h h.inputs_le (le_refl _) (size_seedAdjoints t seeds)

end Tape

end Autodiff
