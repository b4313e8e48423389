import Mathlib.Algebra.Group.Nat.Defs
import Mathlib.Data.Nat.Basic
import Autodiff.Tape.Basic

set_option autoImplicit false

namespace Autodiff.Tape

variable {F : Type}

/-- A handle that the tape accepts: a constant, or a node of this epoch. -/
def Live (t : Tape F) (x : Handle F) : Prop :=
  ∀ i, x.node = some i → x.epoch = t.epoch ∧ i < t.size

theorem live_constant (t : Tape F) (x : F) : t.Live (.constant x) := by
  intro i hi
  cases hi

theorem requireLive_of_live {t : Tape F} {x : Handle F} (h : t.Live x) :
    t.requireLive x = .ok () := by
  unfold requireLive
  cases hx : x.node with
  | none => rfl
  | some i => exact if_pos (h i hx)

theorem requireLive_of_not_live {t : Tape F} {x : Handle F} (h : ¬ t.Live x) :
    ∃ i, t.requireLive x = .error (.fault (.staleVariable i x.epoch t.epoch)) := by
  unfold requireLive
  cases hx : x.node with
  | none =>
    refine absurd (fun i hi => ?_) h
    rw [hx] at hi
    cases hi
  | some i =>
    refine ⟨i, if_neg fun hi => h fun j hj => ?_⟩
    obtain rfl : i = j := Option.some.inj (hx.symm.trans hj)
    exact hi

/-- The stacks are short enough for the ends of all spans. -/
def Addressable (t : Tape F) : Prop := t.operands.size < 2 ^ 32

structure WellFormed (t : Tape F) : Prop where
  balanced : t.partials.size = t.operands.size
  ends : ∀ i, i < t.size → t.spanStop i ≤ t.operands.size
  closed : t.spanStart t.size = t.operands.size % 2 ^ 32
  bounded : ∀ k ∈ t.operands, k < t.size
  older : ∀ i, i < t.size → ∀ e ∈ t.edges i, e.1 < i

theorem spanStart_succ (t : Tape F) (i : ℕ) : t.spanStart (i + 1) = t.spanStop i := rfl

theorem fst_mem_operands {t : Tape F} {i : ℕ} {e : ℕ × F} (he : e ∈ t.edges i) :
    e.1 ∈ t.operands := by
  have hmem := (List.of_mem_zip (a := e.1) (b := e.2) he).1
  rw [Array.toList_extract, List.extract_eq_take_drop] at hmem
  exact Array.mem_toList_iff.mp (List.mem_of_mem_drop (List.mem_of_mem_take hmem))

theorem WellFormed.of_empty {t : Tape F} (hnodes : t.nodes = #[]) (hoperands : t.operands = #[])
    (hpartials : t.partials = #[]) : t.WellFormed where
  balanced := by rw [hoperands, hpartials]; rfl
  ends i hi := by rw [size, hnodes] at hi; cases hi
  closed := by rw [size, hnodes, hoperands]; rfl
  bounded k hk := by rw [hoperands] at hk; exact absurd hk (Array.not_mem_empty k)
  older i hi := by rw [size, hnodes] at hi; cases hi

theorem WellFormed.congr {t t' : Tape F} (h : t.WellFormed) (hnodes : t'.nodes = t.nodes)
    (hoperands : t'.operands = t.operands) (hpartials : t'.partials = t.partials) :
    t'.WellFormed := by
  obtain ⟨nodes, operands, partials⟩ := t
  obtain ⟨nodes', operands', partials'⟩ := t'
  obtain rfl : nodes' = nodes := hnodes
  obtain rfl : operands' = operands := hoperands
  obtain rfl : partials' = partials := hpartials
  exact ⟨h.balanced, h.ends, h.closed, h.bounded, h.older⟩

theorem wellFormed_nextEpoch (t : Tape F) : t.nextEpoch.WellFormed := .of_empty rfl rfl rfl

theorem WellFormed.closed_of_addressable {t : Tape F} (h : t.WellFormed) (haddr : t.Addressable) :
    t.spanStart t.size = t.operands.size :=
  h.closed.trans (Nat.mod_eq_of_lt haddr)

variable {t : Tape F} {kind : NodeKind} {es : List (ℕ × F)} {value : F}

theorem size_operands_push :
    (t.push kind es value).operands.size = t.operands.size + es.length := by
  simp [push, extend]

theorem addressable_of_push (h : (t.push kind es value).Addressable) : t.Addressable := by
  rw [Addressable, size_operands_push] at h
  exact Nat.lt_of_le_of_lt (Nat.le_add_right _ _) h

theorem spanStop_push_of_lt {i : ℕ} (hi : i < t.size) :
    (t.push kind es value).spanStop i = t.spanStop i := by
  change ((t.nodes.push _)[i]?).elim 0 _ = (t.nodes[i]?).elim 0 _
  rw [Array.getElem?_push_lt hi, Array.getElem?_eq_getElem hi]

theorem spanStop_push_size :
    (t.push kind es value).spanStop t.size = (t.operands.size + es.length) % 2 ^ 32 := by
  change ((t.nodes.push _)[t.nodes.size]?).elim 0 _ = _
  rw [Array.getElem?_push_size, ← @size_operands_push _ t kind es value]
  exact UInt32.toNat_ofNat'

theorem spanStart_push {i : ℕ} (hi : i ≤ t.size) :
    (t.push kind es value).spanStart i = t.spanStart i := by
  cases i with
  | zero => rfl
  | succ i => exact spanStop_push_of_lt hi

theorem edges_push_of_lt (h : t.WellFormed) {i : ℕ} (hi : i < t.size) :
    (t.push kind es value).edges i = t.edges i := by
  have hstop : t.spanStop i ≤ t.operands.size := h.ends i hi
  have hstop' : t.spanStop i ≤ t.partials.size := h.balanced ▸ hstop
  rw [edges, edges, spanStart_push (Nat.le_of_lt hi), spanStop_push_of_lt hi]
  simp only [push, extend, Array.extract_append]
  rw [Nat.sub_eq_zero_of_le hstop, Nat.sub_eq_zero_of_le hstop']
  simp

theorem edges_push_size (h : t.WellFormed) (haddr : (t.push kind es value).Addressable) :
    (t.push kind es value).edges t.size = es := by
  have hzip : (es.map Prod.fst).zip (es.map Prod.snd) = es :=
    (List.zip_of_prod rfl rfl).symm
  have hdrop : t.partials.toList.drop t.operands.size = [] :=
    List.drop_eq_nil_of_le (Nat.le_of_eq h.balanced)
  have hlen : t.operands.size + es.length < 2 ^ 32 := by
    rwa [Addressable, size_operands_push] at haddr
  rw [edges, spanStart_push (le_refl _), spanStop_push_size, Nat.mod_eq_of_lt hlen,
    h.closed_of_addressable (addressable_of_push haddr)]
  simp only [push, extend, Array.extract_append, h.balanced]
  simp [hdrop, List.take_of_length_le, hzip]

/-- When the end of the stacks wraps behind the start of the span, the operands are not found. -/
theorem edges_push_wrapped (h : t.WellFormed)
    (hwrap : (t.operands.size + es.length) % 2 ^ 32 ≤ t.operands.size % 2 ^ 32) :
    (t.push kind es value).edges t.size = [] := by
  rw [edges, spanStart_push (le_refl _), spanStop_push_size, h.closed,
    Array.extract_empty_of_stop_le_start hwrap, Array.extract_empty_of_stop_le_start hwrap]
  rfl

theorem edges_push_nil (h : t.WellFormed) : (t.push kind [] value).edges t.size = [] :=
  edges_push_wrapped h (le_refl _)

theorem WellFormed.push (h : t.WellFormed) (hes : ∀ e ∈ es, e.1 < t.size) :
    (t.push kind es value).WellFormed := by
  have hbounded : ∀ k ∈ (t.push kind es value).operands, k < t.size := by
    intro k hk
    rw [← Array.mem_toList_iff, operands_push, List.mem_append] at hk
    rcases hk with hk | hk
    · exact h.bounded k (Array.mem_toList_iff.mp hk)
    · obtain ⟨e, he, rfl⟩ := List.mem_map.mp hk
      exact hes e he
  have hsplit : ∀ i, i < (t.push kind es value).size → i < t.size ∨ i = t.size := by
    intro i hi
    rw [size_push] at hi
    exact Nat.lt_succ_iff_lt_or_eq.mp hi
  constructor
  case balanced => simp [Tape.push, extend, h.balanced]
  case ends =>
    intro i hi
    rw [size_operands_push]
    rcases hsplit i hi with hlt | rfl
    · rw [spanStop_push_of_lt hlt]
      exact Nat.le_add_right_of_le (h.ends i hlt)
    · rw [spanStop_push_size]
      exact Nat.mod_le _ _
  case closed =>
    rw [size_push, spanStart_succ, spanStop_push_size, size_operands_push]
  case bounded =>
    intro k hk
    rw [size_push]
    exact Nat.lt_succ_of_lt (hbounded k hk)
  case older =>
    intro i hi e he
    rcases hsplit i hi with hlt | rfl
    · rw [edges_push_of_lt h hlt] at he
      exact h.older i hlt e he
    · exact hbounded e.1 (fst_mem_operands he)

end Autodiff.Tape
