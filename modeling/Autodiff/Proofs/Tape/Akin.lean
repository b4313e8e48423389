import Mathlib
import Autodiff.Proofs.Tape.Adjoints
import Autodiff.Proofs.Tape.Records

set_option autoImplicit false

namespace Autodiff

variable {F : Type}

namespace Recorder

variable {E : List (ℕ × F) → List (ℕ × F) → Prop} {s s' : Recorder F}

/-- Two recorders in the middle of an epoch with equally many nodes, whose edges are related. -/
structure Akin (E : List (ℕ × F) → List (ℕ × F) → Prop) (s s' : Recorder F) : Prop where
  left_open : s.tape.Open
  right_open : s'.tape.Open
  size_eq : s'.tape.size = s.tape.size
  epoch_eq : s'.tape.epoch = s.tape.epoch
  limit_eq : s'.tape.limit = s.tape.limit
  exhausted_eq : s'.tape.exhausted = s.tape.exhausted
  events_eq : s'.events = s.events
  made : ∃ rs rs', s.tape.MadeOf rs ∧ s'.tape.MadeOf rs' ∧
    List.Forall₂ (fun r r' => E r.edges r'.edges) rs rs'

namespace Akin

theorem refl (hE : ∀ es, E es es) (h : s.tape.Open) {rs : List (NodeRecord F)}
    (hmade : s.tape.MadeOf rs) : s.Akin E s where
  left_open := h
  right_open := h
  size_eq := rfl
  epoch_eq := rfl
  limit_eq := rfl
  exhausted_eq := rfl
  events_eq := rfl
  made := ⟨rs, rs, hmade, hmade, List.forall₂_same.mpr fun _ _ => hE _⟩

theorem edges (h : s.Akin E s') (haddr : s.tape.Addressable) (haddr' : s'.tape.Addressable) {i : ℕ}
    (hi : i < s.tape.size) : E (s.tape.edges i) (s'.tape.edges i) := by
  obtain ⟨rs, rs', hmade, hmade', hrel⟩ := h.made
  obtain ⟨hlength, hget⟩ := List.forall₂_iff_get.mp hrel
  rw [hmade.size_eq] at hi
  rw [hmade.edges_of_addressable haddr hi, hmade'.edges_of_addressable haddr' (hlength ▸ hi)]
  exact hget i hi (hlength ▸ hi)

theorem addressable (h : s.Akin E s') (hE : ∀ es es', E es es' → es.length ≤ es'.length)
    (haddr : s'.tape.Addressable) : s.tape.Addressable := by
  obtain ⟨rs, rs', hmade, hmade', hrel⟩ := h.made
  have hle : operandCount rs ≤ operandCount rs' := List.Forall₂.sum_le_sum
    (List.forall₂_map_left_iff.mpr (List.forall₂_map_right_iff.mpr (hrel.imp fun _ _ => hE _ _)))
  rw [Tape.Addressable, hmade'.size_operands] at haddr
  rw [Tape.Addressable, hmade.size_operands]
  exact hle.trans_lt haddr

theorem edges_eq (h : s.Akin Eq s') {i : ℕ} (hi : i < s.tape.size) :
    s'.tape.edges i = s.tape.edges i := by
  obtain ⟨rs, rs', hmade, hmade', hrel⟩ := h.made
  have hedges : rs.map NodeRecord.edges = rs'.map NodeRecord.edges :=
    List.forall₂_eq_eq_eq ▸ List.forall₂_map_left_iff.mpr (List.forall₂_map_right_iff.mpr hrel)
  rw [hmade.size_eq] at hi
  exact hmade.edges_congr hmade' hedges.symm hi

theorem isFull_eq (h : s.Akin E s') : s'.tape.isFull = s.tape.isFull := by
  have hsize : s'.tape.nodes.size = s.tape.nodes.size := h.size_eq
  rw [Tape.isFull, Tape.isFull, h.limit_eq, hsize]

theorem capacity_eq (h : s.Akin E s') : s'.tape.capacity = s.tape.capacity := by
  have hsize : s'.tape.nodes.size = s.tape.nodes.size := h.size_eq
  rw [Tape.capacity, Tape.capacity, h.limit_eq, hsize]

theorem live (h : s.Akin E s') {x : Handle F} (hx : s.tape.Live x) : s'.tape.Live x := by
  intro i hi
  rw [h.epoch_eq, h.size_eq]
  exact hx i hi

theorem refused (h : s.Akin E s') (hfull : s.tape.isFull = true) : s.refused.Akin E s'.refused where
  left_open := open_refused h.left_open hfull
  right_open := open_refused h.right_open (h.isFull_eq.trans hfull)
  size_eq := h.size_eq
  epoch_eq := h.epoch_eq
  limit_eq := h.limit_eq
  exhausted_eq := rfl
  events_eq := by
    unfold Recorder.refused
    rw [h.events_eq, h.exhausted_eq, h.capacity_eq, h.epoch_eq]
  made := by
    obtain ⟨rs, rs', hmade, hmade', hrel⟩ := h.made
    exact ⟨rs, rs', hmade.congr rfl rfl rfl, hmade'.congr rfl rfl rfl, hrel⟩

theorem pushed (h : s.Akin E s') (hroom : s.tape.isFull = false) (kind kind' : NodeKind)
    {es es' : List (ℕ × F)} (hes : ∀ e ∈ es, e.1 < s.tape.size)
    (hes' : ∀ e ∈ es', e.1 < s'.tape.size) (hE : E es es') (value : F) :
    (s.pushed kind es value).Akin E (s'.pushed kind' es' value) where
  left_open := h.left_open.push hroom kind hes value
  right_open := h.right_open.push (h.isFull_eq.trans hroom) kind' hes' value
  size_eq := by
    change (s'.tape.push kind' es' value).size = (s.tape.push kind es value).size
    rw [Tape.size_push, Tape.size_push, h.size_eq]
  epoch_eq := h.epoch_eq
  limit_eq := h.limit_eq
  exhausted_eq := h.exhausted_eq
  events_eq := h.events_eq
  made := by
    obtain ⟨rs, rs', hmade, hmade', hrel⟩ := h.made
    exact ⟨_, _, hmade.push ⟨kind, value, es⟩, hmade'.push ⟨kind', value, es'⟩,
      List.rel_append hrel (.cons hE .nil)⟩

end Akin

end Recorder

namespace Tape

def weight [AddMonoid F] (es : List (ℕ × F)) (k : ℕ) : F :=
  ((es.filter fun e => e.1 = k).map Prod.snd).sum

/-- No more edges than on the other side, with the same weights. -/
def EqualWeights [AddMonoid F] (es es' : List (ℕ × F)) : Prop :=
  es.length ≤ es'.length ∧ ∀ k, weight es' k = weight es k

theorem passed_eq_weight [CommRing F] (es : List (ℕ × F)) (k : ℕ) (a : F) :
    passed es k a = weight es k * a :=
  List.sum_map_mul_right _ _ _

theorem adjointsFrom_congr [Arith F] [Functions F] {t t' : Tape F} (hsize : t'.size = t.size)
    (hedges : ∀ i, i < t.size → t'.edges i = t.edges i) (seeds : List (Handle F × F)) :
    t'.adjointsFrom seeds = t.adjointsFrom seeds := by
  have hnodes : t'.nodes.size = t.nodes.size := hsize
  unfold adjointsFrom seedAdjoints sweep
  rw [hsize, hnodes]
  refine List.foldl_ext _ _ _ fun adjoints i hi => ?_
  have hlt : i < t.size := List.mem_range.mp (List.mem_reverse.mp hi)
  rw [propagate, propagate, hedges i hlt]

variable [CommRing F] [Div F] [Functions F] [ExactRing F]

/-- The adjoint equations see no more of the edges than their weights. -/
theorem adjointsFrom_of_weight {t t' : Tape F} (hwf : t.WellFormed) (hwf' : t'.WellFormed)
    (hsize : t'.size = t.size)
    (hweight : ∀ i, i < t.size → ∀ k, weight (t'.edges i) k = weight (t.edges i) k)
    {seeds : List (Handle F × F)} (hlive : ∀ e ∈ seeds, t.Live e.1)
    (hlive' : ∀ e ∈ seeds, t'.Live e.1) :
    (t'.adjointsFrom seeds).toList = (t.adjointsFrom seeds).toList := by
  have hlength : t'.records.length = t.records.length := by
    rw [length_records, length_records, hsize]
  obtain ⟨hlength', hbalance⟩ := balanced_adjointsFrom hwf' hlive'
  refine (balanced_adjointsFrom hwf hlive).unique hwf.edgesAt_older
    ⟨hlength'.trans hlength, fun k hk => ?_⟩
  rw [hbalance k (hlength.symm ▸ hk), hlength]
  refine congrArg (seedAt seeds k + ·) (Finset.sum_congr rfl fun i hi => ?_)
  have hlt : i < t.size := t.length_records ▸ Finset.mem_range.mp hi
  rw [passed_eq_weight, passed_eq_weight, t.edgesAt_records hlt, t'.edgesAt_records (hsize ▸ hlt),
    hweight i hlt]

end Tape

end Autodiff
