import Autodiff.Proofs.Program.Lockstep
import Autodiff.Proofs.Tape.Records

/-!
# Traces

A trace lists every scalar result of a run in the order of computation, with its operands. A result
is active if an operand is, and the inputs are active. The active results alone, their operands
numbered among them, are what a tape should hold.
-/

set_option autoImplicit false

namespace Autodiff

open Interpretation (plain)

variable {F : Type}

/-- A number of a traced run, with the place of the result that it is; a constant has none. -/
structure Traced (F : Type) where
  value : F
  active : Bool
  origin : Option ℕ

/-- A scalar result with its operands and their partials. -/
structure Result (F : Type) where
  kind : NodeKind
  value : F
  active : Bool
  operands : List (Traced F)
  partials : List F

abbrev Trace (F : Type) := List (Result F)

abbrev Tracing (F : Type) := ExceptT (Failure F) (StateM (Trace F))

instance : Runs F (Trace F) (Tracing F) where
  run x log := x log
  run_pure _ _ := rfl
  run_bind x f log := by
    rw [run_bind]
    rcases x log with ⟨r, log⟩
    cases r <;> rfl

/-- A result is active if one of its operands is. -/
def Result.of (kind : NodeKind) (operands : List (Traced F)) (partials : List F) (value : F) :
    Result F :=
  ⟨kind, value, operands.any Traced.active, operands, partials⟩

def Tracing.result (kind : NodeKind) (operands : List (Traced F)) (partials : List F) (value : F) :
    Tracing F (Traced F) := fun log =>
  let r := Result.of kind operands partials value
  (.ok ⟨value, r.active, some log.length⟩, log ++ [r])

def Interpretation.tracing [Arith F] [Functions F] : Interpretation F (Traced F) (Tracing F) :=
  NodeRule.interpretation Tracing.result (fun c => ⟨c, false, none⟩) Traced.value
    fun r log => (r, log)

theorem nodal_tracing [Arith F] [Functions F] :
    Nodal (Interpretation.tracing (F := F)) Tracing.result :=
  NodeRule.nodal _ _ _ _

def Traced.inputs (x : List F) : List (Traced F) := x.mapIdx fun i value => ⟨value, true, some i⟩

namespace Trace

def inputs (x : List F) : Trace F := x.map fun value => ⟨.input, value, true, [], []⟩

def rank (log : Trace F) (i : ℕ) : ℕ := (log.take i).countP Result.active

def index (log : Trace F) (x : Traced F) : Option ℕ :=
  if x.active then x.origin.map (rank log) else none

def record (log : Trace F) (r : Result F) : NodeRecord F :=
  ⟨r.kind, r.value, Tape.liveEdges (r.operands.map (index log)) r.partials⟩

/-- The active results in order, with their active operands. -/
def records (log : Trace F) : List (NodeRecord F) :=
  (log.filter Result.active).map (record log)

def Holds (log : Trace F) (x : Traced F) : Prop :=
  x.active = true → ∃ i r, x.origin = some i ∧ log[i]? = some r ∧ r.active = true

/-- Inputs come first, and operands are older than their results. -/
structure WellFormed (x : List F) (log : Trace F) : Prop where
  inputs : inputs x <+: log
  closed : ∀ r ∈ log, ∀ o ∈ r.operands, Holds log o
  active : ∀ r ∈ log.drop x.length, r.active = r.operands.any Traced.active
  balanced : ∀ r ∈ log.drop x.length, r.operands.length = r.partials.length

variable {log more : Trace F} {x : Traced F} {r : Result F}

theorem Holds.append (h : Holds log x) (more : Trace F) : Holds (log ++ more) x := by
  intro hactive
  obtain ⟨i, r, horigin, hr, hr'⟩ := h hactive
  exact ⟨i, r, horigin, List.getElem?_append_left (List.getElem?_eq_some_iff.mp hr).1 ▸ hr, hr'⟩

theorem rank_append {i : ℕ} (hi : i ≤ log.length) : rank (log ++ more) i = rank log i := by
  rw [rank, rank, List.take_append_of_le_length hi]

theorem index_of_inactive (hactive : x.active = false) : index log x = none := by
  rw [index, hactive, if_neg Bool.false_ne_true]

theorem index_append (h : Holds log x) : index (log ++ more) x = index log x := by
  cases hactive : x.active with
  | false => rw [index_of_inactive hactive, index_of_inactive hactive]
  | true =>
    obtain ⟨i, r, horigin, hr, -⟩ := h hactive
    have hi : i < log.length := (List.getElem?_eq_some_iff.mp hr).1
    rw [index, index, horigin, Option.map_some, Option.map_some, rank_append (Nat.le_of_lt hi)]

theorem record_append (h : ∀ o ∈ r.operands, Holds log o) :
    record (log ++ more) r = record log r := by
  have hindex : r.operands.map (index (log ++ more)) = r.operands.map (index log) :=
    List.map_congr_left fun o ho => index_append (h o ho)
  rw [record, record, hindex]

@[simp]
theorem length_records (log : Trace F) :
    (records log).length = log.countP Result.active := by
  rw [records, List.length_map, List.countP_eq_length_filter]

theorem records_concat (hclosed : ∀ r ∈ log, ∀ o ∈ r.operands, Holds log o)
    (hr : ∀ o ∈ r.operands, Holds log o) :
    records (log ++ [r]) = records log ++ if r.active then [record log r] else [] := by
  have hold : (log.filter Result.active).map (record (log ++ [r])) = records log :=
    List.map_congr_left fun q hq => record_append (hclosed q (List.mem_of_mem_filter hq))
  rw [records, List.filter_append, List.map_append, hold]
  cases hactive : r.active with
  | false => simp [hactive]
  | true => simp [hactive, record_append hr]

theorem index_of_active (h : Holds log x) (hactive : x.active = true) :
    ∃ k, index log x = some k ∧ k < (records log).length := by
  obtain ⟨i, r, horigin, hr, hr'⟩ := h hactive
  refine ⟨rank log i, by rw [index, if_pos hactive, horigin, Option.map_some], ?_⟩
  obtain ⟨hi, rfl⟩ := List.getElem?_eq_some_iff.mp hr
  rw [length_records, rank]
  calc
    (log.take i).countP Result.active
        < (log.take i).countP Result.active + [log[i]].countP Result.active := by
      simp [hr']
    _ = (log.take (i + 1)).countP Result.active := by
      rw [← List.countP_append, List.take_append_getElem]
    _ ≤ log.countP Result.active := (List.take_sublist _ _).countP_le

theorem index_concat (hr : r.active = true) (value : F) :
    index (log ++ [r]) ⟨value, r.active, some log.length⟩ = some (records log).length := by
  rw [index, if_pos hr, Option.map_some, rank_append (le_refl _), rank, List.take_length,
    length_records]

theorem holds_concat (log : Trace F) (r : Result F) (value : F) :
    Holds (log ++ [r]) ⟨value, r.active, some log.length⟩ := by
  intro hactive
  exact ⟨log.length, r, rfl, List.getElem?_concat_length, hactive⟩

variable {x : List F}

@[simp]
theorem length_inputs (x : List F) : (inputs x).length = x.length := List.length_map _

theorem wellFormed_inputs (x : List F) : WellFormed x (inputs x) where
  inputs := List.prefix_refl _
  closed r hr o ho := by
    obtain ⟨value, -, rfl⟩ := List.mem_map.mp hr
    exact absurd ho List.not_mem_nil
  active r hr := by
    rw [List.drop_eq_nil_of_le (Nat.le_of_eq (length_inputs x))] at hr
    exact absurd hr List.not_mem_nil
  balanced r hr := by
    rw [List.drop_eq_nil_of_le (Nat.le_of_eq (length_inputs x))] at hr
    exact absurd hr List.not_mem_nil

theorem holds_inputs (x : List F) : ∀ t ∈ Traced.inputs x, Holds (inputs x) t := by
  intro t ht _
  obtain ⟨i, hi, rfl⟩ := List.mem_mapIdx.mp ht
  exact ⟨i, ⟨.input, x[i], true, [], []⟩, rfl, by simp [inputs, hi], rfl⟩

theorem WellFormed.split (h : WellFormed x log) : Trace.inputs x ++ log.drop x.length = log := by
  obtain ⟨rest, rfl⟩ := h.inputs
  rw [← length_inputs x, List.drop_left]

theorem WellFormed.concat (h : WellFormed x log) (kind : NodeKind) {args : List (Traced F)}
    (hargs : ∀ t ∈ args, Holds log t) {partials : List F} (hlen : args.length = partials.length)
    (value : F) : WellFormed x (log ++ [.of kind args partials value]) := by
  have hdrop : ∀ r : Result F, (log ++ [r]).drop x.length = log.drop x.length ++ [r] := by
    intro r
    have hle : x.length ≤ log.length := length_inputs x ▸ h.inputs.length_le
    exact List.drop_append_of_le_length hle
  refine ⟨h.inputs.trans (List.prefix_append _ _), fun r hr o ho => ?_, fun r hr => ?_,
    fun r hr => ?_⟩
  · rcases List.mem_append.mp hr with hr | hr
    · exact (h.closed r hr o ho).append _
    · obtain rfl := List.mem_singleton.mp hr
      exact (hargs o ho).append _
  · rw [hdrop] at hr
    rcases List.mem_append.mp hr with hr | hr
    · exact h.active r hr
    · obtain rfl := List.mem_singleton.mp hr
      rfl
  · rw [hdrop] at hr
    rcases List.mem_append.mp hr with hr | hr
    · exact h.balanced r hr
    · obtain rfl := List.mem_singleton.mp hr
      exact hlen

theorem filter_inputs (x : List F) : (inputs x).filter Result.active = inputs x := by
  refine List.filter_eq_self.mpr fun r hr => ?_
  obtain ⟨value, -, rfl⟩ := List.mem_map.mp hr
  rfl

theorem WellFormed.records_eq (h : WellFormed x log) :
    records log = (x.map fun value => ⟨.input, value, []⟩) ++
      ((log.drop x.length).filter Result.active).map (record log) := by
  have hinputs : (Trace.inputs x).map (record log) = x.map fun value => ⟨.input, value, []⟩ := by
    rw [Trace.inputs, List.map_map]
    rfl
  conv_lhs => rw [records, ← h.split, List.filter_append, filter_inputs, List.map_append]
  rw [h.split, hinputs]

theorem WellFormed.take_records (h : WellFormed x log) :
    (records log).take x.length = x.map fun value => ⟨.input, value, []⟩ := by
  rw [h.records_eq]
  exact List.take_left' (List.length_map _)

theorem length_le_records (h : WellFormed x log) : x.length ≤ (records log).length := by
  rw [h.records_eq, List.length_append, List.length_map]
  exact Nat.le_add_right _ _

theorem WellFormed.edges_ne_nil (h : WellFormed x log) {i : ℕ} {q : NodeRecord F}
    (hi : x.length ≤ i) (hq : (records log)[i]? = some q) : q.edges ≠ [] := by
  rw [h.records_eq, List.getElem?_append_right (by rw [List.length_map]; exact hi)] at hq
  obtain ⟨r, hr, rfl⟩ := List.mem_map.mp (List.mem_of_getElem? hq)
  obtain ⟨hr, hactive⟩ := List.mem_filter.mp hr
  rw [h.active r hr] at hactive
  obtain ⟨o, ho, hactive⟩ := List.any_eq_true.mp hactive
  obtain ⟨k, hk, -⟩ := index_of_active (h.closed r (List.mem_of_mem_drop hr) o ho) hactive
  obtain ⟨j, hj, rfl⟩ := List.getElem_of_mem ho
  have hj' : j < r.partials.length := h.balanced r hr ▸ hj
  refine List.ne_nil_of_mem (a := (k, r.partials[j])) (List.mem_filterMap.mpr ?_)
  refine ⟨(some k, r.partials[j]), List.mem_iff_getElem.mpr ⟨j, ?_, ?_⟩, rfl⟩
  · simpa using ⟨hj, hj'⟩
  · simp [hk]

end Trace

end Autodiff
