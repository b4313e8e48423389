import Mathlib.Algebra.GroupWithZero.Nat
import Mathlib.Algebra.BigOperators.Group.List.Lemmas
import Mathlib.Data.List.Basic
import Autodiff.Proofs.Tape.Growth

set_option autoImplicit false

namespace Autodiff

variable {F : Type}

/-- A node without its adjoint. -/
structure NodeRecord (F : Type) where
  kind : NodeKind
  value : F
  edges : List (ℕ × F)

def NodeRecord.entry (r : NodeRecord F) (adjoint : F) : NodeEntry F where
  kind := r.kind
  value := r.value
  adjoint := adjoint
  operands := r.edges.map Prod.fst
  partials := r.edges.map Prod.snd

def operandCount (records : List (NodeRecord F)) : ℕ := (records.map (·.edges.length)).sum

@[simp]
theorem operandCount_nil : operandCount ([] : List (NodeRecord F)) = 0 := rfl

@[simp]
theorem operandCount_append (records records' : List (NodeRecord F)) :
    operandCount (records ++ records') = operandCount records + operandCount records' := by
  simp [operandCount]

@[simp]
theorem operandCount_singleton (r : NodeRecord F) : operandCount [r] = r.edges.length :=
  Nat.add_zero _

theorem operandCount_take_le (records : List (NodeRecord F)) {i j : ℕ} (hij : i ≤ j) :
    operandCount (records.take i) ≤ operandCount (records.take j) := by
  obtain ⟨k, rfl⟩ := Nat.le.dest hij
  rw [List.take_add, operandCount_append]
  exact Nat.le_add_right _ _

namespace Tape

def records (t : Tape F) : List (NodeRecord F) :=
  t.nodes.toList.mapIdx fun i node => ⟨node.kind, node.value, t.edges i⟩

variable {t t' : Tape F}

@[simp]
theorem length_records (t : Tape F) : t.records.length = t.size := by
  rw [records, List.length_mapIdx]
  rfl

theorem getElem?_records (t : Tape F) (i : ℕ) :
    t.records[i]? = (t.nodes[i]?).map fun node => ⟨node.kind, node.value, t.edges i⟩ := by
  rw [records, List.getElem?_mapIdx, Array.getElem?_toList]

theorem records_congr (hnodes : t'.nodes = t.nodes) (hoperands : t'.operands = t.operands)
    (hpartials : t'.partials = t.partials) : t'.records = t.records := by
  simp only [records, edges, spanStart, spanStop, hnodes, hoperands, hpartials]

theorem edges_eq (t : Tape F) (i : ℕ) :
    t.edges i = ((t.operands.toList.zip t.partials.toList).drop (t.spanStart i)).take
      (t.spanStop i - t.spanStart i) := by
  rw [edges, Array.toList_extract, Array.toList_extract, List.extract_eq_take_drop,
    List.extract_eq_take_drop]
  simp only [List.zip, List.drop_zipWith, List.take_zipWith]

/-- The tape was made by recording `rs` one after another, from an empty one on. -/
structure MadeOf (t : Tape F) (rs : List (NodeRecord F)) : Prop where
  nodes : t.nodes.toList = rs.mapIdx fun i r =>
    ⟨r.kind, r.value, (operandCount (rs.take (i + 1))).toUInt32⟩
  operands : t.operands.toList = (rs.flatMap NodeRecord.edges).map Prod.fst
  partials : t.partials.toList = (rs.flatMap NodeRecord.edges).map Prod.snd

namespace MadeOf

variable {rs : List (NodeRecord F)}

theorem of_empty (hnodes : t.nodes = #[]) (hoperands : t.operands = #[])
    (hpartials : t.partials = #[]) : t.MadeOf [] := by
  constructor
  case nodes => rw [hnodes]; rfl
  case operands => rw [hoperands]; rfl
  case partials => rw [hpartials]; rfl

theorem congr (h : t.MadeOf rs) (hnodes : t'.nodes = t.nodes) (hoperands : t'.operands = t.operands)
    (hpartials : t'.partials = t.partials) : t'.MadeOf rs :=
  ⟨hnodes ▸ h.nodes, hoperands ▸ h.operands, hpartials ▸ h.partials⟩

theorem size_eq (h : t.MadeOf rs) : t.size = rs.length := by
  have hlength := congrArg List.length h.nodes
  rwa [List.length_mapIdx] at hlength

theorem size_operands (h : t.MadeOf rs) : t.operands.size = operandCount rs := by
  have hlength := congrArg List.length h.operands
  rwa [List.length_map, List.length_flatMap] at hlength

theorem push (h : t.MadeOf rs) (r : NodeRecord F) :
    (t.push r.kind r.edges r.value).MadeOf (rs ++ [r]) := by
  constructor
  case nodes =>
    have hnodes : (t.push r.kind r.edges r.value).nodes.toList = t.nodes.toList ++
        [⟨r.kind, r.value, (t.push r.kind r.edges r.value).operands.size.toUInt32⟩] := by
      rw [← Array.toList_push]
      rfl
    have hlength : (rs ++ [r]).take (rs.length + 1) = rs ++ [r] :=
      List.take_of_length_le (by rw [List.length_append]; rfl)
    rw [hnodes, size_operands_push, h.nodes, h.size_operands, List.mapIdx_concat, hlength,
      operandCount_append, operandCount_singleton]
    refine congrArg (· ++ _) (List.mapIdx_eq_mapIdx_iff.mpr fun i hi => ?_)
    rw [List.take_append_of_le_length hi]
  case operands =>
    rw [operands_push, h.operands, List.flatMap_append, List.map_append, List.flatMap_singleton]
  case partials =>
    rw [partials_push, h.partials, List.flatMap_append, List.map_append, List.flatMap_singleton]

theorem pushInputs (h : t.MadeOf rs) (x : List F) :
    (t.pushInputs x).MadeOf (rs ++ x.map fun value => ⟨.input, value, []⟩) := by
  induction x generalizing t rs with
  | nil =>
    rw [List.map_nil, List.append_nil]
    exact h
  | cons value x ih =>
    rw [List.map_cons, List.append_cons]
    exact ih (h.push ⟨.input, value, []⟩)

theorem spanStop_eq (h : t.MadeOf rs) {i : ℕ} (hi : i < rs.length) :
    t.spanStop i = operandCount (rs.take (i + 1)) % 2 ^ 32 := by
  rw [spanStop, ← Array.getElem?_toList, h.nodes, List.getElem?_mapIdx, List.getElem?_eq_getElem hi]
  exact UInt32.toNat_ofNat'

theorem spanStart_eq (h : t.MadeOf rs) {i : ℕ} (hi : i ≤ rs.length) :
    t.spanStart i = operandCount (rs.take i) % 2 ^ 32 := by
  cases i with
  | zero => rfl
  | succ i => exact h.spanStop_eq hi

theorem zip_eq (h : t.MadeOf rs) :
    t.operands.toList.zip t.partials.toList = rs.flatMap NodeRecord.edges := by
  rw [h.operands, h.partials]
  exact (List.zip_of_prod rfl rfl).symm

/-- A node shows its edges as long as they are not too many together with those before them. -/
theorem edges_eq (h : t.MadeOf rs) {i : ℕ} (hi : i < rs.length)
    (hfew : operandCount (rs.take (i + 1)) < 2 ^ 32) : t.edges i = rs[i].edges := by
  have hle := operandCount_take_le rs (Nat.le_add_right i 1)
  have hsums : ∀ k, (((rs.map NodeRecord.edges).map List.length).take k).sum =
      operandCount (rs.take k) := by
    intro k
    rw [operandCount, List.map_take, List.map_map]
    rfl
  have hown := List.drop_take_succ_flatten_eq_getElem (rs.map NodeRecord.edges) i (by simpa using hi)
  rw [hsums, hsums, List.getElem_map] at hown
  rw [Tape.edges_eq, h.zip_eq, h.spanStart_eq hi.le, h.spanStop_eq hi, Nat.mod_eq_of_lt hfew,
    Nat.mod_eq_of_lt (hle.trans_lt hfew), ← List.drop_take]
  exact hown

theorem edges_of_addressable (h : t.MadeOf rs) (haddr : t.Addressable) {i : ℕ} (hi : i < rs.length) :
    t.edges i = rs[i].edges := by
  have hle := operandCount_take_le rs (Nat.succ_le_of_lt hi)
  rw [List.take_length, ← h.size_operands] at hle
  exact h.edges_eq hi (hle.trans_lt haddr)

/-- A span that ends where it starts, or before, hides the edges of its node. -/
theorem edges_wrapped (h : t.MadeOf rs) {i : ℕ} (hi : i < rs.length)
    (hwrap : operandCount (rs.take (i + 1)) % 2 ^ 32 ≤ operandCount (rs.take i) % 2 ^ 32) :
    t.edges i = [] := by
  rw [Tape.edges_eq, h.spanStart_eq hi.le, h.spanStop_eq hi, Nat.sub_eq_zero_of_le hwrap,
    List.take_zero]

theorem edges_congr {rs' : List (NodeRecord F)} (h : t.MadeOf rs) (h' : t'.MadeOf rs')
    (hedges : rs'.map NodeRecord.edges = rs.map NodeRecord.edges) {i : ℕ} (hi : i < rs.length) :
    t'.edges i = t.edges i := by
  have hlength : rs'.length = rs.length := by simpa using congrArg List.length hedges
  have hcount (k : ℕ) : operandCount (rs'.take k) = operandCount (rs.take k) := by
    have hsum (rs : List (NodeRecord F)) :
        operandCount (rs.take k) = (((rs.map NodeRecord.edges).take k).map List.length).sum := by
      rw [operandCount, ← List.map_take, List.map_map]
      rfl
    rw [hsum, hsum, hedges]
  rw [Tape.edges_eq, Tape.edges_eq, h.zip_eq, h'.zip_eq, List.flatMap_def, hedges, ← List.flatMap_def,
    h.spanStart_eq hi.le, h.spanStop_eq hi, h'.spanStart_eq (by omega), h'.spanStop_eq (by omega),
    hcount, hcount]

theorem getElem?_nodes (h : t.MadeOf rs) {i : ℕ} (hi : i < rs.length) : t.nodes[i]? =
    some ⟨rs[i].kind, rs[i].value, (operandCount (rs.take (i + 1))).toUInt32⟩ := by
  rw [← Array.getElem?_toList, h.nodes, List.getElem?_mapIdx, List.getElem?_eq_getElem hi]
  rfl

theorem getElem?_records (h : t.MadeOf rs) {i : ℕ} (hi : i < rs.length)
    (hfew : operandCount (rs.take (i + 1)) < 2 ^ 32) : t.records[i]? = some rs[i] := by
  rw [Tape.getElem?_records, h.getElem?_nodes hi, h.edges_eq hi hfew]
  rfl

theorem readNode?_eq [Zero F] (h : t.MadeOf rs) {i : ℕ} (hi : i < rs.length)
    (hfew : operandCount (rs.take (i + 1)) < 2 ^ 32) :
    t.readNode? i = some (rs[i].entry (t.adjointAt i)) := by
  have hspan : t.spanStart i ≤ t.spanStop i := by
    have hle := operandCount_take_le rs (Nat.le_add_right i 1)
    rw [h.spanStart_eq hi.le, h.spanStop_eq hi, Nat.mod_eq_of_lt hfew,
      Nat.mod_eq_of_lt (hle.trans_lt hfew)]
    exact hle
  rw [readNode?, if_neg (Nat.not_lt_of_le hspan), h.getElem?_nodes hi, h.edges_eq hi hfew]
  rfl

theorem records_eq (h : t.MadeOf rs) (hfew : operandCount rs < 2 ^ 32) : t.records = rs := by
  have hlength : t.records.length = rs.length := t.length_records.trans h.size_eq
  refine List.ext_getElem hlength fun i hi hi' => ?_
  have hle := operandCount_take_le rs (Nat.succ_le_of_lt hi')
  rw [List.take_length] at hle
  have hrecord := h.getElem?_records hi' (hle.trans_lt hfew)
  exact Option.some.inj ((List.getElem?_eq_getElem hi).symm.trans hrecord)

theorem flatMap_edges (h : t.MadeOf rs) (hfew : operandCount rs < 2 ^ 32) :
    (List.range t.size).flatMap t.edges = rs.flatMap NodeRecord.edges := by
  have hedges : t.records.map NodeRecord.edges = (List.range t.size).map t.edges := by
    refine List.ext_getElem (by simp) fun i hi _ => ?_
    rw [List.length_map, length_records] at hi
    simp [records]
  rw [List.flatMap_def, ← hedges, h.records_eq hfew, List.flatMap_def]

/-- Once an end has wrapped, the spans miss some of the operands. -/
theorem length_flatMap_edges (h : t.MadeOf rs) {k : ℕ} (hk : k ≤ rs.length) :
    ((List.range k).flatMap t.edges).length ≤ operandCount (rs.take k) ∧
      (2 ^ 32 ≤ operandCount (rs.take k) →
        ((List.range k).flatMap t.edges).length < operandCount (rs.take k)) := by
  induction k with
  | zero => simp
  | succ k ih =>
    -- The span of the last node is as long as the difference of two wrapped ends, at most.
    have hown : (t.edges k).length ≤
        operandCount (rs.take (k + 1)) % 2 ^ 32 - operandCount (rs.take k) % 2 ^ 32 := by
      rw [Tape.edges_eq, h.spanStop_eq hk, h.spanStart_eq (Nat.le_of_succ_le hk)]
      exact List.length_take_le _ _
    have hle := operandCount_take_le rs (Nat.le_add_right k 1)
    obtain ⟨hall, hsome⟩ := ih (Nat.le_of_succ_le hk)
    rw [List.range_succ, List.flatMap_append, List.flatMap_singleton, List.length_append]
    omega

theorem map_flatMap_edges_iff {α : Type} (h : t.MadeOf rs) (f : ℕ × F → α) :
    ((List.range t.size).flatMap t.edges).map f = (rs.flatMap NodeRecord.edges).map f ↔
      operandCount rs < 2 ^ 32 := by
  refine ⟨fun hspans => by_contra fun hmany => ?_, fun hfew => by rw [h.flatMap_edges hfew]⟩
  -- Once an end has wrapped, the spans together are shorter than the stacks.
  have hshort := (h.length_flatMap_edges (le_refl _)).2
  have hcount : (rs.flatMap NodeRecord.edges).length = operandCount rs := List.length_flatMap
  have hlength := congrArg List.length hspans
  rw [List.take_length] at hshort
  rw [List.length_map, List.length_map, hcount, h.size_eq] at hlength
  exact Nat.ne_of_lt (hshort (Nat.le_of_not_lt hmany)) hlength

theorem flatMap_operands_iff (h : t.MadeOf rs) :
    (List.range t.size).flatMap (fun i => (t.edges i).map Prod.fst) = t.operands.toList ↔
      operandCount rs < 2 ^ 32 := by
  rw [← List.map_flatMap, h.operands]
  exact h.map_flatMap_edges_iff Prod.fst

theorem flatMap_partials_iff (h : t.MadeOf rs) :
    (List.range t.size).flatMap (fun i => (t.edges i).map Prod.snd) = t.partials.toList ↔
      operandCount rs < 2 ^ 32 := by
  rw [← List.map_flatMap, h.partials]
  exact h.map_flatMap_edges_iff Prod.snd

end MadeOf

theorem Initial.getElem?_nodes (h : t.Initial t') {i : ℕ} (hi : i < t.size) :
    t'.nodes[i]? = t.nodes[i]? := by
  obtain ⟨nodes, hnodes⟩ := h.nodes
  rw [← Array.getElem?_toList, ← Array.getElem?_toList, ← hnodes]
  exact List.getElem?_append_left hi

theorem Initial.spanStop_eq (h : t.Initial t') {i : ℕ} (hi : i < t.size) :
    t'.spanStop i = t.spanStop i := by
  rw [spanStop, spanStop, h.getElem?_nodes hi]

theorem Initial.spanStart_eq (h : t.Initial t') {i : ℕ} (hi : i ≤ t.size) :
    t'.spanStart i = t.spanStart i := by
  cases i with
  | zero => rfl
  | succ i => exact h.spanStop_eq hi

theorem Initial.edges_eq (h : t.Initial t') (hwf : t.WellFormed) {i : ℕ} (hi : i < t.size) :
    t'.edges i = t.edges i := by
  obtain ⟨operands, hoperands⟩ := h.operands
  obtain ⟨partials, hpartials⟩ := h.partials
  have hlen : t.operands.toList.length = t.partials.toList.length := hwf.balanced.symm
  have hstop : t.spanStop i ≤ (t.operands.toList.zip t.partials.toList).length := by
    rw [List.length_zip, ← hlen, Nat.min_self]
    exact hwf.ends i hi
  rw [Tape.edges_eq, Tape.edges_eq, h.spanStop_eq hi, h.spanStart_eq (Nat.le_of_lt hi),
    ← hoperands, ← hpartials, List.zip_append hlen, List.drop_append, List.take_append]
  have hdrop := List.length_drop (i := t.spanStart i) (l := t.operands.toList.zip t.partials.toList)
  rw [hdrop, Nat.sub_eq_zero_of_le (Nat.sub_le_sub_right hstop _)]
  simp

end Tape

theorem Recording.madeOf_begun {s : Recorder F} {x : List F} :
    (begun s x).tape.MadeOf (x.map fun value => ⟨.input, value, []⟩) :=
  Tape.MadeOf.pushInputs (.of_empty rfl rfl rfl) x

end Autodiff
