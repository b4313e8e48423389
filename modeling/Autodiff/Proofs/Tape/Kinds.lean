import Autodiff.Proofs.Tape.Sweep

set_option autoImplicit false

namespace Autodiff

variable {F α : Type}

def Node.relabelFrom (n : ℕ) (kind : NodeKind) (i : ℕ) (node : Node F) : Node F :=
  if n ≤ i then { node with kind := kind } else node

theorem Node.stop_relabelFrom (n : ℕ) (kind : NodeKind) (i : ℕ) (node : Node F) :
    (node.relabelFrom n kind i).stop = node.stop := by
  unfold relabelFrom
  split <;> rfl

namespace Tape

def relabelFrom (t : Tape F) (n : ℕ) (kind : NodeKind) : Tape F :=
  { t with nodes := t.nodes.mapIdx (Node.relabelFrom n kind) }

theorem mapIdx_relabelFrom_size (nodes : Array (Node F)) (kind : NodeKind) :
    nodes.mapIdx (Node.relabelFrom nodes.size kind) = nodes := by
  refine Array.ext Array.size_mapIdx fun i hi hi' => ?_
  rw [Array.getElem_mapIdx, Node.relabelFrom, if_neg (Nat.not_le_of_lt hi')]

theorem relabelFrom_size (t : Tape F) (kind : NodeKind) : t.relabelFrom t.size kind = t :=
  congrArg (fun nodes => { t with nodes := nodes }) (mapIdx_relabelFrom_size t.nodes kind)

theorem relabelFrom_push (t : Tape F) (kind kind' : NodeKind) (es : List (ℕ × F)) (value : F) :
    (t.push kind es value).relabelFrom t.size kind' = t.push kind' es value := by
  have hnodes (stop : UInt32) : (t.nodes.push ⟨kind, value, stop⟩).mapIdx
      (Node.relabelFrom t.nodes.size kind') = t.nodes.push ⟨kind', value, stop⟩ := by
    rw [Array.mapIdx_push, mapIdx_relabelFrom_size, Node.relabelFrom, if_pos (le_refl _)]
  exact congrArg (fun nodes => { t.push kind' es value with nodes := nodes }) (hnodes _)

end Tape

namespace Recording

def relabelled (kind : NodeKind) (m : Recording F α) : Recording F α := fun s =>
  let (r, s') := m s
  (r, { s' with tape := s'.tape.relabelFrom s.tape.size kind })

variable {args : List (Handle F)} {partials : List F}

/-- The kind of a node decides nothing else. -/
theorem node_relabelled (kind kind' : NodeKind) (hlen : args.length = partials.length) (value : F) :
    (node kind args partials value).relabelled kind' = node kind' args partials value := by
  funext s
  have hrun (r : Outcome F (Handle F)) (s' : Recorder F)
      (h : node kind args partials value s = (r, s')) :
      (node kind args partials value).relabelled kind' s =
        (r, { s' with tape := s'.tape.relabelFrom s.tape.size kind' }) := by
    rw [relabelled, h]
  rcases s.tape.live_or_error args with hlive | ⟨e, he⟩
  · rw [node_of_live kind' value hlive hlen]
    rcases node_cases kind value hlive hlen with
      ⟨hall, h⟩ | ⟨hall, hfull, h⟩ | ⟨hall, hroom, h⟩
    · rw [hrun _ _ h, if_pos hall, Tape.relabelFrom_size]
    · rw [hrun _ _ h, if_neg (Bool.eq_false_iff.mp hall), if_pos hfull]
      exact congrArg (fun t => (_, { s.refused with tape := t }))
        (s.refused.tape.relabelFrom_size kind')
    · rw [hrun _ _ h, if_neg (Bool.eq_false_iff.mp hall), if_neg (Bool.eq_false_iff.mp hroom)]
      exact congrArg (fun t => (_, { s with tape := t })) (s.tape.relabelFrom_push kind kind' _ _)
  · rw [hrun _ _ (node_error he kind partials value), node_error he, Tape.relabelFrom_size]

end Recording

namespace Tape

def unlabelled (t : Tape F) : Tape F := t.relabelFrom 0 .affine

variable (t : Tape F) (n : ℕ) (kind : NodeKind)

theorem size_relabelFrom : (t.relabelFrom n kind).size = t.size := Array.size_mapIdx

theorem getElem?_relabelFrom (i : ℕ) :
    (t.relabelFrom n kind).nodes[i]? = (t.nodes[i]?).map (Node.relabelFrom n kind i) :=
  Array.getElem?_mapIdx

theorem spanStop_relabelFrom (i : ℕ) : (t.relabelFrom n kind).spanStop i = t.spanStop i := by
  unfold spanStop
  rw [getElem?_relabelFrom]
  cases t.nodes[i]? with
  | none => rfl
  | some node => exact congrArg UInt32.toNat (node.stop_relabelFrom n kind i)

theorem spanStart_relabelFrom (i : ℕ) : (t.relabelFrom n kind).spanStart i = t.spanStart i := by
  cases i with
  | zero => rfl
  | succ i => exact t.spanStop_relabelFrom n kind i

theorem edges_relabelFrom (i : ℕ) : (t.relabelFrom n kind).edges i = t.edges i := by
  unfold edges
  rw [spanStart_relabelFrom, spanStop_relabelFrom]
  rfl

theorem unlabelled_relabelFrom : (t.relabelFrom n kind).unlabelled = t.unlabelled := by
  have hnodes : (t.nodes.mapIdx (Node.relabelFrom n kind)).mapIdx (Node.relabelFrom 0 .affine) =
      t.nodes.mapIdx (Node.relabelFrom 0 .affine) := by
    rw [Array.mapIdx_mapIdx]
    refine congrArg (Array.mapIdx · t.nodes) (funext fun i => funext fun node => ?_)
    change Node.relabelFrom 0 .affine i (Node.relabelFrom n kind i node) = _
    unfold Node.relabelFrom
    rw [if_pos (Nat.zero_le i), if_pos (Nat.zero_le i)]
    split <;> rfl
  exact congrArg (fun nodes => { t with nodes := nodes }) hnodes

theorem unlabelled_push (es : List (ℕ × F)) (value : F) :
    (t.push kind es value).unlabelled = t.unlabelled.push .affine es value := by
  have hnodes (stop : UInt32) : (t.nodes.push ⟨kind, value, stop⟩).mapIdx
      (Node.relabelFrom 0 .affine) =
        (t.nodes.mapIdx (Node.relabelFrom 0 .affine)).push ⟨.affine, value, stop⟩ := by
    rw [Array.mapIdx_push, Node.relabelFrom, if_pos (Nat.zero_le _)]
  exact congrArg (fun nodes => { t.push kind es value with nodes := nodes }) (hnodes _)

theorem requireLive_unlabelled (x : Handle F) :
    t.unlabelled.requireLive x = t.requireLive x := by
  unfold requireLive
  cases x.node with
  | none => rfl
  | some i =>
    have hsize : t.unlabelled.nodes.size = t.nodes.size := t.size_relabelFrom 0 .affine
    simp only [hsize]
    rfl

variable [Arith F] [Functions F]

theorem sweep_unlabelled : t.unlabelled.sweep = t.sweep := by
  have hsize : t.unlabelled.nodes.size = t.nodes.size := t.size_relabelFrom 0 .affine
  have hedges : t.unlabelled.edges = t.edges := funext (t.edges_relabelFrom 0 .affine)
  funext adjoints
  unfold sweep propagate
  simp only [hsize, hedges]

end Tape

namespace Recorder

structure Alike (s s' : Recorder F) : Prop where
  tape : s'.tape.unlabelled = s.tape.unlabelled
  events : s'.events = s.events

variable {s s' : Recorder F}

theorem Alike.refl (s : Recorder F) : s.Alike s := ⟨rfl, rfl⟩

theorem Alike.size_eq (h : s.Alike s') : s'.tape.size = s.tape.size := by
  rw [← Tape.size_relabelFrom s'.tape 0 .affine, ← Tape.size_relabelFrom s.tape 0 .affine]
  exact congrArg Tape.size h.tape

theorem Alike.epoch_eq (h : s.Alike s') : s'.tape.epoch = s.tape.epoch := by
  change s'.tape.unlabelled.epoch = s.tape.unlabelled.epoch
  rw [h.tape]

theorem Alike.exhausted_eq (h : s.Alike s') : s'.tape.exhausted = s.tape.exhausted := by
  change s'.tape.unlabelled.exhausted = s.tape.unlabelled.exhausted
  rw [h.tape]

theorem Alike.limit_eq (h : s.Alike s') : s'.tape.limit = s.tape.limit := by
  change s'.tape.unlabelled.limit = s.tape.unlabelled.limit
  rw [h.tape]

theorem Alike.isFull_eq (h : s.Alike s') : s'.tape.isFull = s.tape.isFull := by
  have hsize : s'.tape.nodes.size = s.tape.nodes.size := h.size_eq
  rw [Tape.isFull, Tape.isFull, h.limit_eq, hsize]

theorem Alike.capacity_eq (h : s.Alike s') : s'.tape.capacity = s.tape.capacity := by
  have hsize : s'.tape.nodes.size = s.tape.nodes.size := h.size_eq
  rw [Tape.capacity, Tape.capacity, h.limit_eq, hsize]

theorem Alike.requireLive_eq (h : s.Alike s') : s'.tape.requireLive = s.tape.requireLive := by
  funext x
  rw [← s'.tape.requireLive_unlabelled, h.tape, s.tape.requireLive_unlabelled]

theorem Alike.adjoints_eq (h : s.Alike s') : s'.tape.adjoints = s.tape.adjoints := by
  change s'.tape.unlabelled.adjoints = s.tape.unlabelled.adjoints
  rw [h.tape]

theorem Alike.sweep_eq [Arith F] [Functions F] (h : s.Alike s') :
    s'.tape.sweep = s.tape.sweep := by
  rw [← s'.tape.sweep_unlabelled, h.tape, s.tape.sweep_unlabelled]

theorem Alike.withAdjoints (h : s.Alike s') (adjoints : Array F) :
    (s.withAdjoints adjoints).Alike (s'.withAdjoints adjoints) where
  tape := congrArg (fun t : Tape F => { t with adjoints := adjoints }) h.tape
  events := h.events

theorem Alike.live (h : s.Alike s') {x : Handle F} (hx : s.tape.Live x) : s'.tape.Live x := by
  intro i hi
  rw [h.epoch_eq, h.size_eq]
  exact hx i hi

theorem Alike.relabelled (h : s.Alike s') (n : ℕ) (kind : NodeKind) :
    s.Alike { s' with tape := s'.tape.relabelFrom n kind } where
  tape := (s'.tape.unlabelled_relabelFrom n kind).trans h.tape
  events := h.events

theorem Alike.refused (h : s.Alike s') : s.refused.Alike s'.refused where
  tape := congrArg (fun t : Tape F => { t with exhausted := true }) h.tape
  events := by
    unfold Recorder.refused
    rw [h.events, h.exhausted_eq, h.capacity_eq, h.epoch_eq]

theorem Alike.pushed (h : s.Alike s') (kind kind' : NodeKind) (es : List (ℕ × F)) (value : F) :
    (s.pushed kind es value).Alike (s'.pushed kind' es value) where
  tape := by
    unfold Recorder.pushed
    rw [Tape.unlabelled_push, Tape.unlabelled_push, h.tape]
  events := h.events

end Recorder

end Autodiff
