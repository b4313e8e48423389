import Mathlib.Order.MinMax
import Autodiff.Tape.Recording
import Autodiff.Proofs.Stateful
import Autodiff.Proofs.Tape.WellFormed

set_option autoImplicit false

namespace Autodiff

variable {F α β : Type}

namespace Tape

/-- The number of nodes at which a tape refuses the next one. -/
def bound (t : Tape F) : ℕ := min (t.limit.getD Handle.noNode.toNat) Handle.noNode.toNat

theorem isFull_iff (t : Tape F) : t.isFull = true ↔ t.bound ≤ t.size := by
  unfold isFull bound size
  cases t.limit with
  | none => simp
  | some limit => simp

theorem bound_of_none {t : Tape F} (h : t.limit = none) : t.bound = Handle.noNode.toNat := by
  rw [bound, h, Option.getD_none, Nat.min_self]

theorem bound_of_some {t : Tape F} {limit : ℕ} (h : t.limit = some limit) :
    t.bound = min limit Handle.noNode.toNat := by
  rw [bound, h, Option.getD_some]

theorem capacity_of_none {t : Tape F} (h : t.limit = none) : t.capacity = t.size := by
  rw [capacity, h]
  rfl

theorem capacity_of_some {t : Tape F} {limit : ℕ} (h : t.limit = some limit) :
    t.capacity = limit := by
  rw [capacity, h]
  rfl

theorem lt_of_mem_liveEdges {t : Tape F} {args : List (Handle F)} {partials : List F}
    (hlive : ∀ x ∈ args, t.Live x) {e : ℕ × F}
    (he : e ∈ liveEdges (args.map Handle.node) partials) : e.1 < t.size := by
  obtain ⟨⟨operand, p⟩, hmem, hsome⟩ := List.mem_filterMap.mp he
  obtain ⟨i, rfl, rfl⟩ := Option.map_eq_some_iff.mp hsome
  obtain ⟨x, hx, hnode⟩ := List.mem_map.mp (List.of_mem_zip hmem).1
  exact (hlive x hx i hnode).2

theorem liveEdges_replicate (n i : ℕ) (p : F) :
    liveEdges (.replicate n (some i)) (.replicate n p) = .replicate n (i, p) := by
  rw [liveEdges, List.zip_replicate', List.filterMap_replicate]
  rfl

theorem forM_requireLive_of_live {t : Tape F} {args : List (Handle F)}
    (hlive : ∀ x ∈ args, t.Live x) : args.forM t.requireLive = .ok ⟨⟩ := by
  induction args with
  | nil => rfl
  | cons x args ih =>
    obtain ⟨hx, hargs⟩ := List.forall_mem_cons.mp hlive
    change (t.requireLive x >>= fun _ => args.forM t.requireLive) = _
    rw [requireLive_of_live hx]
    exact ih hargs

theorem forM_requireLive_of_stale {t : Tape F} {args : List (Handle F)} {x : Handle F}
    (hx : x ∈ args) (hstale : ¬ t.Live x) :
    ∃ i epoch, args.forM t.requireLive = .error (.fault (.staleVariable i epoch t.epoch)) := by
  induction args with
  | nil => exact absurd hx List.not_mem_nil
  | cons y args ih =>
    change ∃ i epoch, (t.requireLive y >>= fun _ => args.forM t.requireLive) = _
    by_cases hy : t.Live y
    · have hrest : x ∈ args := by
        refine (List.mem_cons.mp hx).resolve_left fun hxy => hstale ?_
        exact hxy ▸ hy
      rw [requireLive_of_live hy]
      exact ih hrest
    · obtain ⟨i, hi⟩ := requireLive_of_not_live hy
      rw [hi]
      exact ⟨i, y.epoch, rfl⟩

theorem live_or_error (t : Tape F) (args : List (Handle F)) :
    (∀ x ∈ args, t.Live x) ∨ ∃ e, args.forM t.requireLive = .error e := by
  by_cases hlive : ∀ x ∈ args, t.Live x
  · exact .inl hlive
  · push Not at hlive
    obtain ⟨x, hx, hstale⟩ := hlive
    obtain ⟨i, epoch, h⟩ := forM_requireLive_of_stale hx hstale
    exact .inr ⟨_, h⟩

end Tape

namespace Recorder

def refused (s : Recorder F) : Recorder F where
  tape := { s.tape with exhausted := true }
  events := if s.tape.exhausted then s.events
    else s.events ++ [.exhausted s.tape.capacity s.tape.epoch]

def pushed (s : Recorder F) (kind : NodeKind) (edges : List (ℕ × F)) (value : F) : Recorder F :=
  { s with tape := s.tape.push kind edges value }

/-- The recorder after a node with too young an operand: the operands before that one stay. -/
def extended (s : Recorder F) (edges : List (ℕ × F)) : Recorder F :=
  { s with tape := s.tape.extend edges }

theorem extended_nil (s : Recorder F) : s.extended [] = s := by
  simp [extended, Tape.extend]

theorem refused_of_exhausted {s : Recorder F} (h : s.tape.exhausted = true) : s.refused = s := by
  obtain ⟨t, events⟩ := s
  obtain ⟨nodes, operands, partials, adjoints, epoch, limit, exhausted⟩ := t
  obtain rfl : exhausted = true := h
  rfl

end Recorder

namespace Recording

variable {s : Recorder F}

theorem forM_ofOutcome (xs : List β) (f : β → Outcome F PUnit) :
    (xs.forM fun x => (ofOutcome (f x) : Recording F PUnit)) = ofOutcome (xs.forM f) := by
  induction xs with
  | nil => rfl
  | cons x xs ih =>
    funext s
    change (ofOutcome (f x) >>= fun _ => xs.forM fun x => ofOutcome (f x) : Recording F PUnit) s =
      ((f x >>= fun _ => xs.forM f : Outcome F PUnit), s)
    rw [run_bind, ih]
    cases f x <;> rfl

theorem append?_full {kind : NodeKind} {operands : List (Option ℕ)} {partials : List F} {value : F}
    (hlen : operands.length = partials.length) (hfull : s.tape.isFull = true) :
    append? kind operands partials value s = (.ok none, s.refused) := by
  unfold append?
  rw [if_neg (not_not.mpr hlen), run_bind]
  change (if s.tape.isFull = true then _ else _ : Recording F (Option ℕ)) s = _
  rw [if_pos hfull]
  rfl

theorem append?_room {kind : NodeKind} {operands : List (Option ℕ)} {partials : List F} {value : F}
    (hlen : operands.length = partials.length) (hroom : s.tape.isFull = false)
    (hold : ∀ e ∈ Tape.liveEdges operands partials, e.1 < s.tape.size) :
    append? kind operands partials value s =
      (.ok (some s.tape.size), s.pushed kind (Tape.liveEdges operands partials) value) := by
  unfold append?
  rw [if_neg (not_not.mpr hlen), run_bind]
  change (if s.tape.isFull = true then _ else _ : Recording F (Option ℕ)) s = _
  rw [if_neg (by simp [hroom])]
  cases hfind : (Tape.liveEdges operands partials).find? _ with
  | none => rfl
  | some e =>
    have hlt : e.1 < s.tape.nodes.size := hold e (List.mem_of_find?_eq_some hfind)
    have hle : s.tape.nodes.size ≤ e.1 := by simpa using List.find?_some hfind
    omega

theorem append?_cases (kind : NodeKind) (operands : List (Option ℕ)) (partials : List F) (value : F)
    (s : Recorder F) :
    (∃ cause edges, append? kind operands partials value s =
      (.error (.fault cause), s.extended edges)) ∨
    s.tape.isFull = true ∧ append? kind operands partials value s = (.ok none, s.refused) ∨
    s.tape.isFull = false ∧ (∀ e ∈ Tape.liveEdges operands partials, e.1 < s.tape.size) ∧
      append? kind operands partials value s =
        (.ok (some s.tape.size), s.pushed kind (Tape.liveEdges operands partials) value) := by
  by_cases hlen : operands.length = partials.length
  · cases hfull : s.tape.isFull with
    | true => exact .inr (.inl ⟨rfl, append?_full hlen hfull⟩)
    | false =>
      by_cases hold : ∀ e ∈ Tape.liveEdges operands partials, e.1 < s.tape.size
      · exact .inr (.inr ⟨rfl, hold, append?_room hlen hfull hold⟩)
      · refine .inl ?_
        unfold append?
        rw [if_neg (not_not.mpr hlen), run_bind]
        change ∃ cause edges, (if s.tape.isFull = true then _ else _ : Recording F (Option ℕ)) s = _
        rw [if_neg (by simp [hfull])]
        cases hfind : (Tape.liveEdges operands partials).find? _ with
        | none =>
          refine absurd (fun e he => ?_) hold
          have hlt := List.find?_eq_none.mp hfind e he
          exact Nat.lt_of_not_le fun hle => hlt (decide_eq_true hle)
        | some e => exact ⟨_, _, rfl⟩
  · refine .inl ⟨.partialCount kind.label, [], ?_⟩
    unfold append?
    rw [if_pos hlen, s.extended_nil]
    rfl

theorem node_error {args : List (Handle F)} {e : Failure F}
    (h : args.forM s.tape.requireLive = .error e) (kind : NodeKind) (partials : List F) (value : F) :
    node kind args partials value s = (.error e, s) := by
  unfold node
  rw [run_bind]
  simp only [tape]
  rw [forM_ofOutcome, run_bind, h]
  rfl

theorem node_stale (kind : NodeKind) {args : List (Handle F)} (partials : List F) (value : F)
    {x : Handle F} (hx : x ∈ args) (hstale : ¬ s.tape.Live x) :
    ∃ i epoch, node kind args partials value s =
      (.error (.fault (.staleVariable i epoch s.tape.epoch)), s) := by
  obtain ⟨i, epoch, h⟩ := Tape.forM_requireLive_of_stale hx hstale
  exact ⟨i, epoch, node_error h kind partials value⟩

theorem node_constant (kind : NodeKind) {args : List (Handle F)} (partials : List F) (value : F)
    (hlive : ∀ x ∈ args, s.tape.Live x) (hall : args.all Handle.isConstant = true) :
    node kind args partials value s = (.ok (.constant value), s) := by
  unfold node
  rw [run_bind]
  simp only [tape]
  rw [forM_ofOutcome, run_bind, Tape.forM_requireLive_of_live hlive]
  simp only [ofOutcome, hall]
  rfl

theorem node_live (kind : NodeKind) {args : List (Handle F)} (partials : List F) (value : F)
    (hlive : ∀ x ∈ args, s.tape.Live x) (hall : args.all Handle.isConstant = false) :
    node kind args partials value s =
      match append? kind (args.map Handle.node) partials value s with
      | (.ok index?, s') =>
        (.ok (index?.elim (.constant value) fun index => ⟨value, some index, s.tape.epoch⟩), s')
      | (.error e, s') => (.error e, s') := by
  unfold node
  rw [run_bind]
  simp only [tape]
  rw [forM_ofOutcome, run_bind, Tape.forM_requireLive_of_live hlive]
  simp only [ofOutcome, hall]
  rw [if_neg Bool.false_ne_true, run_bind]
  rcases append? kind (args.map Handle.node) partials value s with ⟨r, s'⟩
  cases r with
  | error e => rfl
  | ok index? => cases index? <;> rfl

theorem node_append (kind : NodeKind) {args : List (Handle F)} {partials : List F} (value : F)
    (hlive : ∀ x ∈ args, s.tape.Live x) (hall : args.all Handle.isConstant = false)
    {index? : Option ℕ} {s' : Recorder F}
    (happend : append? kind (args.map Handle.node) partials value s = (.ok index?, s')) :
    node kind args partials value s =
      (.ok (index?.elim (.constant value) fun index => ⟨value, some index, s.tape.epoch⟩), s') := by
  rw [node_live kind partials value hlive hall, happend]

theorem node_cases (kind : NodeKind) {args : List (Handle F)} {partials : List F} (value : F)
    (hlive : ∀ x ∈ args, s.tape.Live x) (hlen : args.length = partials.length) :
    args.all Handle.isConstant = true ∧
      node kind args partials value s = (.ok (.constant value), s) ∨
    args.all Handle.isConstant = false ∧ s.tape.isFull = true ∧
      node kind args partials value s = (.ok (.constant value), s.refused) ∨
    args.all Handle.isConstant = false ∧ s.tape.isFull = false ∧
      node kind args partials value s = (.ok ⟨value, some s.tape.size, s.tape.epoch⟩,
        s.pushed kind (Tape.liveEdges (args.map Handle.node) partials) value) := by
  have hlen' : (args.map Handle.node).length = partials.length := by rw [List.length_map, hlen]
  cases hall : args.all Handle.isConstant with
  | true => exact .inl ⟨rfl, node_constant kind partials value hlive hall⟩
  | false =>
    cases hfull : s.tape.isFull with
    | true =>
      have happend : append? kind (args.map Handle.node) partials value s = (.ok none, s.refused) :=
        append?_full hlen' hfull
      exact .inr (.inl ⟨rfl, rfl, node_append kind value hlive hall happend⟩)
    | false =>
      have hold : ∀ e ∈ Tape.liveEdges (args.map Handle.node) partials, e.1 < s.tape.size :=
        fun e he => Tape.lt_of_mem_liveEdges hlive he
      have happend : append? kind (args.map Handle.node) partials value s =
          (.ok (some s.tape.size), s.pushed kind (Tape.liveEdges (args.map Handle.node) partials)
            value) :=
        append?_room hlen' hfull hold
      exact .inr (.inr ⟨rfl, rfl, node_append kind value hlive hall happend⟩)

theorem node_of_live (kind : NodeKind) {args : List (Handle F)} {partials : List F} (value : F)
    (hlive : ∀ x ∈ args, s.tape.Live x) (hlen : args.length = partials.length) :
    node kind args partials value s =
      if args.all Handle.isConstant then (.ok (.constant value), s)
      else if s.tape.isFull then (.ok (.constant value), s.refused)
      else (.ok ⟨value, some s.tape.size, s.tape.epoch⟩,
        s.pushed kind (Tape.liveEdges (args.map Handle.node) partials) value) := by
  rcases node_cases kind value hlive hlen with
    ⟨hall, hrun⟩ | ⟨hall, hfull, hrun⟩ | ⟨hall, hroom, hrun⟩
  · rw [hrun, if_pos hall]
  · rw [hrun, if_neg (Bool.eq_false_iff.mp hall), if_pos hfull]
  · rw [hrun, if_neg (Bool.eq_false_iff.mp hall), if_neg (Bool.eq_false_iff.mp hroom)]

theorem node_replicate (hroom : s.tape.isFull = false) (kind : NodeKind) {x : Handle F} {i n : ℕ}
    (hx : s.tape.Live x) (hnode : x.node = some i) (hn : 0 < n) (p value : F) :
    node kind (.replicate n x) (.replicate n p) value s =
      (.ok ⟨value, some s.tape.size, s.tape.epoch⟩, s.pushed kind (.replicate n (i, p)) value) := by
  have hlive : ∀ y ∈ List.replicate n x, s.tape.Live y := fun y hy =>
    List.eq_of_mem_replicate hy ▸ hx
  have hall : (List.replicate n x).all Handle.isConstant = false := by
    rw [List.all_replicate, if_neg hn.ne', Handle.isConstant, hnode]
    rfl
  rw [node_of_live kind value hlive (by simp), hall, hroom, List.map_replicate, hnode,
    Tape.liveEdges_replicate]
  rfl

theorem all_isConstant (xs : List (Handle F)) :
    xs.all Handle.isConstant = (xs.map Handle.node).all Option.isNone :=
  List.all_map.symm

end Recording

end Autodiff
