import Autodiff.Proofs.Tape.Records
import Autodiff.Proofs.Tape.Sweep

set_option autoImplicit false

namespace Autodiff

variable {F : Type}

/-- `inspect` stands for every reader that names no handle and no node. -/
inductive Request (F : Type) where
  | input (value : F)
  | append (kind : NodeKind) (operands : List (Option ℕ)) (partials : List F) (value : F)
  | unary (kind : NodeKind) (x : Handle F) (dx value : F)
  | binary (kind : NodeKind) (x : Handle F) (dx : F) (y : Handle F) (dy value : F)
  | node (kind : NodeKind) (args : List (Handle F)) (partials : List F) (value : F)
  | backward (output : Handle F)
  | backwardFrom (seeds : List (Handle F × F))
  | valueOf (x : Handle F)
  | adjointOf (x : Handle F)
  | entry (i : ℕ)
  | inspect
  | nextEpoch

inductive Reply (F : Type) where
  | handle (x : Handle F)
  | index (i : ℕ)
  | adjoints (a : List F)
  | number (x : F)
  | entry (e : NodeEntry F)
  | tape (t : Tape F)

abbrev Exchange (F : Type) := Request F × Outcome F (Reply F)

namespace Request

def args : Request F → List (Handle F)
  | .unary _ x _ _ => [x]
  | .binary _ x _ y _ _ => [x, y]
  | .node _ args _ _ => args
  | .backward output => [output]
  | .backwardFrom seeds => seeds.map Prod.fst
  | .valueOf x => [x]
  | .adjointOf x => [x]
  | _ => []

def record? : Request F → Option (NodeRecord F)
  | .input value => some ⟨.input, value, []⟩
  | .append kind operands partials value => some ⟨kind, value, Tape.liveEdges operands partials⟩
  | .unary kind x dx value => some ⟨kind, value, Tape.liveEdges [x.node] [dx]⟩
  | .binary kind x dx y dy value => some ⟨kind, value, Tape.liveEdges [x.node, y.node] [dx, dy]⟩
  | .node kind args partials value =>
    some ⟨kind, value, Tape.liveEdges (args.map Handle.node) partials⟩
  | _ => none

def isReset : Request F → Bool
  | .nextEpoch => true
  | _ => false

def isSweep : Request F → Bool
  | .backward _ | .backwardFrom _ => true
  | _ => false

variable [Arith F] [Functions F]

def perform : Request F → Recording F (Reply F)
  | .input value => return .handle (← Recording.input value)
  | .append kind operands partials value =>
    return .index (← Recording.append kind operands partials value)
  | .unary kind x dx value => return .handle (← Recording.unaryNode kind x dx value)
  | .binary kind x dx y dy value => return .handle (← Recording.binaryNode kind x dx y dy value)
  | .node kind args partials value => return .handle (← Recording.node kind args partials value)
  | .backward output => return .adjoints (← Recording.backward output)
  | .backwardFrom seeds => return .adjoints (← Recording.backwardFrom seeds)
  | .valueOf x => do return .number (← Recording.ofOutcome ((← Recording.tape).valueOf x))
  | .adjointOf x => do return .number (← Recording.ofOutcome ((← Recording.tape).adjointOf x))
  | .entry i => do
    match Tape.readNode? (← Recording.tape) i with
    | some e => return .entry e
    | none => Recording.fault .outOfRange
  | .inspect => return .tape (← Recording.tape)
  | .nextEpoch => do
    Recording.nextEpoch
    return .tape (← Recording.tape)

end Request

namespace Exchange

/-- A refused recording answers with an error, or with a constant although an operand is none. -/
def isRefused : Exchange F → Bool
  | (request, .ok (.handle y)) => y.isConstant && !request.args.all Handle.isConstant
  | (_, .error (.error (.exhausted _))) => true
  | _ => false

def record? : Exchange F → Option (NodeRecord F)
  | (request, .ok (.handle x)) => if x.isConstant then none else request.record?
  | (request, .ok (.index _)) => request.record?
  | _ => none

end Exchange

inductive Effect (s : Recorder F) : Exchange F → Recorder F → Prop where
  | kept {e : Exchange F} (adjoints : Array F) (hreset : e.1.isReset = false)
      (hrefused : e.isRefused = false) (hrecord : e.record? = none)
      (hnode : ∀ x, e.2 = .ok (.handle x) → x.node = none) :
      Effect s e (s.withAdjoints adjoints)
  | pushed {e : Exchange F} (r : NodeRecord F) (hrecord : e.record? = some r)
      (hroom : s.tape.isFull = false) (hold : ∀ k ∈ r.edges, k.1 < s.tape.size)
      (hreset : e.1.isReset = false) (hrefused : e.isRefused = false)
      (hnode : ∀ x, e.2 = .ok (.handle x) → x = ⟨r.value, some s.tape.size, s.tape.epoch⟩) :
      Effect s e (s.pushed r.kind r.edges r.value)
  | refused {e : Exchange F} (hfull : s.tape.isFull = true) (hreset : e.1.isReset = false)
      (hrefused : e.isRefused = true) (hrecord : e.record? = none)
      (hnode : ∀ x, e.2 = .ok (.handle x) → x.node = none) : Effect s e s.refused
  | reset {e : Exchange F} (hreset : e.1.isReset = true) (hrefused : e.isRefused = false)
      (hnode : ∀ x, e.2 ≠ .ok (.handle x)) : Effect s e { s with tape := s.tape.nextEpoch }

namespace Effect

variable {s s' : Recorder F} {request : Request F} {outcome : Outcome F (Reply F)}

theorem of_pushed {x : Handle F} {kind : NodeKind} {es : List (ℕ × F)} {value : F}
    (hrecord : request.record? = some ⟨kind, value, es⟩) (hroom : s.tape.isFull = false)
    (hold : ∀ k ∈ es, k.1 < s.tape.size) (hreset : request.isReset = false)
    (hx : x = ⟨value, some s.tape.size, s.tape.epoch⟩) :
    Effect s (request, .ok (.handle x)) (s.pushed kind es value) := by
  subst hx
  refine .pushed ⟨kind, value, es⟩ hrecord hroom hold hreset rfl fun y hy => ?_
  injection hy with h
  injection h with h
  exact h.symm

theorem of_constant {value : F} (hall : request.args.all Handle.isConstant = true)
    (hreset : request.isReset = false) : Effect s (request, .ok (.handle (.constant value))) s := by
  refine .kept s.tape.adjoints hreset ?_ rfl fun x hx => ?_
  · simp [Exchange.isRefused, hall]
  · obtain rfl : Handle.constant value = x := by injection hx with h; injection h
    rfl

theorem of_refused {value : F} (hall : request.args.all Handle.isConstant = false)
    (hfull : s.tape.isFull = true) (hreset : request.isReset = false) :
    Effect s (request, .ok (.handle (.constant value))) s.refused := by
  refine .refused hfull hreset ?_ rfl fun x hx => ?_
  · simp [Exchange.isRefused, hall, Handle.isConstant, Handle.constant]
  · obtain rfl : Handle.constant value = x := by injection hx with h; injection h
    rfl

end Effect

namespace Tape

theorem valueOf_stale {t : Tape F} {x : Handle F} (hstale : ¬ t.Live x) :
    ∃ i, t.valueOf x = .error (.fault (.staleVariable i x.epoch t.epoch)) := by
  obtain ⟨i, hi⟩ := requireLive_of_not_live hstale
  refine ⟨i, ?_⟩
  unfold valueOf
  rw [hi]
  rfl

theorem adjointOf_stale [Zero F] {t : Tape F} {x : Handle F} (hstale : ¬ t.Live x) :
    ∃ i, t.adjointOf x = .error (.fault (.staleVariable i x.epoch t.epoch)) := by
  obtain ⟨i, hi⟩ := requireLive_of_not_live hstale
  refine ⟨i, ?_⟩
  unfold adjointOf
  rw [hi]
  rfl

theorem valueOf_live {t : Tape F} {x : Handle F} (hlive : t.Live x) :
    t.valueOf x =
      .ok (x.node.elim x.value fun i => (t.nodes[i]?).elim x.value Node.value) := by
  unfold valueOf
  rw [requireLive_of_live hlive]
  cases x.node <;> rfl

theorem adjointOf_live [Zero F] {t : Tape F} {x : Handle F} (hlive : t.Live x) :
    t.adjointOf x = .ok (x.node.elim 0 t.adjointAt) := by
  unfold adjointOf
  rw [requireLive_of_live hlive]
  rfl

end Tape

namespace Request

variable {s s' : Recorder F} {request : Request F} {outcome : Outcome F (Reply F)}

theorem effect_input {value : F}
    (h : (Recording.input value >>= fun x => pure (.handle x)) s = (outcome, s')) :
    Effect s (.input value, outcome) s' := by
  rw [run_bind] at h
  cases hfull : s.tape.isFull with
  | true =>
    rw [Recording.input_full hfull] at h
    cases h
    exact .refused hfull rfl rfl rfl nofun
  | false =>
    rw [Recording.input_room hfull] at h
    cases h
    exact .of_pushed rfl hfull (fun k hk => absurd hk List.not_mem_nil) rfl rfl

theorem effect_append {kind : NodeKind} {operands : List (Option ℕ)} {partials : List F} {value : F}
    (h : (Recording.append kind operands partials value >>= fun i => pure (.index i)) s =
      (outcome, s')) (hfault : ∀ cause, outcome ≠ .error (.fault cause)) :
    Effect s (.append kind operands partials value, outcome) s' := by
  unfold Recording.append at h
  rw [run_bind, run_bind] at h
  rcases Recording.append?_cases kind operands partials value s with
    ⟨cause, edges, hrun⟩ | ⟨hfull, hrun⟩ | ⟨hroom, hold, hrun⟩
  · rw [hrun] at h
    cases h
    exact absurd rfl (hfault cause)
  · rw [hrun] at h
    cases h
    exact .refused hfull rfl rfl rfl nofun
  · rw [hrun] at h
    cases h
    exact .pushed ⟨kind, value, _⟩ rfl hroom hold rfl rfl fun x hx => nomatch hx

theorem effect_node {kind : NodeKind} (partials : List F) {value : F}
    (hrecord : request.record? =
      some ⟨kind, value, Tape.liveEdges (request.args.map Handle.node) partials⟩)
    (hreset : request.isReset = false)
    (h : (Recording.node kind request.args partials value >>= fun x => pure (.handle x)) s =
      (outcome, s')) (hfault : ∀ cause, outcome ≠ .error (.fault cause)) :
    Effect s (request, outcome) s' := by
  rw [run_bind] at h
  by_cases hlive : ∀ x ∈ request.args, s.tape.Live x
  -- Live operands: constants leave no trace, any other operand asks for a node.
  · cases hall : request.args.all Handle.isConstant with
    | true =>
      rw [Recording.node_constant kind partials value hlive hall] at h
      cases h
      exact .of_constant hall hreset
    | false =>
      rw [Recording.node_live kind partials value hlive hall] at h
      rcases Recording.append?_cases kind (request.args.map Handle.node) partials value s with
        ⟨cause, edges, hrun⟩ | ⟨hfull, hrun⟩ | ⟨hroom, hold, hrun⟩
      · rw [hrun] at h
        cases h
        exact absurd rfl (hfault cause)
      · rw [hrun] at h
        cases h
        exact .of_refused hall hfull hreset
      · rw [hrun] at h
        cases h
        exact .of_pushed hrecord hroom hold hreset rfl
  · push Not at hlive
    obtain ⟨x, hx, hstale⟩ := hlive
    obtain ⟨i, epoch, hrun⟩ := Recording.node_stale kind partials value hx hstale
    rw [hrun] at h
    cases h
    exact absurd rfl (hfault _)

theorem effect_read {reply : Reply F} (hreset : request.isReset = false)
    (hreply : ∀ x, reply ≠ .handle x) (hindex : ∀ i, reply ≠ .index i) :
    Effect s (request, .ok reply) s := by
  refine .kept s.tape.adjoints hreset ?_ ?_ fun x hx => absurd (Except.ok.inj hx) (hreply x)
  · cases reply with
    | handle x => exact absurd rfl (hreply x)
    | _ => rfl
  · cases reply with
    | handle x => exact absurd rfl (hreply x)
    | index i => exact absurd rfl (hindex i)
    | _ => rfl

theorem ofOutcome_error {α : Type} {r : Outcome F α} {g : α → Reply F} {e : Failure F}
    (h : r = .error e) : (Recording.ofOutcome r >>= fun a => pure (g a)) s = (.error e, s) := by
  rw [h]
  rfl

theorem effect_ofOutcome {α : Type} {r : Outcome F α} {g : α → Reply F}
    (hreset : request.isReset = false) (hg : ∀ a x, g a ≠ .handle x) (hg' : ∀ a i, g a ≠ .index i)
    (hr : ∀ e, r = .error e → ∃ cause, e = .fault cause)
    (h : (Recording.ofOutcome r >>= fun a => pure (g a)) s = (outcome, s'))
    (hfault : ∀ cause, outcome ≠ .error (.fault cause)) : Effect s (request, outcome) s' := by
  rw [run_bind] at h
  cases r with
  | ok a =>
    cases h
    exact effect_read hreset (hg a) (hg' a)
  | error e =>
    cases h
    obtain ⟨cause, rfl⟩ := hr e rfl
    exact absurd rfl (hfault cause)

variable [Arith F] [Functions F]

theorem effect_backwardFrom (seeds : List (Handle F × F)) (hreset : request.isReset = false)
    (h : (Recording.backwardFrom seeds >>= fun a => pure (.adjoints a)) s = (outcome, s'))
    (hfault : ∀ cause, outcome ≠ .error (.fault cause)) : Effect s (request, outcome) s' := by
  rw [run_bind] at h
  by_cases hlive : ∀ x ∈ seeds.map Prod.fst, s.tape.Live x
  · rw [Recording.backwardFrom_of_live fun e he => hlive _ (List.mem_map_of_mem he)] at h
    cases h
    exact .kept _ hreset rfl rfl nofun
  · push Not at hlive
    obtain ⟨x, hx, hstale⟩ := hlive
    obtain ⟨i, epoch, adjoints, hrun⟩ := Recording.backwardFrom_stale hx hstale
    rw [hrun] at h
    cases h
    exact absurd rfl (hfault _)

theorem effect_valueOf {x : Handle F} (h : (Request.valueOf x).perform s = (outcome, s'))
    (hfault : ∀ cause, outcome ≠ .error (.fault cause)) : Effect s (.valueOf x, outcome) s' := by
  refine effect_ofOutcome (g := .number) rfl (fun _ _ => nofun) (fun _ _ => nofun)
    (fun e he => ?_) h hfault
  by_cases hlive : s.tape.Live x
  · rw [Tape.valueOf_live hlive] at he
    cases he
  · obtain ⟨i, hi⟩ := Tape.valueOf_stale hlive
    exact ⟨_, Except.error.inj (he.symm.trans hi)⟩

theorem effect_adjointOf {x : Handle F} (h : (Request.adjointOf x).perform s = (outcome, s'))
    (hfault : ∀ cause, outcome ≠ .error (.fault cause)) : Effect s (.adjointOf x, outcome) s' := by
  refine effect_ofOutcome (g := .number) rfl (fun _ _ => nofun) (fun _ _ => nofun)
    (fun e he => ?_) h hfault
  by_cases hlive : s.tape.Live x
  · rw [Tape.adjointOf_live hlive] at he
    cases he
  · obtain ⟨i, hi⟩ := Tape.adjointOf_stale hlive
    exact ⟨_, Except.error.inj (he.symm.trans hi)⟩

theorem effect_entry {i : ℕ} (h : (Request.entry i).perform s = (outcome, s'))
    (hfault : ∀ cause, outcome ≠ .error (.fault cause)) : Effect s (.entry i, outcome) s' := by
  rw [perform, run_bind] at h
  simp only [Recording.tape] at h
  cases he : s.tape.readNode? i with
  | some e =>
    rw [he] at h
    cases h
    exact effect_read rfl (by simp) (by simp)
  | none =>
    rw [he] at h
    cases h
    exact absurd rfl (hfault .outOfRange)

theorem effect (request : Request F) (h : request.perform s = (outcome, s'))
    (hfault : ∀ cause, outcome ≠ .error (.fault cause)) : Effect s (request, outcome) s' := by
  cases request with
  | input value => exact effect_input h
  | append kind operands partials value => exact effect_append h hfault
  | unary kind x dx value => exact effect_node [dx] rfl rfl h hfault
  | binary kind x dx y dy value => exact effect_node [dx, dy] rfl rfl h hfault
  | node kind args partials value => exact effect_node partials rfl rfl h hfault
  | backward output => exact effect_backwardFrom [(output, 1)] rfl h hfault
  | backwardFrom seeds => exact effect_backwardFrom seeds rfl h hfault
  | valueOf x => exact effect_valueOf h hfault
  | adjointOf x => exact effect_adjointOf h hfault
  | entry i => exact effect_entry h hfault
  | inspect =>
    cases h
    exact effect_read rfl nofun nofun
  | nextEpoch =>
    cases h
    exact .reset rfl rfl nofun

/-- A request that uses a handle which is not live ends in a fault. Only a sweep has touched the tape
by then: its adjoints are cleared, and seeded in part. -/
theorem perform_stale (request : Request F) {x : Handle F} (hx : x ∈ request.args)
    (hstale : ¬ s.tape.Live x) :
    ∃ i epoch adjoints, request.perform s =
      (.error (.fault (.staleVariable i epoch s.tape.epoch)), s.withAdjoints adjoints) ∧
      (request.isSweep = false → adjoints = s.tape.adjoints) := by
  have hnode : ∀ kind args partials value, x ∈ args → ∃ i epoch,
      (Recording.node kind args partials value >>= fun x => pure (Reply.handle x)) s =
        (.error (.fault (.staleVariable i epoch s.tape.epoch)), s) := by
    intro kind args partials value hx
    obtain ⟨i, epoch, hrun⟩ := Recording.node_stale kind partials value hx hstale
    refine ⟨i, epoch, ?_⟩
    rw [run_bind, hrun]
  -- All requests but sweeps leave the adjoints alone.
  have hkept : ∀ request : Request F, (∃ i epoch, request.perform s =
      (.error (.fault (.staleVariable i epoch s.tape.epoch)), s)) →
      ∃ i epoch adjoints, request.perform s =
        (.error (.fault (.staleVariable i epoch s.tape.epoch)), s.withAdjoints adjoints) ∧
        (request.isSweep = false → adjoints = s.tape.adjoints) :=
    fun _ ⟨i, epoch, hrun⟩ => ⟨i, epoch, s.tape.adjoints, hrun, fun _ => rfl⟩
  have hsweep : ∀ seeds, x ∈ seeds.map Prod.fst → ∃ i epoch adjoints,
      (Recording.backwardFrom seeds >>= fun a => pure (Reply.adjoints a)) s =
        (.error (.fault (.staleVariable i epoch s.tape.epoch)), s.withAdjoints adjoints) := by
    intro seeds hx
    obtain ⟨i, epoch, adjoints, hrun⟩ := Recording.backwardFrom_stale hx hstale
    refine ⟨i, epoch, adjoints, ?_⟩
    rw [run_bind, hrun]
  cases request with
  | unary kind y dx value => exact hkept _ (hnode kind [y] [dx] value hx)
  | binary kind y dy z dz value => exact hkept _ (hnode kind [y, z] [dy, dz] value hx)
  | node kind args partials value => exact hkept _ (hnode kind args partials value hx)
  | backward output =>
    obtain ⟨i, epoch, adjoints, hrun⟩ := hsweep [(output, 1)] hx
    exact ⟨i, epoch, adjoints, hrun, nofun⟩
  | backwardFrom seeds =>
    obtain ⟨i, epoch, adjoints, hrun⟩ := hsweep seeds hx
    exact ⟨i, epoch, adjoints, hrun, nofun⟩
  | valueOf y =>
    obtain rfl : x = y := List.mem_singleton.mp hx
    obtain ⟨i, hi⟩ := Tape.valueOf_stale hstale
    exact hkept _ ⟨i, x.epoch, ofOutcome_error hi⟩
  | adjointOf y =>
    obtain rfl : x = y := List.mem_singleton.mp hx
    obtain ⟨i, hi⟩ := Tape.adjointOf_stale hstale
    exact hkept _ ⟨i, x.epoch, ofOutcome_error hi⟩
  | input | append | entry | inspect | nextEpoch => exact absurd hx List.not_mem_nil

end Request

end Autodiff
