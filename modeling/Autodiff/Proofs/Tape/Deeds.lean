import Autodiff.Proofs.Matrix.Pointwise
import Autodiff.Proofs.Tape.Requests

set_option autoImplicit false

namespace Autodiff

variable {F α β : Type}

namespace Recording

/-- Run from `s`, the recording only adds to the tape, and what it returns is `Q` there. -/
def Adds (s : Recorder F) (r : Recording F α) (Q : Tape F → α → Prop) : Prop :=
  s.tape.Grows (r s).2.tape ∧ ∀ a, (r s).1 = .ok a → Q (r s).2.tape a

variable {s : Recorder F} {Q : Tape F → α → Prop} {R : Tape F → β → Prop}

theorem adds_pure {a : α} (h : Q s.tape a) : Adds s (pure a) Q := by
  refine ⟨.refl _, fun b hb => ?_⟩
  obtain rfl : a = b := Except.ok.inj hb
  exact h

theorem adds_ofOutcome {r : Outcome F α} (h : ∀ a, r = .ok a → Q s.tape a) :
    Adds s (ofOutcome r) Q :=
  ⟨.refl _, h⟩

theorem Adds.bind {r : Recording F α} {f : α → Recording F β} (h : Adds s r Q)
    (hf : ∀ t a, Q t.tape a → Adds t (f a) R) : Adds s (r >>= f) R := by
  unfold Adds
  rw [run_bind]
  obtain ⟨hgrows, hresult⟩ := h
  rcases hr : r s with ⟨e | a, t⟩
  · rw [hr] at hgrows
    exact ⟨hgrows, fun b hb => nomatch hb⟩
  · rw [hr] at hgrows hresult
    obtain ⟨hgrows', hresult'⟩ := hf t a (hresult a rfl)
    exact ⟨hgrows.trans hgrows', hresult'⟩

theorem Adds.imp {Q' : Tape F → α → Prop} {r : Recording F α} (h : Adds s r Q)
    (hQ : ∀ t a, s.tape.Grows t → Q t a → Q' t a) : Adds s r Q' :=
  ⟨h.1, fun a ha => hQ _ a h.1 (h.2 a ha)⟩

theorem adds_mapM {f : β → Recording F α} (hmono : ∀ t t' a, t.Grows t' → Q t a → Q t' a)
    (h : ∀ s b, Adds s (f b) Q) (bs : List β) (s : Recorder F) :
    Adds s (bs.mapM f) fun t as => ∀ a ∈ as, Q t a := by
  induction bs generalizing s with
  | nil => exact adds_pure fun a ha => absurd ha List.not_mem_nil
  | cons b bs ih =>
    rw [List.mapM_cons]
    refine (h s b).bind fun t a ha => ?_
    refine ((ih t).imp fun t' as hgrows has => ?_).bind (Q := fun t as => ∀ x ∈ a :: as, Q t x)
      fun t' as has => adds_pure has
    exact List.forall_mem_cons.mpr ⟨hmono _ _ a hgrows ha, has⟩

theorem adds_append? (kind : NodeKind) (operands : List (Option ℕ)) (partials : List F) (value : F)
    (s : Recorder F) :
    Adds s (append? kind operands partials value) fun t index? =>
      ∀ i, index? = some i → t.Live ⟨value, some i, t.epoch⟩ := by
  unfold Adds
  rcases append?_cases kind operands partials value s with
    ⟨cause, edges, hrun⟩ | ⟨-, hrun⟩ | ⟨-, -, hrun⟩
  · rw [hrun]
    exact ⟨Tape.grows_extend s.tape edges, fun a ha => nomatch ha⟩
  · rw [hrun]
    refine ⟨Recorder.grows_refused s, fun a ha i hi => ?_⟩
    cases ha
    cases hi
  · rw [hrun]
    refine ⟨Tape.grows_push s.tape kind _ value, fun a ha i hi => ?_⟩
    cases ha
    cases hi
    exact Tape.live_push s.tape kind _ value

theorem adds_append (kind : NodeKind) (operands : List (Option ℕ)) (partials : List F) (value : F)
    (s : Recorder F) :
    Adds s (append kind operands partials value) fun t i => t.Live ⟨value, some i, t.epoch⟩ := by
  refine (adds_append? kind operands partials value s).bind fun t index? h => ?_
  cases index? with
  | none => exact ⟨.refl _, fun a ha => nomatch ha⟩
  | some i => exact adds_pure (h i rfl)

theorem adds_input (value : F) (s : Recorder F) :
    Adds s (input value) fun t x => t.Live x :=
  (adds_append .input [] [] value s).bind fun _ _ h => ⟨.refl _, fun x hx => by cases hx; exact h⟩

theorem adds_node (kind : NodeKind) (args : List (Handle F)) (partials : List F) (value : F)
    (s : Recorder F) : Adds s (node kind args partials value) fun t x => t.Live x := by
  by_cases hlive : ∀ x ∈ args, s.tape.Live x
  · cases hall : args.all Handle.isConstant with
    | true =>
      unfold Adds
      rw [node_constant kind partials value hlive hall]
      refine ⟨.refl _, fun x hx => ?_⟩
      cases hx
      exact Tape.live_constant s.tape value
    | false =>
      unfold Adds
      rw [node_live kind partials value hlive hall]
      have happend := adds_append? kind (args.map Handle.node) partials value s
      unfold Adds at happend
      rcases hrun : append? kind (args.map Handle.node) partials value s with ⟨e | index?, t⟩
      · rw [hrun] at happend
        exact ⟨happend.1, fun x hx => nomatch hx⟩
      · rw [hrun] at happend
        refine ⟨happend.1, fun x hx => ?_⟩
        cases hx
        cases index? with
        | none => exact Tape.live_constant t.tape value
        | some i =>
          have hepoch : t.tape.epoch = s.tape.epoch := happend.1.epoch
          simpa [hepoch] using happend.2 (some i) rfl i rfl
  · push Not at hlive
    obtain ⟨x, hx, hstale⟩ := hlive
    obtain ⟨i, epoch, hrun⟩ := node_stale kind partials value hx hstale
    unfold Adds
    rw [hrun]
    exact ⟨.refl _, fun y hy => nomatch hy⟩

theorem adds_backwardFrom [Arith F] [Functions F] (seeds : List (Handle F × F)) (s : Recorder F) :
    Adds s (backwardFrom seeds) fun _ _ => True := by
  obtain ⟨adjoints, hrun⟩ := snd_backwardFrom s seeds
  unfold Adds
  rw [hrun]
  exact ⟨⟨⟨List.prefix_refl _, List.prefix_refl _, List.prefix_refl _⟩, rfl, rfl, id⟩,
    fun _ _ => trivial⟩

theorem adds_primitive (p : Primitive F) (args : List (Handle F)) (s : Recorder F) :
    Adds s (p.onTape args) fun t x => t.Live x :=
  (adds_ofOutcome (Q := fun _ _ => True) fun _ _ => trivial).bind fun _ _ _ =>
    (adds_ofOutcome (Q := fun _ _ => True) fun _ _ => trivial).bind fun t y _ =>
      adds_node _ _ _ y t

end Recording

/-- What a client does with one tape. An operator on handles is the request for its node. -/
inductive Deed (F : Type) where
  | request (r : Request F)
  | primitive (p : Primitive F) (args : List (Handle F))
  | joint (op : JointOp F) (input : Matrix (Handle F))

namespace Deed

def args : Deed F → List (Handle F)
  | request r => r.args
  | primitive _ args => args
  | joint _ input => input.toList

def isReset : Deed F → Bool
  | request r => r.isReset
  | _ => false

def Defined : Deed F → Prop
  | request _ => True
  | primitive p args =>
    ∃ vs y, p.operands args = .ok vs ∧ p.value (vs.map Handle.value) = .ok y
  | joint op input => ∃ b, op.value (input.map Handle.value) = .ok b ∧ 0 < b.rows * b.cols

variable [Arith F] [Functions F]

def perform : Deed F → Recording F (List (Reply F))
  | request r => do return [← r.perform]
  | primitive p args => do return [.handle (← p.onTape args)]
  | joint op input => do return (← op.onTape input).toList.map .handle

theorem perform_joint (op : JointOp F) (input : Matrix (Handle F)) :
    (joint op input).perform = do
      let b ← Recording.ofOutcome (op.value (input.map Handle.value))
      let outputs ← (Matrix.places b.rows b.cols).mapM fun k =>
        Recording.node (.primitive op.name) input.toList
          (op.block (input.map Handle.value) b k.1 k.2).toList (b.get k.1 k.2)
      return outputs.map .handle := by
  rw [perform, JointOp.onTape, bind_assoc]
  refine bind_congr fun b => ?_
  have hentries := Matrix.toList_ofFnM b.rows b.cols fun k l =>
    Recording.node (.primitive op.name) input.toList
      (op.block (input.map Handle.value) b k l).toList (b.get k l)
  rw [← hentries, bind_map_left]

end Deed

namespace Request

variable [Arith F] [Functions F] {s : Recorder F}

/-- A request other than a reset, whether it ends in a fault or not. -/
theorem adds (r : Request F) (hreset : r.isReset = false) (s : Recorder F) :
    Recording.Adds s r.perform fun t reply => ∀ x, reply = .handle x → t.Live x := by
  have hgiven : ∀ (t : Recorder F) (y : Handle F), t.tape.Live y →
      Recording.Adds t (pure (.handle y) : Recording F (Reply F))
        fun t reply => ∀ x, reply = .handle x → t.Live x := by
    intro t y hy
    refine Recording.adds_pure fun x hx => ?_
    cases hx
    exact hy
  have hread : ∀ (t : Recorder F) (reply : Reply F), (∀ x, reply ≠ .handle x) →
      Recording.Adds t (pure reply) fun t reply => ∀ x, reply = .handle x → t.Live x :=
    fun t reply hreply => Recording.adds_pure fun x hx => absurd hx (hreply x)
  cases r with
  | input value => exact (Recording.adds_input value s).bind hgiven
  | append kind operands partials value =>
    exact (Recording.adds_append kind operands partials value s).bind fun t i _ =>
      hread t (.index i) (by simp)
  | unary kind y dx value => exact (Recording.adds_node kind [y] [dx] value s).bind hgiven
  | binary kind y dy z dz value =>
    exact (Recording.adds_node kind [y, z] [dy, dz] value s).bind hgiven
  | node kind args partials value =>
    exact (Recording.adds_node kind args partials value s).bind hgiven
  | backward output =>
    exact (Recording.adds_backwardFrom [(output, 1)] s).bind fun t a _ =>
      hread t (.adjoints a) (by simp)
  | backwardFrom seeds =>
    exact (Recording.adds_backwardFrom seeds s).bind fun t a _ => hread t (.adjoints a) (by simp)
  | valueOf x =>
    exact (Recording.adds_ofOutcome (Q := fun _ _ => True) (r := s.tape.valueOf x)
      fun _ _ => trivial).bind fun t a _ => hread t (.number a) (by simp)
  | adjointOf x =>
    exact (Recording.adds_ofOutcome (Q := fun _ _ => True) (r := s.tape.adjointOf x)
      fun _ _ => trivial).bind fun t a _ => hread t (.number a) (by simp)
  | entry i =>
    rw [perform, Recording.Adds, run_bind]
    simp only [Recording.tape]
    cases s.tape.readNode? i with
    | some e => exact hread s (.entry e) (by simp)
    | none =>
      refine ⟨.refl _, fun a ha => ?_⟩
      cases ha
  | inspect => exact hread s (.tape s.tape) (by simp)
  | nextEpoch => cases hreset

end Request

namespace Deed

variable [Arith F] [Functions F] {s : Recorder F} {d : Deed F}

theorem adds (hreset : d.isReset = false) (s : Recorder F) :
    Recording.Adds s d.perform fun t replies => ∀ x, .handle x ∈ replies → t.Live x := by
  cases d with
  | request r =>
    refine (r.adds hreset s).bind fun t reply h => Recording.adds_pure fun x hx => ?_
    exact h x (List.mem_singleton.mp hx).symm
  | primitive p args =>
    refine (Recording.adds_primitive p args s).bind fun t y h => Recording.adds_pure fun x hx => ?_
    cases List.mem_singleton.mp hx
    exact h
  | joint op input =>
    rw [perform_joint]
    refine (Recording.adds_ofOutcome (Q := fun _ _ => True) fun _ _ => trivial).bind fun t b _ => ?_
    refine (Recording.adds_mapM (Q := fun t x => t.Live x) (fun _ _ _ hgrows => hgrows.live)
      (fun s k => Recording.adds_node _ _ _ _ s) _ t).bind fun t outputs h => ?_
    refine Recording.adds_pure fun x hx => ?_
    obtain ⟨y, hy, hyx⟩ := List.mem_map.mp hx
    cases hyx
    exact h x hy

theorem perform_reset (hreset : d.isReset = true) (s : Recorder F) :
    d.perform s = (.ok [.tape s.tape.nextEpoch], { s with tape := s.tape.nextEpoch }) := by
  cases d with
  | request r => cases r <;> first | rfl | cases hreset
  | primitive | joint => cases hreset

theorem perform_stale {x : Handle F} (hx : x ∈ d.args) (hdefined : d.Defined)
    (hstale : ¬ s.tape.Live x) :
    ∃ i epoch adjoints, d.perform s =
      (.error (.fault (.staleVariable i epoch s.tape.epoch)), s.withAdjoints adjoints) := by
  cases d with
  | request r =>
    obtain ⟨i, epoch, adjoints, hrun, -⟩ := r.perform_stale hx hstale
    refine ⟨i, epoch, adjoints, ?_⟩
    rw [perform, run_bind, hrun]
  | primitive p args =>
    obtain ⟨vs, y, hvs, hy⟩ := hdefined
    have hargs : vs.toList = args := by
      unfold Primitive.operands at hvs
      split at hvs
      · cases hvs
        rfl
      · cases hvs
    obtain ⟨i, epoch, hrun⟩ := Recording.node_stale (.primitive p.name)
      (p.partials (vs.map Handle.value) y).toList y (hargs ▸ hx : x ∈ vs.toList) hstale
    refine ⟨i, epoch, s.tape.adjoints, ?_⟩
    rw [perform, Primitive.onTape, hvs, bind_assoc, run_bind]
    simp only [Recording.ofOutcome, hy]
    rw [bind_assoc, run_bind]
    change ((Recording.node _ _ _ _ >>= _ : Recording F (List (Reply F))) s) = _
    rw [run_bind, hrun]
    rfl
  | joint op input =>
    obtain ⟨b, hb, hpos⟩ := hdefined
    -- The first node of the result fails already, and with a result there is one.
    obtain ⟨k, ks, hplaces⟩ : ∃ k ks, Matrix.places b.rows b.cols = k :: ks := by
      refine List.exists_cons_of_ne_nil (List.ne_nil_of_length_pos ?_)
      rwa [← Matrix.map_finRange_places, List.length_map, List.length_finRange]
    have hx : x ∈ input.toList := hx
    obtain ⟨i, epoch, hrun⟩ := Recording.node_stale (.primitive op.name)
      (op.block (input.map Handle.value) b k.1 k.2).toList (b.get k.1 k.2) hx hstale
    refine ⟨i, epoch, s.tape.adjoints, ?_⟩
    rw [perform_joint, run_bind, hb]
    simp only [Recording.ofOutcome]
    rw [hplaces, List.mapM_cons, bind_assoc, run_bind, hrun]
    rfl

end Deed

end Autodiff
