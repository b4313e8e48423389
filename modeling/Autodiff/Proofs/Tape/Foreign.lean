import Mathlib.Data.Nat.ModEq
import Autodiff.Tape.Session
import Autodiff.Proofs.Number.Exact
import Autodiff.Proofs.Tape.Deeds

/-!
# Handles of other tapes

A handle knows the number of its node and the epoch of its tape, but not the tape. Another tape
refuses it unless the two have begun equally many epochs, up to a multiple of `2 ^ 32`, and the node
exists there as well; then it takes the handle for one of its own.
-/

set_option autoImplicit false

namespace Autodiff

variable {F α : Type}

structure Service (F : Type) where
  tape : ℕ
  deed : Deed F
  outcome : Outcome F (List (Reply F))

def resetsOf (b : ℕ) (log : List (Service F)) : ℕ :=
  log.countP fun e => e.tape = b && e.deed.isReset

theorem resetsOf_cons (b : ℕ) (e : Service F) (log : List (Service F)) :
    resetsOf b (e :: log) = resetsOf b log + if e.tape = b && e.deed.isReset then 1 else 0 :=
  List.countP_cons

namespace Session

variable {s s' t : Session F}

theorem onTape_eq {number : ℕ} {tape : Tape F} (htape : s.tapes[number]? = some tape)
    (r : Recording F α) :
    onTape number r s = ((r ⟨tape, s.events⟩).1,
      { s with
        tapes := s.tapes.setIfInBounds number (r ⟨tape, s.events⟩).2.tape
        events := (r ⟨tape, s.events⟩).2.events }) := by
  unfold onTape
  rw [htape]
  rfl

theorem onActive_eq {number : ℕ} (hactive : s.activation.current = some number)
    (r : Recording F α) : onActive r s = onTape number r s := by
  obtain ⟨tapes, ⟨current, guards⟩, events⟩ := s
  obtain rfl : current = some number := hactive
  rfl

theorem records_onTape {number : ℕ} {tape : Tape F} (htape : s.tapes[number]? = some tape)
    {r : Recording F α} (h : (r ⟨tape, s.events⟩).2.tape.records = tape.records) (c : ℕ) :
    (onTape number r s).2.tapes[c]?.map Tape.records = s.tapes[c]?.map Tape.records := by
  rw [onTape_eq htape]
  by_cases hc : number = c
  · subst hc
    have hnumber : number < s.tapes.size := (Array.getElem?_eq_some_iff.mp htape).1
    rw [Array.getElem?_setIfInBounds_self_of_lt hnumber, htape, Option.map_some, h]
    rfl
  · rw [Array.getElem?_setIfInBounds_ne hc]

def epochOf (s : Session F) (b : ℕ) : UInt32 := (s.tapes[b]?).elim 0 Tape.epoch

variable [Arith F] [Functions F]

def Served (s : Session F) (e : Service F) (s' : Session F) : Prop :=
  e.tape < s.tapes.size ∧ (onTape e.tape e.deed.perform s = (e.outcome, s') ∨
    s.activation.current = some e.tape ∧ onActive e.deed.perform s = (e.outcome, s'))

/-- A session goes on. Its log keeps what tapes were asked to do. -/
inductive Runs : Session F → List (Service F) → Session F → Prop where
  | nil (s : Session F) : Runs s [] s
  | create {s t : Session F} {log : List (Service F)} (limit : Option ℕ)
      (tail : Runs { s with tapes := s.tapes.push { limit := limit } } log t) : Runs s log t
  | activate {s t : Session F} {log : List (Service F)} (number : ℕ)
      (tail : Runs { s with activation := s.activation.activate number } log t) : Runs s log t
  | release {s t : Session F} {log : List (Service F)} (place : ℕ)
      (tail : Runs { s with activation := s.activation.release place } log t) : Runs s log t
  | serve {s s' t : Session F} {log : List (Service F)} {e : Service F} (h : Served s e s')
      (tail : Runs s' log t) : Runs s (e :: log) t

theorem Served.eq {e : Service F} (h : Served s e s') :
    ∃ tape, s.tapes[e.tape]? = some tape ∧
      e.outcome = (e.deed.perform ⟨tape, s.events⟩).1 ∧
      s'.tapes = s.tapes.setIfInBounds e.tape (e.deed.perform ⟨tape, s.events⟩).2.tape := by
  obtain ⟨hnumber, hrun⟩ := h
  have htape := Array.getElem?_eq_getElem hnumber
  have hserved : onTape e.tape e.deed.perform s = (e.outcome, s') := by
    rcases hrun with hrun | ⟨hactive, hrun⟩
    · exact hrun
    · rwa [onActive_eq hactive] at hrun
  rw [onTape_eq htape] at hserved
  obtain rfl := congrArg Prod.snd hserved
  exact ⟨_, htape, (congrArg Prod.fst hserved).symm, rfl⟩

theorem Served.epochOf {e : Service F} (h : Served s e s') (b : ℕ) :
    s'.epochOf b = s.epochOf b + UInt32.ofNat (if e.tape = b && e.deed.isReset then 1 else 0) := by
  obtain ⟨tape, htape, -, htapes⟩ := h.eq
  unfold Session.epochOf
  rw [htapes]
  by_cases hb : e.tape = b
  · subst hb
    simp only [Array.getElem?_setIfInBounds_self_of_lt h.1, htape, Option.elim_some]
    cases hreset : e.deed.isReset with
    | true => simp [Deed.perform_reset hreset]
    | false => simp [(e.deed.adds hreset ⟨tape, s.events⟩).1.epoch]
  · simp [Array.getElem?_setIfInBounds_ne hb, hb]

theorem Runs.epochOf {log : List (Service F)} (h : Runs s log t) (b : ℕ) :
    t.epochOf b = s.epochOf b + UInt32.ofNat (resetsOf b log) := by
  induction h with
  | nil s => exact (UInt32.add_zero _).symm
  | @create s t log limit tail ih =>
    rw [ih]
    unfold Session.epochOf
    rw [Array.getElem?_push]
    split
    · subst b
      simp
    · rfl
  | activate number tail ih => exact ih
  | release place tail ih => exact ih
  | @serve s s' t log e h tail ih =>
    rw [ih, h.epochOf b, resetsOf_cons, UInt32.ofNat_add, UInt32.add_assoc,
      UInt32.add_comm (UInt32.ofNat (resetsOf b log))]

theorem Runs.epoch {log : List (Service F)} (h : Runs {} log s) {b : ℕ} {tape : Tape F}
    (htape : s.tapes[b]? = some tape) : tape.epoch = UInt32.ofNat (resetsOf b log) := by
  have hepoch := h.epochOf b
  rw [Session.epochOf, htape] at hepoch
  exact hepoch.trans (UInt32.zero_add _)

theorem Runs.split {before after : List (Service F)} {e : Service F}
    (h : Runs s (before ++ e :: after) t) :
    ∃ m m', Runs s before m ∧ Served m e m' ∧ Runs m' after t := by
  generalize hlog : before ++ e :: after = log at h
  induction h generalizing before with
  | nil s => exact absurd hlog (List.append_ne_nil_of_right_ne_nil _ (List.cons_ne_nil e after))
  | create limit tail ih =>
    obtain ⟨m, m', hbefore, hrest⟩ := ih hlog
    exact ⟨m, m', .create limit hbefore, hrest⟩
  | activate number tail ih =>
    obtain ⟨m, m', hbefore, hrest⟩ := ih hlog
    exact ⟨m, m', .activate number hbefore, hrest⟩
  | release place tail ih =>
    obtain ⟨m, m', hbefore, hrest⟩ := ih hlog
    exact ⟨m, m', .release place hbefore, hrest⟩
  | @serve s s' t log e' h tail ih =>
    cases before with
    | nil =>
      cases hlog
      exact ⟨s, s', .nil s, h, tail⟩
    | cons e'' before =>
      cases hlog
      obtain ⟨m, m', hbefore, hrest⟩ := ih rfl
      exact ⟨m, m', .serve h hbefore, hrest⟩

end Session

/-- Tape `a` gave out `x` for its node `i` when the log was `before`. -/
def GivenOut (log before : List (Service F)) (a : ℕ) (x : Handle F) (i : ℕ) : Prop :=
  x.node = some i ∧ ∃ deed replies after,
    log = before ++ ⟨a, deed, .ok replies⟩ :: after ∧ .handle x ∈ replies

theorem ofNat_eq_ofNat_iff {m n : ℕ} :
    UInt32.ofNat m = UInt32.ofNat n ↔ m ≡ n [MOD 2 ^ 32] :=
  UInt32.toNat_inj.symm

namespace GivenOut

variable [Arith F] [Functions F] {s : Session F} {log before : List (Service F)} {a i : ℕ}
variable {x : Handle F}

theorem epoch (hx : GivenOut log before a x i) (h : Session.Runs {} log s) :
    x.epoch = UInt32.ofNat (resetsOf a before) := by
  obtain ⟨hnode, deed, replies, after, rfl, hmem⟩ := hx
  obtain ⟨m, m', hbefore, hserved, -⟩ := h.split
  obtain ⟨tape, htape, houtcome, -⟩ := hserved.eq
  have hepoch := hbefore.epoch htape
  cases hreset : deed.isReset with
  | true =>
    have hreplies : replies = [.tape tape.nextEpoch] := by
      have hperform := congrArg Prod.fst (Deed.perform_reset hreset ⟨tape, m.events⟩)
      exact Except.ok.inj (houtcome.trans hperform)
    rw [hreplies] at hmem
    exact absurd (List.mem_singleton.mp hmem) nofun
  | false =>
    obtain ⟨hgrows, hlive⟩ := deed.adds hreset ⟨tape, m.events⟩
    rw [(hlive replies houtcome.symm x hmem i hnode).1, hgrows.epoch, ← hepoch]

/-- Whether a tape takes the handle depends on the numbers of its epochs and nodes alone. -/
theorem live_iff (hx : GivenOut log before a x i) (h : Session.Runs {} log s) {b : ℕ} {t : Tape F}
    (ht : s.tapes[b]? = some t) :
    t.Live x ↔ resetsOf a before ≡ resetsOf b log [MOD 2 ^ 32] ∧ i < t.size := by
  rw [← ofNat_eq_ofNat_iff, ← hx.epoch h, ← h.epoch ht]
  refine ⟨fun hlive => hlive i hx.1, fun hboth j hj => ?_⟩
  obtain rfl : i = j := Option.some.inj (hx.1.symm.trans hj)
  exact hboth

end GivenOut

variable [Arith F] [Functions F]

structure Separated (log : List (Service F)) (s : Session F) : Prop where
  refused : ∀ before a x i b t, GivenOut log before a x i → s.tapes[b]? = some t →
    ¬ (resetsOf a before ≡ resetsOf b log [MOD 2 ^ 32] ∧ i < t.size) →
    ∀ deed : Deed F, x ∈ deed.args → deed.Defined →
      (∃ j epoch, (Session.onTape b deed.perform s).1 =
        .error (.fault (.staleVariable j epoch t.epoch))) ∧
      (∀ c : ℕ, (Session.onTape b deed.perform s).2.tapes[c]?.map Tape.records =
        s.tapes[c]?.map Tape.records) ∧
      (s.activation.current = some b →
        Session.onActive deed.perform s = Session.onTape b deed.perform s)
  taken : ∀ before a x i b t, GivenOut log before a x i → s.tapes[b]? = some t →
    resetsOf a before ≡ resetsOf b log [MOD 2 ^ 32] → i < t.size →
    x = ⟨x.value, some i, t.epoch⟩ ∧
      (∃ node, t.nodes[i]? = some node ∧ t.valueOf x = .ok node.value) ∧
      ∀ kind dx value, t.isFull = false →
        (Request.unary kind x dx value).perform ⟨t, s.events⟩ =
          (.ok (.handle ⟨value, some t.size, t.epoch⟩), ⟨t.push kind [(i, dx)] value, s.events⟩)
  answered : ∀ before a x i earlier e rest, log = earlier ++ e :: rest →
    GivenOut earlier before a x i → x ∈ e.deed.args → e.deed.Defined →
    (∀ cause, e.outcome ≠ .error (.fault cause)) →
    resetsOf a before ≡ resetsOf e.tape earlier [MOD 2 ^ 32]

/-- A handle of one tape passes for a handle of another only when the epochs that the two have begun
are equally many, up to a multiple of `2 ^ 32`. -/
theorem foreign_handles {log : List (Service F)} {s : Session F} (h : Session.Runs {} log s) :
    Separated log s where
  refused before a x i b t hx ht hapart deed hmem hdefined := by
    obtain ⟨j, epoch, adjoints, hrun⟩ := Deed.perform_stale (s := ⟨t, s.events⟩) hmem hdefined
      ((hx.live_iff h ht).not.mpr hapart)
    have hrecords : (deed.perform ⟨t, s.events⟩).2.tape.records = t.records := by
      rw [hrun]
      exact Tape.records_congr rfl rfl rfl
    refine ⟨⟨j, epoch, ?_⟩, Session.records_onTape ht hrecords,
      fun hactive => Session.onActive_eq hactive _⟩
    rw [Session.onTape_eq ht, hrun]
  taken before a x i b t hx ht hresets hi := by
    have hlive := (hx.live_iff h ht).mpr ⟨hresets, hi⟩
    have hself : x = ⟨x.value, some i, t.epoch⟩ := by
      obtain ⟨value, node, epoch⟩ := x
      obtain rfl : node = some i := hx.1
      exact congrArg (Handle.mk value (some i)) (hlive i rfl).1
    have hnode : t.nodes[i]? = some t.nodes[i] := Array.getElem?_eq_getElem hi
    refine ⟨hself, ⟨t.nodes[i], hnode, ?_⟩, fun kind dx value hroom => ?_⟩
    · rw [Tape.valueOf_live hlive, hx.1, Option.elim_some, hnode]
      rfl
    · have hargs : ∀ y ∈ [x], t.Live y := List.forall_mem_singleton.mpr hlive
      have hconstant : [x].all Handle.isConstant = false := by simp [Handle.isConstant, hx.1]
      have hpushed : Recording.node kind [x] [dx] value ⟨t, s.events⟩ = _ :=
        Recording.node_of_live kind value hargs rfl
      rw [hconstant, if_neg Bool.false_ne_true, hroom, if_neg Bool.false_ne_true] at hpushed
      rw [Request.perform, run_bind, Recording.unaryNode, hpushed]
      simp only [Recorder.pushed, List.map_cons, List.map_nil, hx.1]
      rfl
  answered before a x i earlier e rest hlog hx hmem hdefined hfault := by
    subst hlog
    obtain ⟨m, m', hearlier, hserved, -⟩ := h.split
    obtain ⟨tape, htape, houtcome, -⟩ := hserved.eq
    -- A deed with a handle that is not live would have ended in a fault.
    refine not_not.mp fun hapart => ?_
    obtain ⟨j, epoch, adjoints, hrun⟩ := Deed.perform_stale (s := ⟨tape, m.events⟩) hmem hdefined
      ((hx.live_iff hearlier htape).not.mpr fun hboth => hapart hboth.1)
    rw [hrun] at houtcome
    exact hfault _ houtcome

def nestedLog : List (Service ℚ) :=
  [⟨0, .request .nextEpoch, .ok [.tape { epoch := 1 }]⟩,
    ⟨0, .request (.input 3), .ok [.handle ⟨3, some 0, 1⟩]⟩,
    ⟨1, .request .nextEpoch, .ok [.tape { epoch := 1 }]⟩,
    ⟨1, .request (.input 5), .ok [.handle ⟨5, some 0, 1⟩]⟩,
    ⟨1, .request (.binary .mul ⟨5, some 0, 1⟩ 3 ⟨3, some 0, 1⟩ 5 15),
      .ok [.handle ⟨15, some 1, 1⟩]⟩,
    ⟨1, .request (.backward ⟨15, some 1, 1⟩), .ok [.adjoints [8, 1]]⟩]

def innerTape : Tape ℚ where
  nodes := #[⟨.input, 5, 0⟩, ⟨.mul, 15, 2⟩]
  operands := #[0, 0]
  partials := #[3, 5]
  epoch := 1

def nestedSession : Session ℚ where
  tapes := #[{ nodes := #[⟨.input, 3, 0⟩], epoch := 1 },
    { nodes := #[⟨.input, 5, 0⟩], epoch := 1 }]
  activation := ⟨some 0, [⟨0, none⟩]⟩

def multipliedSession : Session ℚ where
  tapes := #[{ nodes := #[⟨.input, 3, 0⟩], epoch := 1 }, innerTape]
  activation := ⟨some 0, [⟨0, none⟩]⟩

def sweptSession : Session ℚ where
  tapes := #[{ nodes := #[⟨.input, 3, 0⟩], epoch := 1 }, { innerTape with adjoints := #[8, 1] }]
  activation := ⟨some 0, [⟨0, none⟩]⟩

theorem served_backward : Session.Served multipliedSession
    ⟨1, .request (.backward ⟨15, some 1, 1⟩), .ok [.adjoints [8, 1]]⟩ sweptSession := by
  have hlive : ∀ e ∈ [((⟨15, some 1, 1⟩ : Handle ℚ), (1 : ℚ))], innerTape.Live e.1 := by
    refine List.forall_mem_singleton.mpr fun i hi => ?_
    cases hi
    exact ⟨rfl, by decide⟩
  have hadjoints : innerTape.adjointsFrom [(⟨15, some 1, 1⟩, 1)] = #[8, 1] := by
    decide +kernel
  have hperform : (Deed.request (.backward ⟨15, some 1, 1⟩)).perform ⟨innerTape, []⟩ =
      (.ok [.adjoints [8, 1]], ⟨{ innerTape with adjoints := #[8, 1] }, []⟩) := by
    rw [Deed.perform, Request.perform, run_bind, run_bind, Recording.backward,
      Recording.backwardFrom_of_live hlive]
    simp only [Recorder.swept, hadjoints]
    rfl
  have htape : multipliedSession.tapes[1]? = some innerTape := rfl
  refine ⟨by decide, .inl ?_⟩
  rw [Session.onTape_eq htape]
  exact congrArg (fun r : Outcome ℚ (List (Reply ℚ)) × Recorder ℚ => (r.1,
    { multipliedSession with
      tapes := multipliedSession.tapes.setIfInBounds 1 r.2.tape
      events := r.2.events })) hperform

theorem runs_nestedLog : Session.Runs {} nestedLog sweptSession := by
  have hinner : Session.Runs nestedSession (nestedLog.drop 4) sweptSession :=
    .activate 1 <| .serve ⟨by decide, .inr ⟨rfl, rfl⟩⟩ <| .release 0 <|
      .serve served_backward <| .nil _
  exact .create none <| .create none <| .serve ⟨by decide, .inl rfl⟩ <|
    .serve ⟨by decide, .inl rfl⟩ <| .activate 0 <| .serve ⟨by decide, .inl rfl⟩ <|
    .serve ⟨by decide, .inl (rfl : _ = (_, nestedSession))⟩ hinner

theorem foreign_handles_nestedLog :
    ∃ s, Session.Runs {} nestedLog s ∧ Separated nestedLog s :=
  ⟨sweptSession, runs_nestedLog, foreign_handles runs_nestedLog⟩

/-- The inner tape takes the outer variable for its own input and adds up the partials of both. The
derivative of the product by the input is 3, not 8. -/
theorem outer_variable_taken :
    ∃ s, Session.Runs {} nestedLog s ∧
      GivenOut nestedLog (nestedLog.take 1) 0 ⟨3, some 0, 1⟩ 0 ∧
      ⟨1, .request (.binary .mul ⟨5, some 0, 1⟩ 3 ⟨3, some 0, 1⟩ 5 15),
        .ok [.handle ⟨15, some 1, 1⟩]⟩ ∈ nestedLog ∧
      ⟨1, .request (.backward ⟨15, some 1, 1⟩), .ok [.adjoints [8, 1]]⟩ ∈ nestedLog ∧
      s.tapes[1]?.map (Tape.edges · 1) = some [(0, 3), (0, 5)] := by
  have hgiven : GivenOut nestedLog (nestedLog.take 1) 0 ⟨3, some 0, 1⟩ 0 :=
    ⟨rfl, _, _, nestedLog.drop 2, rfl, List.mem_cons_self⟩
  refine ⟨sweptSession, runs_nestedLog, hgiven, ?_, ?_, ?_⟩
  · exact List.mem_of_getElem? (rfl : nestedLog[4]? = some _)
  · exact List.mem_of_getElem? (rfl : nestedLog[5]? = some _)
  · rfl

end Autodiff
