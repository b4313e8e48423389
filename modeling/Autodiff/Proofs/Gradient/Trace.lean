import Mathlib
import Autodiff.Proofs.Number.Exact
import Autodiff.Proofs.Program.Activity
import Autodiff.Proofs.Program.Mirror

set_option autoImplicit false

namespace Autodiff

open Interpretation (plain recording tracing)
open Recording (begun settle)

variable {F α β : Type}

namespace Trace

variable {x : List F} {log : Trace F}

theorem records_inputs (x : List F) :
    records (inputs x) = x.map fun value => ⟨.input, value, []⟩ := by
  have hnone : (inputs x).drop x.length = [] :=
    List.drop_eq_nil_of_le (Nat.le_of_eq (length_inputs x))
  rw [(wellFormed_inputs x).records_eq, hnone]
  exact List.append_nil _

theorem index_inputs (x : List F) {i : ℕ} (hi : i < x.length) :
    index (inputs x) ⟨x[i], true, some i⟩ = some i := by
  have htake : (inputs x).take i = inputs (x.take i) := (List.map_take ..).symm
  have hlength : (x.take i).length = i := by
    rw [List.length_take, Nat.min_eq_left (Nat.le_of_lt hi)]
  rw [index, if_pos rfl, Option.map_some, rank, htake, List.countP_eq_length_filter, filter_inputs,
    length_inputs, hlength]

/-- The tape was made of the active results of the trace, as many as its bound allows. A node shows
its own operands unless they and those before them are too many. -/
structure Recorded (log : Trace F) (x : List F) (t : Tape F) : Prop where
  made : t.MadeOf ((records log).take t.bound)
  shown : ∀ i, i < t.size → operandCount ((records log).take (i + 1)) < 2 ^ 32 →
    t.records[i]? = (records log)[i]?
  exhausted : t.exhausted = true ↔ t.bound < (Trace.records log).length
  inputs : (Trace.records log).take x.length = x.map fun value => ⟨.input, value, []⟩
  edges : ∀ i q, x.length ≤ i → (Trace.records log)[i]? = some q → q.edges ≠ []

theorem Recorded.of_made {t : Tape F} (hmade : t.MadeOf ((records log).take t.bound))
    (hex : t.exhausted = true ↔ t.bound < (Trace.records log).length)
    (hwf : Trace.WellFormed x log) : Recorded log x t where
  made := hmade
  shown i hi hfew := by
    have hlt := hi.trans_eq hmade.size_eq
    have hbound : i + 1 ≤ t.bound := by
      rw [List.length_take] at hlt
      omega
    rw [hmade.getElem?_records hlt (by rwa [List.take_take, Nat.min_eq_left hbound]),
      List.getElem_take, List.getElem?_eq_getElem]
  exhausted := hex
  inputs := hwf.take_records
  edges _ _ := hwf.edges_ne_nil

end Trace

theorem Trace.Recorded.size_operands_le {log : Trace F} {x : List F} {t : Tape F}
    (h : log.Recorded x t) : t.operands.size ≤ operandCount (records log) := by
  rw [h.made.size_operands]
  conv_rhs => rw [← List.take_append_drop t.bound (records log), operandCount_append]
  exact Nat.le_add_right _ _

namespace Recording

variable {s : Recorder F} {x : List F} {log : Trace F}

theorem keeps_begun (hx : x.length ≤ s.tape.bound) : (begun s x).Keeps (Trace.inputs x) where
  isOpen := open_begun hx
  made := by
    rw [Trace.records_inputs, bound_begun,
      List.take_of_length_le (by rw [List.length_map]; exact hx)]
    exact madeOf_begun
  exhausted := by
    rw [exhausted_begun, bound_begun, Trace.records_inputs, List.length_map]
    exact ⟨nofun, fun h => absurd hx (Nat.not_le.mpr h)⟩

theorem follows_inputs (hx : x.length ≤ s.tape.bound) :
    List.Forall₂ (Worlds.Follows
        ⟨(Trace.inputs x, begun s x), Trace.wellFormed_inputs x, keeps_begun hx⟩)
      (Traced.inputs x) (Handle.inputs (s.tape.epoch + 1) 0 x) := by
  have hlen : (Traced.inputs x).length = x.length := List.length_mapIdx
  refine forall₂_begun hlen fun i hi hi' => ?_
  have hmem : (Traced.inputs x)[i] ∈ Traced.inputs x := List.getElem_mem hi
  simp only [Traced.inputs, List.getElem_mapIdx] at hmem ⊢
  refine ⟨rfl, Trace.holds_inputs x _ hmem, ?_, live_inputs hi' _⟩
  change some i = (Trace.index (Trace.inputs x) _).filter (· < (begun s x).tape.bound)
  rw [Trace.index_inputs x hi', Option.filter_some, bound_begun, if_pos]
  exact decide_eq_true (Nat.lt_of_lt_of_le hi' hx)

theorem recorded_of_keeps (h : s.Keeps log) (hwf : Trace.WellFormed x log) :
    log.Recorded x s.tape :=
  .of_made h.made h.exhausted hwf

theorem recorded_overfull (hx : s.tape.bound < x.length) (hwf : Trace.WellFormed x log) :
    log.Recorded x (begun s (x.take s.tape.bound)).refused.tape := by
  have hbound : (begun s (x.take s.tape.bound)).refused.tape.bound = s.tape.bound := bound_begun
  refine .of_made ?_ ?_ hwf
  · rw [hbound, hwf.records_eq, List.take_append_of_le_length (by rw [List.length_map]; omega),
      ← List.map_take]
    exact (madeOf_begun (s := s)).congr rfl rfl rfl
  · rw [hbound]
    exact ⟨fun _ => Nat.lt_of_lt_of_le hx (Trace.length_le_records hwf), fun _ => rfl⟩

theorem recorded_epoch {Q : (Worlds.active F x).World → α → β → Prop}
    {g : List (Traced F) → Tracing F α} {f : List (Handle F) → Recording F β}
    (hwf : Trace.WellFormed x (g (Traced.inputs x) (Trace.inputs x)).2)
    (h : ∀ w hs, List.Forall₂ (Worlds.Follows w) (Traced.inputs x) hs →
      (Worlds.active F x).Agree Q w (g (Traced.inputs x)) (f hs)) :
    Trace.Recorded (g (Traced.inputs x) (Trace.inputs x)).2 x (epoch f x s).2.tape ∧
      ∀ b, (epoch f x s).1 = .ok b → ∃ a w, g (Traced.inputs x) (Trace.inputs x) = (.ok a, w.1.1) ∧
        Q w a b ∧ w.1.2.tape.exhausted = false := by
  by_cases hx : x.length ≤ s.tape.bound
  · obtain ⟨w, r, r', -, hrun, hrun', hrel⟩ := h _ _ (follows_inputs hx)
    have htraced : g (Traced.inputs x) (Trace.inputs x) = (r, w.1.1) := hrun
    have hepoch : epoch f x s = settle (r', w.1.2) := (epoch_room hx).trans (congrArg settle hrun')
    rw [htraced, hepoch]
    refine ⟨?_, fun b hb => ?_⟩
    · rw [snd_settle]
      exact recorded_of_keeps w.2.2 w.2.1
    · obtain ⟨rfl, hex⟩ := settle_eq_ok hb
      obtain ⟨a, rfl, hab⟩ := hrel.ok_right
      exact ⟨a, w, rfl, hab, hex⟩
  · have hlt : s.tape.bound < x.length := Nat.lt_of_not_le hx
    rw [epoch_full hlt]
    exact ⟨recorded_overfull hlt hwf, nofun⟩

theorem snd_bind {P : Recorder F → Prop} {r : Recording F α} {f : α → Recording F β}
    (h : P (r s).2) (hf : ∀ a t, P t → P (f a t).2) : P ((r >>= f) s).2 := by
  rw [run_bind]
  rcases hr : r s with ⟨a | a, t⟩
  · rw [hr] at h
    exact h
  · rw [hr] at h
    exact hf a t h

variable [Arith F] [Functions F]

theorem recorded_backwardFrom (seeds : List (Handle F × F)) (h : log.Recorded x s.tape) :
    log.Recorded x (backwardFrom seeds s).2.tape := by
  obtain ⟨adjoints, hsweep⟩ := snd_backwardFrom s seeds
  rw [hsweep]
  exact ⟨h.made.congr rfl rfl rfl, h.shown, h.exhausted, h.inputs, h.edges⟩

theorem recorded_valueGradient {f : List (Handle F) → Recording F (Handle F)}
    (h : log.Recorded x (epoch f x s).2.tape) : log.Recorded x (valueGradient f x s).2.tape :=
  snd_bind (P := fun t => log.Recorded x t.tape) h fun y _ ht =>
    snd_bind (P := fun t => log.Recorded x t.tape) (recorded_backwardFrom [(y, 1)] ht)
      fun _ _ ht => ht

theorem recorded_vjp {f : List (Handle F) → Recording F (List (Handle F))} {w : List F}
    (h : log.Recorded x (epoch f x s).2.tape) : log.Recorded x (vjp f x w s).2.tape := by
  refine snd_bind (P := fun t => log.Recorded x t.tape) h fun ys _ ht => ?_
  split
  · exact ht
  · exact snd_bind (P := fun t => log.Recorded x t.tape) (recorded_backwardFrom (ys.zip w) ht)
      fun _ _ ht => ht

end Recording

theorem Trace.wellFormed_of_agree {x : List F} {Q : (Worlds.traced F x).World → α → β → Prop}
    {r : Outcome F α} {g : Tracing F β}
    (h : (Worlds.traced F x).Agree Q ⟨Trace.inputs x, Trace.wellFormed_inputs x⟩ r g) :
    Trace.WellFormed x (g (Trace.inputs x)).2 := by
  obtain ⟨⟨log, hwf⟩, _, r', -, -, hrun, -⟩ := h
  have hlog : (g (Trace.inputs x)).2 = log := congrArg Prod.snd hrun
  rw [hlog]
  exact hwf

theorem heeds_inputs (x : List F) :
    List.Forall₂ (Worlds.Heeds ⟨Trace.inputs x, Trace.wellFormed_inputs x⟩) x
      (Traced.inputs x) := by
  have hlen : x.length = (Traced.inputs x).length := List.length_mapIdx.symm
  refine List.forall₂_iff_get.mpr ⟨hlen, fun i hi hi' => ⟨?_, ?_⟩⟩
  · simp [Traced.inputs]
  · exact Trace.holds_inputs x _ (List.getElem_mem hi')

variable [Arith F] [Functions F]

namespace Program

def trace (p : Program F) (x : List F) : Trace F :=
  (p.run tracing (Traced.inputs x) (Trace.inputs x)).2

theorem snd_runScalar (p : Program F) (x : List F) :
    (p.runScalar tracing (Traced.inputs x) (Trace.inputs x)).2 = p.trace x := by
  unfold runScalar trace
  rw [run_bind]
  rcases p.run tracing (Traced.inputs x) (Trace.inputs x) with ⟨e | ys, log⟩
  · rfl
  · cases ys <;> rfl

theorem wellFormed_trace (p : Program F) (x : List F) : Trace.WellFormed x (p.trace x) :=
  Trace.wellFormed_of_agree ((Simulation.plainTracing x).run p (heeds_inputs x))

def operandCount (p : Program F) (x : List F) : ℕ := Autodiff.operandCount (p.trace x).records

theorem recorded_run (p : Program F) (x : List F) (s : Recorder F) :
    (p.trace x).Recorded x (Recording.epoch (p.run recording) x s).2.tape :=
  (Recording.recorded_epoch (p.wellFormed_trace x) fun _ _ h =>
    (Simulation.tracingRecording x).run p h).1

theorem recorded_runScalar (p : Program F) (x : List F) (s : Recorder F) :
    (p.trace x).Recorded x (Recording.epoch (p.runScalar recording) x s).2.tape := by
  have hwf := p.snd_runScalar x ▸ p.wellFormed_trace x
  rw [← p.snd_runScalar]
  exact (Recording.recorded_epoch hwf fun _ _ h =>
    (Simulation.tracingRecording x).runScalar p h).1

theorem addressable_run {p : Program F} {x : List F} (hfew : p.operandCount x < 2 ^ 32)
    (s : Recorder F) : (Recording.epoch (p.run recording) x s).2.tape.Addressable :=
  (p.recorded_run x s).size_operands_le.trans_lt hfew

theorem addressable_runScalar {p : Program F} {x : List F} (hfew : p.operandCount x < 2 ^ 32)
    (s : Recorder F) : (Recording.epoch (p.runScalar recording) x s).2.tape.Addressable :=
  (p.recorded_runScalar x s).size_operands_le.trans_lt hfew

end Program

/-- The handle has the value of a traced number, and its place among the active results. -/
structure Handle.Stands (log : Trace F) (t : Traced F) (h : Handle F) : Prop where
  value : t.value = h.value
  node : h.node = log.index t
  constant : h.isConstant = !t.active

omit [Arith F] [Functions F] in
theorem stands_of_follows {x : List F} {w : (Worlds.active F x).World} {t : Traced F} {h : Handle F}
    (hex : w.1.2.tape.exhausted = false) (ht : Worlds.Follows w t h) : h.Stands w.1.1 t := by
  have hroom : (Trace.records w.1.1).length ≤ w.1.2.tape.bound := by
    refine Nat.le_of_not_lt fun hlt => ?_
    exact nomatch (w.2.2.exhausted.mpr hlt).symm.trans hex
  have hnode := ht.node_of_le hroom
  refine ⟨ht.value, hnode, ?_⟩
  rw [Handle.isConstant, hnode]
  cases hactive : t.active with
  | false => rw [Trace.index_of_inactive hactive]; rfl
  | true =>
    obtain ⟨k, hk, -⟩ := Trace.index_of_active ht.holds hactive
    rw [hk]
    rfl

/-- Evaluations of `p` at `x` on the tape of `s` beside the trace of the same run. -/
structure ActiveTrace (p : Program F) (x : List F) (s : Recorder F) : Prop where
  gradient : (p.trace x).Recorded x (p.recordGradient x s).2.tape
  product : ∀ w, (p.trace x).Recorded x (Recording.vjp (p.run recording) x w s).2.tape
  handles : ∀ k slots', (Recording.epoch ((p.upTo k).slots recording) x s).1 = .ok slots' →
    ∃ slots log, (p.upTo k).slots tracing (Traced.inputs x) (Trace.inputs x) = (.ok slots, log) ∧
      Slots.Rel (Handle.Stands log) slots slots'
  multiply : ∀ (a b : Matrix (Traced F)) (h : a.cols = b.rows), Matrix.Fits a.rows b.cols →
    Matrix.toList <$> Matrix.checkedMultiply tracing a b =
      (Matrix.places a.rows b.cols).mapM fun k =>
        tracing.sumM (fun j => tracing.mul (a.get k.1 j) (b.get (j.cast h) k.2))
          (List.finRange a.cols)
  joint : ∀ (op : JointOp F) (a : Matrix (Traced F)),
    Matrix.toList <$> tracing.applyJoint op a = do
      let b ← tracing.ofOutcome (op.value (a.values tracing))
      (Matrix.places b.rows b.cols).mapM fun k =>
        Tracing.result (.primitive op.name) a.toList
          (op.block (a.values tracing) b k.1 k.2).toList (b.get k.1 k.2)

/-- The tape is exactly the trace of the active computation. -/
theorem active_trace (p : Program F) (x : List F) (s : Recorder F) : ActiveTrace p x s where
  gradient := Recording.recorded_valueGradient (p.recorded_runScalar x s)
  product _ := Recording.recorded_vjp (p.recorded_run x s)
  handles k slots' hslots := by
    have hwf := Trace.wellFormed_of_agree
      ((Simulation.plainTracing x).slots (p.upTo k) (heeds_inputs x))
    obtain ⟨slots, w, hrun, hrel, hex⟩ := (Recording.recorded_epoch hwf fun w hs h =>
      (Simulation.tracingRecording x).slots (p.upTo k) h).2 slots' hslots
    exact ⟨slots, w.1.1, hrun, hrel.imp fun _ _ hxy => hxy.mono fun _ _ => stands_of_follows hex⟩
  multiply a b h hfits := by
    rw [Matrix.checkedMultiply, if_pos h, Matrix.requireFits_of_fits hfits]
    change Matrix.toList <$> Matrix.multiply tracing a b = _
    unfold Matrix.multiply
    rw [dif_pos h]
    exact Matrix.toList_ofFnM a.rows b.cols _
  joint op a := by
    rw [nodal_tracing.applyJoint, map_bind]
    exact bind_congr fun b => Matrix.toList_ofFnM b.rows b.cols _

def Primitive.total (n : ℕ) : Primitive ℚ where
  name := "total"
  arity := n
  value xs := .ok xs.toList.sum
  partials _ _ := .replicate n 1

def Step.total (n : ℕ) : Step ℚ := .apply (.total n) (.replicate n 0)

theorem Step.run_total {S : Type} {m : Type → Type} [Monad m] [LawfulMonad m]
    {I : Interpretation ℚ S m} {L : NodeRule ℚ S m} (hI : Nodal I L)
    (hpure : ∀ {α : Type} (a : α), I.ofOutcome (.ok a) = pure a) {slots : Slots S} {a : S}
    (ha : (slots.scalar 0 : Outcome ℚ S) = .ok a) (n : ℕ) :
    (Step.total n).run I slots = Slot.scalar <$>
      L (.primitive "total") (.replicate n a) (.replicate n 1) (n * I.value a) := by
  have hscalars : (slots.scalars (.replicate n 0) : Outcome ℚ (List S)) = .ok (.replicate n a) := by
    induction n with
    | zero => rfl
    | succ n ih =>
      rw [List.replicate_succ, Slots.scalars, List.mapM_cons, ha]
      change (slots.scalars _ >>= _ : Outcome ℚ (List S)) = _
      rw [ih]
      rfl
  have hoperands : (Primitive.total n).operands (.replicate n a) = .ok (.replicate _ a) :=
    (dif_pos List.length_replicate).trans (congrArg Except.ok (Vector.toList_inj.mp (by
      rw [Vector.toList_replicate]
      rfl)))
  have hvalue : (Primitive.total n).value ((Vector.replicate _ a).map I.value) =
      .ok (n * I.value a) := by
    simp [Primitive.total]
  have happly : I.apply (.total n) (.replicate n a) =
      L (.primitive "total") (.replicate n a) (.replicate n 1) (n * I.value a) := by
    rw [hI.apply, hoperands, hpure, pure_bind, hvalue, hpure, pure_bind, Vector.toList_replicate]
    exact congrArg (L _ _ · _) Vector.toList_replicate
  rw [Step.total, Step.run, hscalars, hpure, pure_bind, happly, map_eq_pure_bind]

def wideTotal (n : ℕ) : Program ℚ where
  steps := [.total n]

theorem run_wideTotal {S : Type} {m : Type → Type} [Monad m] [LawfulMonad m]
    {I : Interpretation ℚ S m} {L : NodeRule ℚ S m} (hI : Nodal I L)
    (hpure : ∀ {α : Type} (a : α), I.ofOutcome (.ok a) = pure a) (a : S) (n : ℕ) :
    (wideTotal n).run I [a] = (fun y => [y]) <$>
      L (.primitive "total") (.replicate n a) (.replicate n 1) (n * I.value a) := by
  have hslots : (wideTotal n).slots I [a] = (fun y => #[.scalar a, .scalar y]) <$>
      L (.primitive "total") (.replicate n a) (.replicate n 1) (n * I.value a) := by
    unfold Program.slots wideTotal
    have ha : (Slots.scalar #[.scalar a] 0 : Outcome ℚ S) = .ok a := rfl
    have htotal := Step.run_total hI hpure ha n
    simp [htotal]
  unfold Program.run
  rw [hslots, bind_map_left, map_eq_pure_bind]
  refine bind_congr fun y => ?_
  change I.ofOutcome (.ok [[y]]) >>= _ = _
  rw [hpure, pure_bind]
  rfl

theorem trace_wideTotal (n : ℕ) : (wideTotal n).trace [3] = Trace.inputs [3] ++
    [.of (.primitive "total") (.replicate n ⟨3, true, some 0⟩) (.replicate n 1) (n * 3)] := by
  have hrun := run_wideTotal nodal_tracing (fun _ => rfl) ⟨3, true, some 0⟩ n
  unfold Program.trace
  exact congrArg (fun x : Tracing ℚ _ => (x (Trace.inputs [3])).2) hrun

theorem records_wideTotal {n : ℕ} (hn : 0 < n) : ((wideTotal n).trace [3]).records =
    [⟨.input, 3, []⟩, ⟨.primitive "total", n * 3, .replicate n (0, 1)⟩] := by
  have hrecord : ∀ log : Trace ℚ, log.record (.of (.primitive "total")
      (.replicate n ⟨3, true, some 0⟩) (.replicate n 1) (n * 3)) =
        ⟨.primitive "total", n * 3, .replicate n (0, 1)⟩ := by
    intro log
    rw [Trace.record, Result.of, List.map_replicate]
    exact congrArg (NodeRecord.mk _ _) (Tape.liveEdges_replicate n 0 1)
  have hactive : ((wideTotal n).trace [3]).filter Result.active = (wideTotal n).trace [3] := by
    rw [List.filter_eq_self, trace_wideTotal]
    simp [Trace.inputs, Result.of, hn.ne']
  rw [Trace.records, hactive, trace_wideTotal, List.map_append, List.map_singleton, hrecord]
  rfl

def wideRun (n : ℕ) : Recorder ℚ :=
  (begun { tape := .empty } [3]).pushed (.primitive "total") (.replicate n (0, 1)) (n * 3)

def wideSum (n : ℕ) : Handle ℚ := ⟨n * 3, some 1, 1⟩

theorem madeOf_wideRun (n : ℕ) : (wideRun n).tape.MadeOf
    [⟨.input, 3, []⟩, ⟨.primitive "total", n * 3, .replicate n (0, 1)⟩] :=
  (Recording.madeOf_begun (s := { tape := .empty }) (x := [3])).push ⟨_, _, _⟩

theorem live_wideSum (n : ℕ) : (wideRun n).tape.Live (wideSum n) :=
  Tape.live_push (begun { tape := .empty } [3]).tape _ _ _

theorem run_total_begun {n : ℕ} (hn : 0 < n) :
    (Step.total n).run recording #[.scalar ⟨3, some 0, 1⟩] (begun { tape := .empty } [3]) =
      (.ok (.scalar (wideSum n)), wideRun n) := by
  have hnode := Recording.node_replicate (s := begun { tape := .empty } [(3 : ℚ)]) rfl
    (.primitive "total") (Recording.live_inputs (i := 0) (by decide) 3) rfl hn 1 (n * 3)
  rw [Step.run_total nodal_recording (fun _ => rfl) (a := ⟨3, some 0, 1⟩) rfl]
  exact run_map hnode Slot.scalar

theorem epoch_wideTotal {n : ℕ} (hn : 0 < n) :
    Recording.epoch ((wideTotal n).run recording) [3] { tape := .empty } =
      (.ok [wideSum n], wideRun n) :=
  Recording.epoch_of_run (by decide) (Program.run_last rfl #[.scalar ⟨3, some 0, 1⟩]
    (Recording.fill_cons_ok (run_total_begun hn) [])) rfl

theorem edges_wideRun {n : ℕ} (hn : n % 2 ^ 32 = 0) {i : ℕ} (hi : i < 2) :
    (wideRun n).tape.edges i = [] := by
  refine (madeOf_wideRun n).edges_wrapped hi (Nat.le_of_eq ?_)
  match i with
  | 0 => simp [operandCount]
  | 1 => simpa [operandCount] using hn

theorem vjp_wideTotal {n : ℕ} (hn : 0 < n) :
    Recording.vjp ((wideTotal n).run recording) [3] [1] { tape := .empty } =
      (.ok ([n * 3], ((wideRun n).tape.adjointsFrom [(wideSum n, 1)]).toList.take 1),
        (wideRun n).swept [(wideSum n, 1)]) :=
  (Recording.vjp_of_epoch (epoch_wideTotal hn) (List.forall_mem_singleton.mpr (live_wideSum n))
    [1]).trans (if_neg (not_not.mpr rfl))

theorem wide_trace {n : ℕ} (hn : n % 2 ^ 32 = 0) (hpos : 0 < n) :
    ((Recording.vjp ((wideTotal n).run recording) [3] [1] { tape := .empty }).2.tape.readNode? 1).map
      NodeEntry.operands = some [] := by
  rw [vjp_wideTotal hpos, Recorder.swept]
  generalize (wideRun n).tape.adjointsFrom _ = adjoints
  have hstart : ((wideRun n).withAdjoints adjoints).tape.spanStart 1 = 0 := rfl
  have hnode : ((wideRun n).withAdjoints adjoints).tape.nodes[1]? =
      some ⟨.primitive "total", n * 3, _⟩ := (madeOf_wideRun n).getElem?_nodes Nat.one_lt_two
  rw [Tape.readNode?, hstart, if_neg (Nat.not_lt_zero _), Recorder.edges_withAdjoints,
    edges_wideRun hn Nat.one_lt_two, hnode]
  rfl

/-- The node of a sum with `2 ^ 32` operands has none of them. -/
theorem wide_trace_lost :
    (((wideTotal (2 ^ 32)).trace [3]).records[1]?).map NodeRecord.edges =
        some (.replicate (2 ^ 32) (0, 1)) ∧
      ((Recording.vjp ((wideTotal (2 ^ 32)).run recording) [3] [1] { tape := .empty }).2.tape.readNode?
        1).map NodeEntry.operands = some [] := by
  refine ⟨?_, wide_trace (by decide) (by decide)⟩
  rw [records_wideTotal (by decide)]
  rfl

def wideBefore (n : ℕ) (step : Step ℚ) : Program ℚ where
  steps := [.total n, step]

theorem madeOf_wideBefore (n : ℕ) (kind : NodeKind) (es : List (ℕ × ℚ)) (v : ℚ) :
    ((wideRun n).pushed kind es v).tape.MadeOf
      [⟨.input, 3, []⟩, ⟨.primitive "total", n * 3, .replicate n (0, 1)⟩, ⟨kind, v, es⟩] :=
  (madeOf_wideRun n).push ⟨kind, v, es⟩

theorem vjp_wideBefore {n : ℕ} (hn : 0 < n) {step : Step ℚ} {kind : NodeKind}
    {es : List (ℕ × ℚ)} {v c : ℚ}
    (hstep : step.run recording #[.scalar ⟨3, some 0, 1⟩, .scalar (wideSum n)] (wideRun n) =
      (.ok (.scalar ⟨v, some 2, 1⟩), (wideRun n).pushed kind es v))
    (hpass : ((wideRun n).pushed kind es v).tape.propagate #[0, 0, 1] 2 = #[c, 0, 1]) :
    (wideBefore n step).vjp [3] [1] = .ok ([v], [c]) := by
  have hepoch : Recording.epoch ((wideBefore n step).run recording) [3] { tape := .empty } =
      (.ok [⟨v, some 2, 1⟩], (wideRun n).pushed kind es v) :=
    Recording.epoch_of_run (by decide) (Program.run_last rfl
      #[.scalar ⟨3, some 0, 1⟩, .scalar (wideSum n)]
      ((Recording.fill_cons_ok (run_total_begun hn) [step]).trans
        (Recording.fill_cons_ok hstep []))) rfl
  have hlive : ((wideRun n).pushed kind es v).tape.Live ⟨v, some 2, 1⟩ :=
    Tape.live_push (wideRun n).tape _ _ _
  have hbare : ((wideRun n).pushed kind es v).tape.edges 0 = [] :=
    (madeOf_wideBefore n kind es v).edges_eq (Nat.zero_lt_succ _) (by simp [operandCount])
  have hunused : ((wideRun n).pushed kind es v).tape.propagate #[c, 0, 1] 1 = #[c, 0, 1] :=
    Tape.propagate_zero _ rfl (by decide)
  have hseeds : ((wideRun n).pushed kind es v).tape.seedAdjoints [(⟨v, some 2, 1⟩, 1)] =
      #[0, 0, 1] := by
    change (Array.replicate 3 (0 : ℚ)).modify 2 (· + 1) = #[0, 0, 1]
    decide +kernel
  -- The step passes `c` to the input, the sum passes nothing on, the input has no operands.
  have hsweep : ((wideRun n).pushed kind es v).tape.adjointsFrom [(⟨v, some 2, 1⟩, 1)] =
      #[c, 0, 1] := by
    rw [Tape.adjointsFrom, hseeds]
    change [2, 1, 0].foldl _ _ = _
    rw [List.foldl_cons, hpass, List.foldl_cons, hunused, List.foldl_cons, Tape.propagate_bare hbare,
      List.foldl_nil]
  have hvjp := (Recording.vjp_of_epoch hepoch (List.forall_mem_singleton.mpr hlive) [1]).trans
    (if_neg (not_not.mpr rfl))
  refine (congrArg Prod.fst hvjp).trans ?_
  change Except.ok ([v], (Tape.adjointsFrom _ [(⟨v, some 2, 1⟩, 1)]).toList.take 1) = _
  rw [hsweep]
  rfl

theorem mul_wideRun (n : ℕ) :
    (Step.mul 0 0).run recording #[.scalar ⟨3, some 0, 1⟩, .scalar (wideSum n)] (wideRun n) =
      (.ok (.scalar ⟨3 * 3, some 2, 1⟩), (wideRun n).pushed .mul [(0, 3), (0, 3)] (3 * 3)) :=
  rfl

end Autodiff
