import Autodiff.Proofs.Number.Exact
import Autodiff.Proofs.Tape.Requests

set_option autoImplicit false

namespace Autodiff

variable {F : Type}

def resets (log : List (Exchange F)) : ℕ := log.countP (·.1.isReset)

/-- Some recording was refused, and no epoch began after it. -/
def RefusedLately (log : List (Exchange F)) : Prop :=
  ∃ before e after, log = before ++ e :: after ∧ e.isRefused = true ∧ resets after = 0

def recorded (log : List (Exchange F)) : List (NodeRecord F) :=
  log.foldl (fun records e => if e.1.isReset then [] else records ++ e.record?.toList) []

def Recorder.start (limit : Option ℕ) : Recorder F := { tape := { limit := limit } }

def Tape.bare (t : Tape F) : Tape F := { t with adjoints := #[] }

theorem Tape.open_new (limit : Option ℕ) (epoch : UInt32) :
    ({ limit := limit, epoch := epoch } : Tape F).Open where
  toWellFormed := .of_empty rfl rfl rfl
  fits := Nat.zero_le _
  full hex := by cases hex
  unswept := rfl

theorem resets_append (before after : List (Exchange F)) :
    resets (before ++ after) = resets before + resets after := List.countP_append

theorem resets_cons (e : Exchange F) (log : List (Exchange F)) :
    resets (e :: log) = resets log + if e.1.isReset then 1 else 0 := List.countP_cons

theorem recorded_append_singleton (log : List (Exchange F)) (e : Exchange F) :
    recorded (log ++ [e]) = if e.1.isReset then [] else recorded log ++ e.record?.toList := by
  rw [recorded, List.foldl_append]
  rfl

theorem recorded_append {before after : List (Exchange F)} (h : resets after = 0) :
    recorded (before ++ after) = recorded before ++ after.flatMap (·.record?.toList) := by
  induction after using List.reverseRecOn with
  | nil => simp
  | append_singleton after e ih =>
    rw [resets_append, resets_cons] at h
    have hreset : e.1.isReset = false := by
      cases hreset : e.1.isReset with
      | false => rfl
      | true => simp [hreset] at h
    rw [← List.append_assoc, recorded_append_singleton, hreset, ih (by omega), List.flatMap_append,
      List.flatMap_singleton, List.append_assoc]
    rfl

theorem refusedLately_append_singleton {before : List (Exchange F)} {e : Exchange F} :
    RefusedLately (before ++ [e]) ↔
      e.isRefused = true ∨ e.1.isReset = false ∧ RefusedLately before := by
  constructor
  · rintro ⟨before', e', after, hlog, hrefused, hresets⟩
    obtain rfl | ⟨after, e'', rfl⟩ := List.eq_nil_or_concat after
    · obtain ⟨-, hlast⟩ := List.append_inj' hlog rfl
      cases hlast
      exact .inl hrefused
    · rw [List.concat_eq_append, ← List.cons_append, ← List.append_assoc] at hlog
      obtain ⟨rfl, hlast⟩ := List.append_inj' hlog rfl
      cases hlast
      rw [List.concat_eq_append, resets_append, resets_cons] at hresets
      refine .inr ⟨?_, before', e', after, rfl, hrefused, by omega⟩
      cases hreset : e.1.isReset with
      | false => rfl
      | true => simp [hreset] at hresets
  · rintro (hrefused | ⟨hreset, before', e', after, rfl, hrefused, hresets⟩)
    · exact ⟨before, e, [], rfl, hrefused, rfl⟩
    · refine ⟨before', e', after ++ [e], by simp, hrefused, ?_⟩
      rw [resets_append, resets_cons, hresets, hreset]
      rfl

namespace Effect

variable {s s' : Recorder F} {e : Exchange F}

theorem open_bare (h : Effect s e s') (hs : s.tape.bare.Open) : s'.tape.bare.Open := by
  cases h with
  | kept => exact hs
  | pushed r _ hroom hold => exact hs.push hroom r.kind hold r.value
  | refused hfull => exact Recorder.open_refused (s := ⟨s.tape.bare, s.events⟩) hs hfull
  | reset => exact Tape.open_new s.tape.limit (s.tape.epoch + 1)

theorem limit (h : Effect s e s') : s'.tape.limit = s.tape.limit := by
  cases h <;> rfl

theorem grows (h : Effect s e s') (hreset : e.1.isReset = false) : s.tape.Grows s'.tape := by
  cases h with
  | kept =>
    exact ⟨⟨List.prefix_refl _, List.prefix_refl _, List.prefix_refl _⟩, rfl, rfl, id⟩
  | pushed r => exact Tape.grows_push s.tape r.kind r.edges r.value
  | refused => exact Recorder.grows_refused s
  | reset hreset' => exact nomatch (hreset.symm.trans hreset')

theorem epoch (h : Effect s e s') :
    s'.tape.epoch = s.tape.epoch + UInt32.ofNat (if e.1.isReset then 1 else 0) := by
  cases h with
  | kept _ hreset | pushed _ _ _ _ hreset | refused _ hreset =>
    rw [hreset]
    exact (UInt32.add_zero _).symm
  | reset hreset =>
    rw [hreset]
    rfl

theorem exhausted (h : Effect s e s') :
    s'.tape.exhausted = true ↔
      e.isRefused = true ∨ e.1.isReset = false ∧ s.tape.exhausted = true := by
  cases h with
  | kept _ hreset hrefused => simp [hreset, hrefused, Recorder.withAdjoints]
  | pushed _ _ _ _ hreset hrefused => simp [hreset, hrefused, Recorder.pushed]
  | refused _ _ hrefused => simp [hrefused, Recorder.refused]
  | reset hreset hrefused => simp [hreset, hrefused, Tape.nextEpoch]

theorem handle {request : Request F} {x : Handle F} {i : ℕ}
    (h : Effect s (request, .ok (.handle x)) s') (hx : x.node = some i) :
    ∃ r, request.record? = some r ∧ x = ⟨r.value, some s.tape.size, s.tape.epoch⟩ ∧
      (∀ e ∈ r.edges, e.1 < s.tape.size) ∧ s' = s.pushed r.kind r.edges r.value := by
  cases h with
  | kept _ _ _ _ hnode => exact nomatch ((hnode x rfl).symm.trans hx)
  | pushed r hrecord _ hold _ _ hnode =>
    have hsame : Exchange.record? (request, .ok (.handle x)) = request.record? := by
      simp [Exchange.record?, Handle.isConstant, hx]
    exact ⟨r, hsame.symm.trans hrecord, hnode x rfl, hold, rfl⟩
  | refused _ _ _ _ hnode => exact nomatch ((hnode x rfl).symm.trans hx)
  | reset _ _ hnode => exact absurd rfl (hnode x)

theorem madeOf (h : Effect s e s') {rs : List (NodeRecord F)} (hs : s.tape.MadeOf rs) :
    s'.tape.MadeOf (if e.1.isReset then [] else rs ++ e.record?.toList) := by
  cases h with
  | kept _ hreset _ hrecord | refused _ hreset _ hrecord =>
    rw [hreset, hrecord]
    exact (List.append_nil rs).symm ▸ hs.congr rfl rfl rfl
  | pushed r hrecord _ _ hreset =>
    rw [hreset, hrecord]
    exact hs.push r
  | reset hreset =>
    rw [hreset]
    exact .of_empty rfl rfl rfl

end Effect

variable [Arith F] [Functions F]

/-- From the first recorder the requests of the list are answered as it says, none with a fault. -/
inductive Serves : Recorder F → List (Exchange F) → Recorder F → Prop where
  | nil (s : Recorder F) : Serves s [] s
  | cons {s s' t : Recorder F} {request : Request F} {outcome : Outcome F (Reply F)}
      {log : List (Exchange F)} (h : request.perform s = (outcome, s'))
      (hfault : ∀ cause, outcome ≠ .error (.fault cause)) (tail : Serves s' log t) :
      Serves s ((request, outcome) :: log) t

theorem Request.perform_backward {s : Recorder F} {output : Handle F}
    (hlive : s.tape.Live output) :
    (Request.backward output).perform s =
      (.ok (.adjoints (s.tape.adjointsFrom [(output, 1)]).toList), s.swept [(output, 1)]) := by
  rw [Request.perform, run_bind]
  unfold Recording.backward
  rw [Recording.backwardFrom_of_live (List.forall_mem_singleton.mpr hlive)]
  rfl

namespace Serves

variable {s s' t : Recorder F} {log before after : List (Exchange F)} {e : Exchange F}

theorem answered {request : Request F} {reply : Reply F}
    (h : request.perform s = (.ok reply, s')) (tail : Serves s' log t) :
    Serves s ((request, .ok reply) :: log) t :=
  .cons h (fun _ herror => nomatch herror) tail

theorem effect_cons (h : Serves s (e :: log) t) : ∃ m, Effect s e m ∧ Serves m log t := by
  cases h with
  | cons h hfault tail => exact ⟨_, Request.effect _ h hfault, tail⟩

theorem of_append (h : Serves s (before ++ after) t) :
    ∃ m, Serves s before m ∧ Serves m after t := by
  induction before generalizing s with
  | nil => exact ⟨s, .nil s, h⟩
  | cons e before ih =>
    cases h with
    | cons h hfault tail =>
      obtain ⟨m, hbefore, hafter⟩ := ih tail
      exact ⟨m, .cons h hfault hbefore, hafter⟩

theorem open_bare (h : Serves s log t) (hs : s.tape.bare.Open) : t.tape.bare.Open := by
  induction h with
  | nil => exact hs
  | cons h hfault _ ih => exact ih ((Request.effect _ h hfault).open_bare hs)

theorem limit (h : Serves s log t) : t.tape.limit = s.tape.limit := by
  induction h with
  | nil => rfl
  | cons h hfault _ ih => exact ih.trans (Request.effect _ h hfault).limit

theorem grows (h : Serves s log t) (hresets : resets log = 0) : s.tape.Grows t.tape := by
  induction h with
  | nil s => exact .refl s.tape
  | @cons s s' t request outcome log h hfault _ ih =>
    rw [resets_cons] at hresets
    have hreset : request.isReset = false := by
      cases hreset : request.isReset with
      | false => rfl
      | true => simp [hreset] at hresets
    exact ((Request.effect _ h hfault).grows hreset).trans (ih (by omega))

theorem epoch (h : Serves s log t) :
    t.tape.epoch = s.tape.epoch + UInt32.ofNat (resets log) := by
  induction h with
  | nil s => exact (UInt32.add_zero _).symm
  | @cons s s' t request outcome log h hfault _ ih =>
    rw [ih, (Request.effect _ h hfault).epoch, resets_cons, UInt32.ofNat_add, UInt32.add_assoc,
      UInt32.add_comm (UInt32.ofNat (resets log))]

theorem exhausted {limit : Option ℕ} (h : Serves (.start limit) log t) :
    t.tape.exhausted = true ↔ RefusedLately log := by
  induction log using List.reverseRecOn generalizing t with
  | nil =>
    cases h
    refine ⟨fun hex => (by cases hex), fun ⟨before, e, after, hlog, _⟩ => ?_⟩
    exact absurd hlog.symm (List.append_ne_nil_of_right_ne_nil _ (List.cons_ne_nil e after))
  | append_singleton log e ih =>
    obtain ⟨m, hbefore, hlast⟩ := h.of_append
    obtain ⟨t', heffect, hnil⟩ := hlast.effect_cons
    cases hnil
    rw [heffect.exhausted, ih hbefore, refusedLately_append_singleton]

end Serves

/-- The node of the handle is the one that was recorded for it, and it shows what was recorded unless
its own operands and those before it are too many, `count` in all. -/
structure Current (t : Tape F) (request : Request F) (x : Handle F) (i count : ℕ) : Prop where
  lt_size : i < t.size
  value : t.valueOf x = .ok x.value
  entry : count < 2 ^ 32 → ∃ r, request.record? = some r ∧ r.value = x.value ∧
    (∀ e ∈ r.edges, e.1 < i) ∧ t.readNode? i = some (r.entry (t.adjointAt i))

omit [Arith F] [Functions F] in
theorem Tape.WellFormed.of_bare {t : Tape F} (h : t.bare.WellFormed) : t.WellFormed :=
  h.congr rfl rfl rfl

namespace Serves

variable {limit : Option ℕ} {t : Recorder F} {log before after : List (Exchange F)}
variable {request : Request F} {x : Handle F} {i : ℕ}

theorem wellFormed (h : Serves (.start limit) log t) : t.tape.WellFormed :=
  .of_bare (h.open_bare (Tape.open_new limit 0)).toWellFormed

theorem madeOf (h : Serves (.start limit) log t) : t.tape.MadeOf (recorded log) := by
  induction log using List.reverseRecOn generalizing t with
  | nil =>
    cases h
    exact .of_empty rfl rfl rfl
  | append_singleton log e ih =>
    obtain ⟨m, hbefore, hlast⟩ := h.of_append
    obtain ⟨t', heffect, hnil⟩ := hlast.effect_cons
    cases hnil
    rw [recorded_append_singleton]
    exact heffect.madeOf (ih hbefore)

theorem of_handle (h : Serves (.start limit) (before ++ (request, .ok (.handle x)) :: after) t)
    (hx : x.node = some i) :
    ∃ (s : Recorder F) (r : NodeRecord F), (recorded before).length = i ∧
      recorded (before ++ [(request, .ok (.handle x))]) = recorded before ++ [r] ∧
      request.record? = some r ∧ (∀ e ∈ r.edges, e.1 < i) ∧
      x = ⟨r.value, some i, s.tape.epoch⟩ ∧ Serves (s.pushed r.kind r.edges r.value) after t := by
  obtain ⟨s, hbefore, hrest⟩ := h.of_append
  obtain ⟨m, heffect, hafter⟩ := hrest.effect_cons
  obtain ⟨r, hrecord, rfl, hold, rfl⟩ := heffect.handle hx
  obtain rfl : s.tape.size = i := Option.some.inj hx
  have hreset : request.isReset = false := by
    cases request with
    | nextEpoch => cases hrecord
    | _ => rfl
  refine ⟨s, r, hbefore.madeOf.size_eq.symm, ?_, hrecord, hold, rfl, hafter⟩
  rw [recorded_append_singleton, hreset, Exchange.record?, hrecord]
  rfl

theorem current (h : Serves (.start limit) (before ++ (request, .ok (.handle x)) :: after) t)
    (hx : x.node = some i) (hresets : resets after = 0) :
    Current t.tape request x i
      (operandCount (recorded (before ++ [(request, .ok (.handle x))]))) := by
  obtain ⟨s, r, rfl, hrecorded, hrecord, hold, hself, hafter⟩ := h.of_handle hx
  have hmade := h.madeOf
  rw [List.append_cons, recorded_append hresets, hrecorded] at hmade
  generalize after.flatMap _ = more at hmade
  have hlt : (recorded before).length < (recorded before ++ [r] ++ more).length := by simp
  have hr : (recorded before ++ [r] ++ more)[(recorded before).length] = r := by simp
  have htake : (recorded before ++ [r] ++ more).take ((recorded before).length + 1) =
      recorded before ++ [r] := List.take_left' (by simp)
  have hlive : t.tape.Live x := by
    intro j hj
    obtain rfl : (recorded before).length = j := Option.some.inj (hx.symm.trans hj)
    exact ⟨(congrArg Handle.epoch hself).trans (hafter.grows hresets).epoch.symm,
      hlt.trans_eq hmade.size_eq.symm⟩
  refine ⟨hlt.trans_eq hmade.size_eq.symm, ?_, fun hfew => ⟨r, hrecord, ?_, hold, ?_⟩⟩
  · rw [Tape.valueOf_live hlive, hx, Option.elim_some, hmade.getElem?_nodes hlt, hr, hself]
    rfl
  · exact (congrArg Handle.value hself).symm
  · rw [hmade.readNode?_eq hlt (by rwa [htake, ← hrecorded]), hr]

theorem stale (h : Serves (.start limit) (before ++ (request, .ok (.handle x)) :: after) t)
    (hx : x.node = some i) (hresets : 0 < resets after) (hfew : resets after < 2 ^ 32) :
    ¬ t.tape.Live x := by
  obtain ⟨s, r, -, -, -, -, rfl, hafter⟩ := h.of_handle hx
  intro hlive
  have hepoch : s.tape.epoch = t.tape.epoch := (hlive i rfl).1
  rw [hafter.epoch] at hepoch
  have hzero : UInt32.ofNat (resets after) = 0 := UInt32.left_eq_add.mp hepoch
  have hmod : resets after % 2 ^ 32 = 0 := congrArg UInt32.toNat hzero
  rw [Nat.mod_eq_of_lt hfew] at hmod
  omega

end Serves

structure Truthful (limit : Option ℕ) (log : List (Exchange F)) (s : Recorder F) : Prop where
  within : ∀ n, limit = some n → s.tape.size ≤ n
  operands : (List.range s.tape.size).flatMap (fun i => (s.tape.edges i).map Prod.fst) =
    s.tape.operands.toList ↔ operandCount (recorded log) < 2 ^ 32
  partials : (List.range s.tape.size).flatMap (fun i => (s.tape.edges i).map Prod.snd) =
    s.tape.partials.toList ↔ operandCount (recorded log) < 2 ^ 32
  older : ∀ i, i < s.tape.size → ∀ e ∈ s.tape.edges i, e.1 < i
  exhausted : s.tape.exhausted = true ↔ RefusedLately log
  current : ∀ before request x after i, log = before ++ (request, .ok (.handle x)) :: after →
    x.node = some i → resets after = 0 →
    Current s.tape request x i
      (operandCount (recorded (before ++ [(request, .ok (.handle x))])))
  stale : ∀ before request x after i, log = before ++ (request, .ok (.handle x)) :: after →
    x.node = some i → 0 < resets after → ∀ use : Request F, x ∈ use.args →
      ∃ j epoch adjoints, use.perform s =
        (.error (.fault (.staleVariable j epoch s.tape.epoch)), s.withAdjoints adjoints) ∧
        (use.isSweep = false → adjoints = s.tape.adjoints)

/-- The handles that a tape gives out stay truthful for as long as it answers requests. Their nodes
show the operands that were recorded while these are fewer than `2 ^ 32`, and from then on the spans
divide the stacks no more. -/
theorem handles_truthful {limit : Option ℕ} {log : List (Exchange F)} {s : Recorder F}
    (h : Serves (.start limit) log s) (hfew : resets log < 2 ^ 32) : Truthful limit log s := by
  have hopen : s.tape.bare.Open := h.open_bare (Tape.open_new limit 0)
  have hwf : s.tape.WellFormed := h.wellFormed
  constructor
  case within =>
    intro n hn
    have hlimit : s.tape.bare.limit = some n := h.limit.trans hn
    have hfits := hopen.fits
    rw [Tape.bound_of_some hlimit] at hfits
    exact Nat.le_trans hfits (Nat.min_le_left _ _)
  case operands => exact h.madeOf.flatMap_operands_iff
  case partials => exact h.madeOf.flatMap_partials_iff
  case older => exact hwf.older
  case exhausted => exact h.exhausted
  case current =>
    rintro before request x after i rfl hx hresets
    exact h.current hx hresets
  case stale =>
    rintro before request x after i rfl hx hresets use huse
    rw [resets_append, resets_cons] at hfew
    exact use.perform_stale huse (h.stale hx hresets (by omega))

def reusedLog : List (Exchange ℚ) :=
  [(.input 2, .ok (.handle ⟨2, some 0, 0⟩)),
    (.input 5, .ok (.handle ⟨5, some 1, 0⟩)),
    (.binary .mul ⟨2, some 0, 0⟩ 5 ⟨5, some 1, 0⟩ 2 10, .ok (.handle ⟨10, some 2, 0⟩)),
    (.unary .neg ⟨10, some 2, 0⟩ (-1) (-10), .ok (.handle (.constant (-10)))),
    (.backward ⟨10, some 2, 0⟩, .ok (.adjoints [5, 2, 1])),
    (.nextEpoch, .ok (.tape { limit := some 3, epoch := 1 })),
    (.input 7, .ok (.handle ⟨7, some 0, 1⟩))]

def reusedRecorder : Recorder ℚ where
  tape :=
    { nodes := #[⟨.input, 2, 0⟩, ⟨.input, 5, 0⟩, ⟨.mul, 10, 2⟩]
      operands := #[0, 1]
      partials := #[5, 2]
      limit := some 3 }

theorem serves_reusedLog :
    Serves (.start (some 3)) reusedLog
      ⟨{ nodes := #[⟨.input, 7, 0⟩], epoch := 1, limit := some 3 }, [.exhausted 3 0]⟩ := by
  have hlive : reusedRecorder.refused.tape.Live ⟨10, some 2, 0⟩ := by
    intro i hi
    cases hi
    exact ⟨rfl, by decide⟩
  have hadjoints : (reusedRecorder.refused.tape.adjointsFrom [(⟨10, some 2, 0⟩, 1)]).toList =
      [5, 2, 1] := by
    decide +kernel
  have hsweep := Request.perform_backward hlive
  rw [hadjoints] at hsweep
  exact .answered rfl <| .answered rfl <| .answered (rfl : _ = (_, reusedRecorder)) <|
    .answered (rfl : _ = (_, reusedRecorder.refused)) <| .answered hsweep <|
    .answered rfl <| .answered rfl <| .nil _

theorem handles_truthful_reusedLog :
    ∃ s, Serves (.start (some 3)) reusedLog s ∧ resets reusedLog < 2 ^ 32 ∧
      Truthful (some 3) reusedLog s := by
  have hfew : resets reusedLog < 2 ^ 32 := by decide
  exact ⟨_, serves_reusedLog, hfew, handles_truthful serves_reusedLog hfew⟩

def wideOutput (n : ℕ) : Handle ℚ := ⟨3 * n, some 1, 0⟩

def wideLog (n : ℕ) : List (Exchange ℚ) :=
  [(.input 3, .ok (.handle ⟨3, some 0, 0⟩)),
    (.node (.primitive "total") (.replicate n ⟨3, some 0, 0⟩) (.replicate n 1) (wideOutput n).value,
      .ok (.handle (wideOutput n)))]

def inputRecorder : Recorder ℚ := (Recorder.start none).pushed .input [] 3

def wideRecorder (n : ℕ) : Recorder ℚ :=
  inputRecorder.pushed (.primitive "total") (.replicate n (0, 1)) (wideOutput n).value

theorem wellFormed_inputRecorder : inputRecorder.tape.WellFormed :=
  (Tape.open_new none 0).toWellFormed.push fun _ he => absurd he List.not_mem_nil

theorem serves_wideLog {n : ℕ} (hn : 0 < n) : Serves (.start none) (wideLog n) (wideRecorder n) := by
  have hlive : inputRecorder.tape.Live ⟨3, some 0, 0⟩ := by
    intro i hi
    cases hi
    exact ⟨rfl, Nat.one_pos⟩
  refine .answered (rfl : _ = (_, inputRecorder)) <| .answered ?_ <| .nil _
  rw [Request.perform, run_bind, Recording.node_replicate rfl _ hlive rfl hn]
  rfl

theorem edges_wideRecorder {n : ℕ} (hn : n % 2 ^ 32 = 0) {i : ℕ} (hi : i < 2) :
    (wideRecorder n).tape.edges i = [] := by
  rcases Nat.lt_succ_iff_lt_or_eq.mp hi with hlt | rfl
  · obtain rfl : i = 0 := Nat.lt_one_iff.mp hlt
    exact Tape.edges_push_of_lt wellFormed_inputRecorder hlt
  · refine Tape.edges_push_wrapped wellFormed_inputRecorder (Nat.le_of_eq ?_)
    rw [List.length_replicate]
    exact (congrArg (· % 2 ^ 32) (Nat.zero_add n)).trans hn

theorem live_wideOutput (n : ℕ) : (wideRecorder n).tape.Live (wideOutput n) := by
  intro i hi
  cases hi
  exact ⟨rfl, Nat.one_lt_two⟩

theorem wide_spans {n : ℕ} (hn : n % 2 ^ 32 = 0) (hpos : 0 < n) :
    ((wideRecorder n).tape.readNode? 1).map NodeEntry.operands = some [] ∧
      (List.range (wideRecorder n).tape.size).flatMap
        (fun i => ((wideRecorder n).tape.edges i).map Prod.fst) ≠
          (wideRecorder n).tape.operands.toList := by
  refine ⟨?_, fun hspans => ?_⟩
  · have hstart : (wideRecorder n).tape.spanStart 1 = 0 := rfl
    rw [Tape.readNode?, hstart, if_neg (Nat.not_lt_zero _), edges_wideRecorder hn (by decide)]
    rfl
  · have hnone : (List.range (wideRecorder n).tape.size).flatMap
        (fun i => ((wideRecorder n).tape.edges i).map Prod.fst) = [] := by
      refine List.flatMap_eq_nil_iff.mpr fun i hi => ?_
      rw [edges_wideRecorder hn (List.mem_range.mp hi)]
      rfl
    have hsize : (wideRecorder n).tape.operands.size = n :=
      Tape.size_operands_push.trans ((Nat.zero_add _).trans List.length_replicate)
    have hlength := congrArg List.length (hnone.symm.trans hspans)
    exact hpos.ne (hlength.trans hsize)

/-- A node with `2 ^ 32` operands shows none of them. -/
theorem wide_node_forgotten :
    ∃ s, Serves (.start none) (wideLog (2 ^ 32)) s ∧ resets (wideLog (2 ^ 32)) < 2 ^ 32 ∧
      (s.tape.readNode? 1).map NodeEntry.operands = some [] ∧
      (List.range s.tape.size).flatMap (fun i => (s.tape.edges i).map Prod.fst) ≠
        s.tape.operands.toList :=
  ⟨_, serves_wideLog (by decide), by decide, wide_spans (by decide) (by decide)⟩

end Autodiff
