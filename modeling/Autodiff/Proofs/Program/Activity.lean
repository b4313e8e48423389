import Autodiff.Proofs.Program.Trace

set_option autoImplicit false

namespace Autodiff

open Interpretation (plain recording tracing)

variable {F : Type}

namespace Worlds

def traced (F : Type) (x : List F) : Worlds Unit (Trace F) where
  World := {log : Trace F // Trace.WellFormed x log}
  order :=
    { le := fun log log' => log.1 <+: log'.1
      le_refl := fun _ => List.prefix_refl _
      le_trans := fun _ _ _ => List.IsPrefix.trans }
  left _ := ()
  right := Subtype.val

variable {x : List F}

/-- A number of the trace with the given value. -/
def Heeds (log : (traced F x).World) (y : F) (t : Traced F) : Prop :=
  y = t.value ∧ Trace.Holds log.1 t

theorem stable_heeds : Stable (V := traced F x) Heeds := by
  rintro log log' y t ⟨more, hmore⟩ h
  refine ⟨h.1, ?_⟩
  rw [← hmore]
  exact h.2.append more

theorem agree_result {log : (traced F x).World} {ys : List F} {ts : List (Traced F)}
    (kind : NodeKind) (partials : List F) (y : F) (h : List.Forall₂ (Heeds log) ys ts)
    (hlen : partials.length = ys.length) :
    (traced F x).Agree Heeds log (.ok y : Outcome F F) (Tracing.result kind ts partials y) := by
  have hholds : ∀ t ∈ ts, Trace.Holds log.1 t := forall_right_of_forall₂ h fun _ _ ht => ht.2
  have hwf := log.2.concat kind hholds (h.length_eq.symm.trans hlen.symm) y
  exact ⟨⟨_, hwf⟩, .ok y, _, List.prefix_append _ _, rfl, rfl,
    .ok ⟨rfl, Trace.holds_concat log.1 _ y⟩⟩

end Worlds

theorem Simulation.plainTracing [Arith F] [Functions F] (x : List F) :
    Simulation (plain (F := F)) tracing (Worlds.traced F x) Worlds.Heeds :=
  .ofNodal nodal_plain nodal_tracing Worlds.stable_heeds (fun h => h.1)
    (fun _ _ => ⟨rfl, nofun⟩) (fun _ _ => rfl) (fun _ _ => rfl) Worlds.agree_result

/-- The tape was made of the active results of the trace, as many as it may hold. -/
structure Recorder.Keeps (log : Trace F) (s : Recorder F) : Prop where
  isOpen : s.tape.Open
  made : s.tape.MadeOf ((Trace.records log).take s.tape.bound)
  exhausted : s.tape.exhausted = true ↔ s.tape.bound < (Trace.records log).length

namespace Recorder.Keeps

variable {log log' : Trace F} {s : Recorder F}

theorem size_eq (h : s.Keeps log) : s.tape.size = min s.tape.bound (Trace.records log).length := by
  rw [h.made.size_eq, List.length_take]

theorem room (h : s.Keeps log) (hroom : s.tape.isFull = false) :
    (Trace.records log).length = s.tape.size ∧ s.tape.size < s.tape.bound := by
  rw [← Bool.not_eq_true, Tape.isFull_iff] at hroom
  have hsize := h.size_eq
  omega

theorem same (h : s.Keeps log) (hrecords : Trace.records log' = Trace.records log) :
    s.Keeps log' where
  isOpen := h.isOpen
  made := hrecords ▸ h.made
  exhausted := hrecords ▸ h.exhausted

theorem beyond (h : s.Keeps log) {q : NodeRecord F}
    (hrecords : Trace.records log' = Trace.records log ++ [q])
    (hbound : s.tape.bound < (Trace.records log).length) : s.Keeps log' where
  isOpen := h.isOpen
  made := by
    rw [hrecords, List.take_append_of_le_length (Nat.le_of_lt hbound)]
    exact h.made
  exhausted := by
    rw [hrecords, List.length_append, h.exhausted]
    exact ⟨fun _ => Nat.lt_of_lt_of_le hbound (Nat.le_add_right _ _), fun _ => hbound⟩

theorem refused (h : s.Keeps log) {q : NodeRecord F} (hfull : s.tape.isFull = true)
    (hrecords : Trace.records log' = Trace.records log ++ [q]) : s.refused.Keeps log' where
  isOpen := Recorder.open_refused h.isOpen hfull
  made := by
    have hle : s.tape.bound ≤ (Trace.records log).length := by
      have hsize := h.size_eq
      rw [Tape.isFull_iff] at hfull
      omega
    change s.refused.tape.MadeOf ((Trace.records log').take s.tape.bound)
    rw [hrecords, List.take_append_of_le_length hle]
    exact h.made.congr rfl rfl rfl
  exhausted := by
    have hsize := h.size_eq
    rw [Tape.isFull_iff] at hfull
    rw [hrecords, List.length_append]
    refine ⟨fun _ => ?_, fun _ => rfl⟩
    change s.tape.bound < _
    rw [List.length_singleton]
    omega

theorem pushed (h : s.Keeps log) {kind : NodeKind} {es : List (ℕ × F)} {value : F}
    (hroom : s.tape.isFull = false) (hopen : (s.pushed kind es value).tape.Open)
    (hrecords : Trace.records log' = Trace.records log ++ [⟨kind, value, es⟩]) :
    (s.pushed kind es value).Keeps log' := by
  obtain ⟨hsize, hlt⟩ := h.room hroom
  have hall : s.tape.MadeOf (Trace.records log) := by
    have hmade := h.made
    rwa [List.take_of_length_le (by omega)] at hmade
  have hlength : (Trace.records log').length = s.tape.size + 1 := by
    rw [hrecords, List.length_append, hsize, List.length_singleton]
  refine ⟨hopen, ?_, ?_⟩
  · change (s.tape.push kind es value).MadeOf ((Trace.records log').take s.tape.bound)
    rw [List.take_of_length_le (by omega), hrecords]
    exact hall.push ⟨kind, value, es⟩
  · change s.tape.exhausted = true ↔ s.tape.bound < _
    rw [h.exhausted]
    omega

end Recorder.Keeps

namespace Worlds

def active (F : Type) (x : List F) : Worlds (Trace F) (Recorder F) where
  World := {w : Trace F × Recorder F // Trace.WellFormed x w.1 ∧ w.2.Keeps w.1}
  order :=
    { le := fun w w' => w.1.1 <+: w'.1.1 ∧ w.1.2.tape.Grows w'.1.2.tape
      le_refl := fun w => ⟨List.prefix_refl _, .refl w.1.2.tape⟩
      le_trans := fun _ _ _ h h' => ⟨h.1.trans h'.1, h.2.trans h'.2⟩ }
  left w := w.1.1
  right w := w.1.2

variable {x : List F}

/-- A live handle on the node of an active number, unless that node was refused. -/
structure Follows (w : (active F x).World) (t : Traced F) (h : Handle F) : Prop where
  value : t.value = h.value
  holds : Trace.Holds w.1.1 t
  node : h.node = (Trace.index w.1.1 t).filter (· < w.1.2.tape.bound)
  live : w.1.2.tape.Live h

theorem stable_follows : Stable (V := active F x) Follows := by
  rintro w w' t h ⟨⟨more, hmore⟩, hgrows⟩ ht
  refine ⟨ht.value, ?_, ?_, hgrows.live ht.live⟩
  · rw [← hmore]
    exact ht.holds.append more
  · rw [← hmore, Trace.index_append ht.holds, hgrows.bound_eq]
    exact ht.node

theorem follows_constant (w : (active F x).World) (c : F) :
    Follows w ⟨c, false, none⟩ (Handle.constant c) :=
  ⟨rfl, nofun, rfl, Tape.live_constant _ _⟩

theorem Follows.active {w : (active F x).World} {t : Traced F} {h : Handle F} (ht : Follows w t h)
    (hnode : h.isConstant = false) : t.active = true := by
  cases hactive : t.active with
  | true => rfl
  | false =>
    have hconstant : h.node = none := by
      rw [ht.node, Trace.index_of_inactive hactive]
      rfl
    rw [Handle.isConstant, hconstant] at hnode
    cases hnode

theorem Follows.refused {w : (Worlds.active F x).World} {t : Traced F} {h : Handle F}
    (ht : Follows w t h) (hactive : t.active = true) (hconstant : h.isConstant = true) :
    w.1.2.tape.bound < (Trace.records w.1.1).length := by
  obtain ⟨k, hk, hlt⟩ := Trace.index_of_active ht.holds hactive
  have hnode := ht.node
  rw [hk, Option.isNone_iff_eq_none.mp hconstant, Option.filter_some] at hnode
  by_cases hbound : k < w.1.2.tape.bound
  · simp [hbound] at hnode
  · omega

theorem Follows.node_of_le {w : (Worlds.active F x).World} {t : Traced F} {h : Handle F}
    (ht : Follows w t h) (hroom : (Trace.records w.1.1).length ≤ w.1.2.tape.bound) :
    h.node = Trace.index w.1.1 t := by
  cases hactive : t.active with
  | false =>
    rw [ht.node, Trace.index_of_inactive hactive]
    rfl
  | true =>
    obtain ⟨k, hk, hlt⟩ := Trace.index_of_active ht.holds hactive
    rw [ht.node, hk, Option.filter_some, if_pos]
    exact decide_eq_true (Nat.lt_of_lt_of_le hlt hroom)

theorem Follows.of_refused {log : Trace F} {r : Result F} {y : F} {s : Recorder F}
    (hr : r.active = true) (hbound : s.tape.bound ≤ (Trace.records log).length)
    (hw : Trace.WellFormed x (log ++ [r]) ∧ s.Keeps (log ++ [r])) :
    Follows ⟨(log ++ [r], s), hw⟩ ⟨y, r.active, some log.length⟩ (Handle.constant y) := by
  refine ⟨rfl, Trace.holds_concat log r y, ?_, Tape.live_constant _ _⟩
  rw [Trace.index_concat hr, Option.filter_some, if_neg]
  · rfl
  · simpa using hbound

theorem any_active_of_follows {w : (active F x).World} {ts : List (Traced F)}
    {hs : List (Handle F)} (h : List.Forall₂ (Follows w) ts hs)
    (hall : hs.all Handle.isConstant = false) : ts.any Traced.active = true := by
  obtain ⟨h', hh', hconstant⟩ := List.all_eq_false.mp hall
  obtain ⟨t, ht, hfollows⟩ := exists_left_of_forall₂ h hh'
  exact List.any_eq_true.mpr ⟨t, ht, hfollows.active (Bool.eq_false_iff.mpr hconstant)⟩

/-- A result that should be on the tape lacks a node only where a node was refused before. -/
theorem lt_records_of_follows {w : (Worlds.active F x).World} {ts : List (Traced F)}
    {hs : List (Handle F)} (h : List.Forall₂ (Follows w) ts hs)
    (hall : hs.all Handle.isConstant = true) (hactive : ts.any Traced.active = true) :
    w.1.2.tape.bound < (Trace.records w.1.1).length := by
  obtain ⟨t, ht, hactive⟩ := List.any_eq_true.mp hactive
  obtain ⟨h', hh', hfollows⟩ := exists_left_of_forall₂ h.flip ht
  exact hfollows.refused hactive (List.all_eq_true.mp hall h' hh')

theorem agree_follows_node {w : (active F x).World} {ts : List (Traced F)} {hs : List (Handle F)}
    (kind : NodeKind) (partials : List F) (y : F) (h : List.Forall₂ (Follows w) ts hs)
    (hlen : partials.length = ts.length) :
    (active F x).Agree Follows w (Tracing.result kind ts partials y)
      (Recording.node kind hs partials y) := by
  obtain ⟨⟨log, s⟩, hw⟩ := w
  have hwf : Trace.WellFormed x log := hw.1
  have hkeeps : s.Keeps log := hw.2
  have hlive : ∀ h ∈ hs, s.tape.Live h := forall_right_of_forall₂ h fun _ _ ht => ht.live
  have hholds : ∀ t ∈ ts, Trace.Holds log t :=
    forall_left_of_forall₂ h fun _ _ ht => ht.holds
  have hwf' : Trace.WellFormed x (log ++ [.of kind ts partials y]) :=
    hwf.concat kind hholds hlen.symm y
  have hrecords : Trace.records (log ++ [.of kind ts partials y]) = _ :=
    Trace.records_concat hwf.closed hholds
  have hactive : hs.all Handle.isConstant = false →
      (Result.of kind ts partials y).active = true := any_active_of_follows h
  -- Constants only, a full tape, or room: the cases of the recording, not those of the trace.
  rcases Recording.node_cases kind y hlive (h.length_eq.symm.trans hlen.symm) with
    ⟨hall, hrun⟩ | ⟨hall, hfull, hrun⟩ | ⟨hall, hroom, hrun⟩
  · cases hr : (Result.of kind ts partials y).active with
    | false =>
      rw [hr, if_neg Bool.false_ne_true, List.append_nil] at hrecords
      exact ⟨⟨(_, s), hwf', hkeeps.same hrecords⟩, _, _, ⟨List.prefix_append _ _, .refl _⟩, rfl,
        hrun, .ok ⟨rfl, Trace.holds_concat _ _ _,
          by rw [Trace.index_of_inactive hr]; rfl, Tape.live_constant _ _⟩⟩
    | true =>
      -- An active result on constants only: some operand was refused before, so the tape is full.
      have hbound : s.tape.bound < (Trace.records log).length := lt_records_of_follows h hall hr
      rw [hr, if_pos rfl] at hrecords
      exact ⟨⟨(_, s), hwf', hkeeps.beyond hrecords hbound⟩, _, _,
        ⟨List.prefix_append _ _, .refl _⟩, rfl, hrun,
        .ok (.of_refused hr (Nat.le_of_lt hbound) _)⟩
  · rw [hactive hall, if_pos rfl] at hrecords
    have hbound : s.tape.bound ≤ (Trace.records log).length := by
      have hsize := hkeeps.size_eq
      rw [Tape.isFull_iff] at hfull
      omega
    exact ⟨⟨(_, s.refused), hwf', hkeeps.refused hfull hrecords⟩, _, _,
      ⟨List.prefix_append _ _, Recorder.grows_refused s⟩, rfl, hrun,
      .ok (.of_refused (s := s.refused) (hactive hall) hbound _)⟩
  · rw [hactive hall, if_pos rfl] at hrecords
    obtain ⟨hsize, hlt⟩ := hkeeps.room hroom
    have hnodes : hs.map Handle.node = ts.map (Trace.index log) :=
      (map_eq_of_forall₂ h fun _ _ ht =>
        (ht.node_of_le (Nat.le_of_lt (hsize ▸ hlt))).symm).symm
    have hopen := Recorder.open_pushed hkeeps.isOpen hroom kind hlive partials y
    rw [hnodes] at hrun hopen
    have hnode : some s.tape.size = (Trace.index (log ++ [.of kind ts partials y])
        ⟨y, (Result.of kind ts partials y).active, some log.length⟩).filter
          (· < s.tape.bound) := by
      rw [Trace.index_concat (hactive hall), hsize, Option.filter_some, if_pos]
      exact decide_eq_true hlt
    exact ⟨⟨(_, s.pushed kind _ y), hwf', hkeeps.pushed hroom hopen hrecords⟩, _, _,
      ⟨List.prefix_append _ _, Tape.grows_push _ _ _ _⟩, rfl, hrun,
      .ok ⟨rfl, Trace.holds_concat _ _ _, hnode, Tape.live_push _ _ _ _⟩⟩

end Worlds

theorem Simulation.tracingRecording [Arith F] [Functions F] (x : List F) :
    Simulation (tracing (F := F)) recording (Worlds.active F x) Worlds.Follows :=
  .ofNodal nodal_tracing nodal_recording Worlds.stable_follows (fun h => h.value)
    Worlds.follows_constant (fun _ _ => rfl) (fun _ _ => rfl) Worlds.agree_follows_node

end Autodiff
