import Mathlib
import Autodiff.Proofs.Number.Exact
import Autodiff.Proofs.Program.Lockstep
import Autodiff.Proofs.Program.Truncation

set_option autoImplicit false

namespace Autodiff

open Interpretation (recording)
open Recording (begun epoch settle)

variable {F : Type}

def Tape.unlimited (t : Tape F) : Tape F := { t with limit := none }

namespace Tape

theorem pushInputs_withLimit (t : Tape F) (limit : ℕ) (x : List F) :
    (t.withLimit limit).pushInputs x = (t.pushInputs x).withLimit limit := by
  induction x generalizing t with
  | nil => rfl
  | cons value x ih => exact ih (t.push .input [] value)

theorem initial_pushInputs (t : Tape F) (x : List F) : t.Initial (t.pushInputs x) := by
  induction x generalizing t with
  | nil => exact .refl t
  | cons value x ih => exact (initial_push t _ _ _).trans (ih _)

theorem pushInputs_append (t : Tape F) (x y : List F) :
    t.pushInputs (x ++ y) = (t.pushInputs x).pushInputs y := by
  induction x generalizing t with
  | nil => rfl
  | cons value x ih => exact ih _

theorem initial_pushInputs_take (t : Tape F) (x : List F) {j k : ℕ} (hjk : j ≤ k) :
    (t.pushInputs (x.take j)).Initial (t.pushInputs (x.take k)) := by
  have hsplit : x.take k = x.take j ++ (x.take k).drop j := by
    conv_lhs => rw [← List.take_append_drop j (x.take k), List.take_take, Nat.min_eq_left hjk]
  rw [hsplit, pushInputs_append]
  exact initial_pushInputs _ _

theorem bound_unlimited (t : Tape F) : t.unlimited.bound = Handle.noNode.toNat := bound_of_none rfl

theorem bound_withLimit (t : Tape F) (limit : ℕ) :
    (t.withLimit limit).bound = min limit Handle.noNode.toNat := bound_of_some rfl

end Tape

namespace Recording

variable {s : Recorder F} {t : Tape F} {limit : ℕ} {events : List (Event F)} {x : List F}

theorem paired_begun (hx : x.length ≤ (t.withLimit limit).bound) :
    Recorder.Paired limit events (begun ⟨t.unlimited, events⟩ x)
      (begun ⟨t.withLimit limit, events⟩ x) where
  free := by
    refine open_begun (Nat.le_trans hx ?_)
    rw [Tape.bound_unlimited, Tape.bound_withLimit]
    exact Nat.min_le_right _ _
  limited := open_begun hx
  unlimited := limit_begun
  capped := limit_begun
  epoch := by
    rw [epoch_begun, epoch_begun]
    rfl
  same _ := ⟨Tape.pushInputs_withLimit t.unlimited.nextEpoch limit x, rfl, rfl⟩
  cut hex := by
    rw [exhausted_begun] at hex
    cases hex

theorem twins_inputs (hx : x.length ≤ (t.withLimit limit).bound) :
    List.Forall₂ (Worlds.Twins ⟨(begun ⟨t.unlimited, events⟩ x,
      begun ⟨t.withLimit limit, events⟩ x), paired_begun hx⟩)
      (Handle.inputs (t.epoch + 1) 0 x) (Handle.inputs (t.epoch + 1) 0 x) := by
  refine forall₂_begun_begun fun i hi => ⟨rfl, ?_, ?_, fun _ => rfl⟩
  · exact live_inputs (s := ⟨t.unlimited, events⟩) hi _
  · exact live_inputs (s := ⟨t.withLimit limit, events⟩) hi _

variable [Arith F] [Functions F]

theorem grows_runScalar (p : Program F) (hx : x.length ≤ s.tape.bound) :
    ∃ r s', p.runScalar recording (Handle.inputs (s.tape.epoch + 1) 0 x) (begun s x) = (r, s') ∧
      s'.tape.Open ∧ (begun s x).tape.Grows s'.tape ∧ ∀ y, r = .ok y → s'.tape.Live y := by
  obtain ⟨⟨s', hopen⟩, r₁, r, hgrows, -, hrun, hrel⟩ :=
    Simulation.plainRecording.runScalar p (tracks_inputs hx)
  refine ⟨r, s', hrun, hopen, hgrows, fun y hy => ?_⟩
  subst hy
  obtain ⟨_, -, hy⟩ := hrel.ok_right
  exact hy.2

/-- An epoch without limit that ends in `(r, s)` beside the epoch with the limit. -/
structure Beside (limit : ℕ) (number : UInt32) (events : List (Event F))
    (r : Outcome F (Handle F)) (s s' : Recorder F)
    (limited : Outcome F (Handle F) × Recorder F) : Prop where
  paired : s.Paired limit events s'
  epoch : s'.tape.epoch = number
  live : ∀ y, r = .ok y → s.tape.Live y
  full : s.tape.exhausted = true → r = .error (.error (.exhausted Handle.noNode.toNat))
  same : s'.tape.exhausted = false → limited = (r, s')
  cut : s'.tape.exhausted = true → limited = (.error (.error (.exhausted limit)), s')

section

variable {number : UInt32} {s' : Recorder F} {r : Outcome F (Handle F)}
variable {limited : Outcome F (Handle F) × Recorder F}

omit [Arith F] [Functions F] in
/-- Where the limit does not bite, the two epochs end alike. -/
theorem Beside.within (h : Beside limit number events r s s' limited)
    (hsize : s.tape.size ≤ limit) (hroom : s.tape.exhausted = false) :
    limited = (r, ⟨s.tape.withLimit limit, s.events⟩) ∧ s.events = events := by
  have hex : s'.tape.exhausted = false := by
    cases hex : s'.tape.exhausted with
    | false => rfl
    | true =>
      obtain hmore | hspent := (h.paired.cut hex).2.1
      · exact absurd hsize (Nat.not_le.mpr hmore)
      · exact hspent.symm.trans hroom
  obtain ⟨htape, hevents, hevents'⟩ := h.paired.same hex
  have hs' : s' = ⟨s.tape.withLimit limit, s.events⟩ := by
    rw [← htape, hevents, ← hevents']
  rw [h.same hex, ← hs']
  exact ⟨rfl, hevents⟩

omit [Arith F] [Functions F] in
/-- Where it bites, the limited tape holds the first nodes of the other one. -/
theorem Beside.beyond (h : Beside limit number events r s s' limited)
    (hsize : limit < s.tape.size) :
    s'.tape.exhausted = true ∧ s'.tape.Initial s.tape ∧ s'.tape.size = limit := by
  have hfree : s.tape.size ≤ Handle.noNode.toNat := by
    rw [← Tape.bound_of_none h.paired.unlimited]
    exact h.paired.free.fits
  have hbound : s'.tape.bound = min limit Handle.noNode.toNat := Tape.bound_of_some h.paired.capped
  have hex : s'.tape.exhausted = true := by
    cases hex : s'.tape.exhausted with
    | true => rfl
    | false =>
      have hsame := h.paired.size_eq hex
      have hfits := h.paired.limited.fits
      omega
  refine ⟨hex, (h.paired.cut hex).1, ?_⟩
  rw [h.paired.limited.full hex, hbound]
  omega

end

omit [Arith F] [Functions F] in
theorem capacity_of_exhausted (hopen : s.tape.Open) (hlimit : s.tape.limit = none)
    (hex : s.tape.exhausted = true) : s.tape.capacity = Handle.noNode.toNat := by
  rw [Tape.capacity_of_none hlimit, hopen.full hex, Tape.bound_of_none hlimit]

omit [Arith F] [Functions F] in
theorem settled_free {r : Outcome F (Handle F)} (hopen : s.tape.Open) (hlimit : s.tape.limit = none)
    (hlive : ∀ y, r = .ok y → s.tape.Live y)
    (hfault : ∀ cause, (settle (r, s)).1 ≠ .error (.fault cause)) :
    (∀ y, (settle (r, s)).1 = .ok y → s.tape.Live y) ∧
      (s.tape.exhausted = true →
        (settle (r, s)).1 = .error (.error (.exhausted Handle.noNode.toNat))) := by
  cases hex : s.tape.exhausted with
  | false =>
    rw [settle_of_room hex]
    exact ⟨hlive, fun h => by cases h⟩
  | true =>
    have hr : ∀ cause, r ≠ .error (.fault cause) := by
      rintro cause rfl
      exact hfault cause rfl
    rw [settle_of_exhausted hex hr, capacity_of_exhausted hopen hlimit hex]
    exact ⟨fun y hy => (by cases hy), fun _ => rfl⟩

theorem beside_of_le (p : Program F) (hx : x.length ≤ (t.withLimit limit).bound)
    (hfault : ∀ cause, (epoch (p.runScalar recording) x ⟨t.unlimited, events⟩).1 ≠
      .error (.fault cause)) :
    ∃ r s s', epoch (p.runScalar recording) x ⟨t.unlimited, events⟩ = (r, s) ∧
      Beside limit (t.epoch + 1) events r s s'
        (epoch (p.runScalar recording) x ⟨t.withLimit limit, events⟩) := by
  have hx' : x.length ≤ t.unlimited.bound := by
    rw [Tape.bound_unlimited]
    rw [Tape.bound_withLimit] at hx
    omega
  obtain ⟨⟨⟨s, s'⟩, hw⟩, r, r', hle, hrun, hrun', hrel⟩ :=
    (Simulation.limited limit events).runScalar p (twins_inputs hx)
  have hfree : epoch (p.runScalar recording) x ⟨t.unlimited, events⟩ = settle (r, s) :=
    (epoch_room hx').trans (congrArg settle hrun)
  have hlimited : epoch (p.runScalar recording) x ⟨t.withLimit limit, events⟩ = settle (r', s') :=
    (epoch_room hx).trans (congrArg settle hrun')
  rw [hfree] at hfault ⊢
  rw [hlimited]
  -- Both runs are over; what is left is how their epochs settle.
  have hlive : ∀ y, r = .ok y → s.tape.Live y := by
    rintro y rfl
    obtain ⟨_, -, hy⟩ := hrel.ok_left
    exact hy.live
  obtain ⟨hlive', hfull⟩ := settled_free hw.free hw.unlimited hlive hfault
  refine ⟨_, s, s', Prod.ext rfl (snd_settle r s), hw, hle.2.epoch.trans epoch_begun, hlive', hfull,
    fun hex => ?_, fun hex => ?_⟩
  · have hsame : r' = r := by
      cases hrel with
      | ok h => rw [h.eq hex]
      | error e => rfl
    rw [settle_of_room hex, settle_of_room (hw.exhausted_free hex), hsame]
  · rw [settle_of_exhausted hex, Tape.capacity_of_some hw.capped]
    rintro cause rfl
    cases hrel with
    | error => exact hfault cause rfl

section

variable (hx : (t.withLimit limit).bound < x.length)

def overfull (t : Tape F) (limit : ℕ) (events : List (Event F)) (x : List F) : Recorder F :=
  (begun ⟨t.withLimit limit, events⟩ (x.take (t.withLimit limit).bound)).refused

omit [Arith F] [Functions F] in
theorem capacity_overfull : (overfull t limit events x).tape.capacity = limit :=
  Tape.capacity_of_some limit_begun

omit [Arith F] [Functions F] in
theorem events_overfull :
    (overfull t limit events x).events =
      events ++ [.exhausted limit (overfull t limit events x).tape.epoch] := by
  have hevents : (overfull t limit events x).events =
      events ++ [.exhausted (overfull t limit events x).tape.capacity
        (overfull t limit events x).tape.epoch] :=
    if_neg (Bool.eq_false_iff.mp exhausted_begun)
  rw [hevents, capacity_overfull]

include hx

omit [Arith F] [Functions F] in
theorem paired_overfull (hopen : s.tape.Open) (hlimit : s.tape.limit = none)
    (hepoch : s.tape.epoch = t.epoch + 1)
    (hinit : (begun ⟨t.unlimited, events⟩ (x.take (t.withLimit limit).bound)).tape.Initial s.tape)
    (hmore : limit < s.tape.size ∨ s.tape.exhausted = true) :
    Recorder.Paired limit events s (overfull t limit events x) where
  free := hopen
  limited := open_refused_begun hx
  unlimited := hlimit
  capped := limit_begun
  epoch := epoch_begun.trans hepoch.symm
  same hex := by cases hex
  cut _ := by
    have htape : (begun ⟨t.withLimit limit, events⟩ (x.take (t.withLimit limit).bound)).tape =
        (begun ⟨t.unlimited, events⟩ (x.take (t.withLimit limit).bound)).tape.withLimit limit :=
      Tape.pushInputs_withLimit t.unlimited.nextEpoch limit _
    refine ⟨?_, hmore, events_overfull⟩
    change Tape.Initial { (begun ⟨t.withLimit limit, events⟩ _).tape with exhausted := true } _
    rw [htape]
    exact ⟨hinit.nodes, hinit.operands, hinit.partials⟩

theorem beside_of_lt (p : Program F)
    (hfault : ∀ cause, (epoch (p.runScalar recording) x ⟨t.unlimited, events⟩).1 ≠
      .error (.fault cause)) :
    ∃ r s s', epoch (p.runScalar recording) x ⟨t.unlimited, events⟩ = (r, s) ∧
      Beside limit (t.epoch + 1) events r s s'
        (epoch (p.runScalar recording) x ⟨t.withLimit limit, events⟩) := by
  have hlimited : epoch (p.runScalar recording) x ⟨t.withLimit limit, events⟩ =
      (.error (.error (.exhausted limit)), overfull t limit events x) := by
    rw [epoch_full hx]
    exact congrArg (fun c => (Except.error (Failure.error (EvalError.exhausted c)), _))
      capacity_overfull
  have hbound : (t.withLimit limit).bound = min limit Handle.noNode.toNat := t.bound_withLimit limit
  rw [hlimited]
  -- The limited epoch has ended. The other one goes on, unless its inputs are too many as well.
  by_cases hroom : x.length ≤ t.unlimited.bound
  · obtain ⟨r, s, hrun, hopen, hgrows, hlive⟩ :=
      grows_runScalar (s := ⟨t.unlimited, events⟩) p hroom
    have hfree : epoch (p.runScalar recording) x ⟨t.unlimited, events⟩ = settle (r, s) :=
      (epoch_room hroom).trans (congrArg settle hrun)
    rw [hfree] at hfault ⊢
    have hlimit : s.tape.limit = none := hgrows.limit.trans limit_begun
    have hmore : limit < s.tape.size := by
      have hsize := hgrows.size_le
      rw [size_begun] at hsize
      rw [Tape.bound_unlimited] at hroom
      omega
    obtain ⟨hlive', hfull⟩ := settled_free hopen hlimit hlive hfault
    refine ⟨_, s, _, Prod.ext rfl (snd_settle r s), paired_overfull hx hopen hlimit
      (hgrows.epoch.trans epoch_begun) ?_ (.inl hmore), epoch_begun, hlive', hfull,
      fun hex => ?_, fun _ => rfl⟩
    · refine Tape.Initial.trans ?_ hgrows.toInitial
      have htake := Tape.initial_pushInputs_take t.unlimited.nextEpoch x (Nat.le_of_lt hx)
      rw [List.take_length] at htake
      exact htake
    · cases hex
  · have hfull : t.unlimited.bound < x.length := Nat.lt_of_not_le hroom
    have hopen := open_refused_begun (s := ⟨t.unlimited, events⟩) hfull
    have hcapacity := capacity_of_exhausted hopen limit_begun rfl
    have htake := Tape.initial_pushInputs_take t.unlimited.nextEpoch x
      (j := (t.withLimit limit).bound) (k := t.unlimited.bound) (by
        rw [Tape.bound_unlimited]
        omega)
    refine ⟨_, _, _, epoch_full hfull, paired_overfull hx hopen limit_begun epoch_begun
      ⟨htake.nodes, htake.operands, htake.partials⟩ (.inr rfl), epoch_begun, fun y hy => ?_,
      fun _ => ?_, fun hex => ?_, fun _ => rfl⟩
    · cases hy
    · exact congrArg (fun c => Except.error (Failure.error (EvalError.exhausted c))) hcapacity
    · cases hex

end

theorem epoch_beside (limit : ℕ) (p : Program F)
    (hfault : ∀ cause, (epoch (p.runScalar recording) x ⟨t.unlimited, events⟩).1 ≠
      .error (.fault cause)) :
    ∃ r s s', epoch (p.runScalar recording) x ⟨t.unlimited, events⟩ = (r, s) ∧
      Beside limit (t.epoch + 1) events r s s'
        (epoch (p.runScalar recording) x ⟨t.withLimit limit, events⟩) := by
  by_cases hx : x.length ≤ (t.withLimit limit).bound
  · exact beside_of_le p hx hfault
  · exact beside_of_lt (Nat.lt_of_not_le hx) p hfault

def finish (n : ℕ) : Outcome F (Handle F) × Recorder F → Outcome F (F × List F) × Recorder F
  | (.ok y, s) => (backward y >>= fun adjoints => pure (y.value, adjoints.take n)) s
  | (.error e, s) => (.error e, s)

theorem recordGradient_eq_finish (p : Program F) (x : List F) (s : Recorder F) :
    p.recordGradient x s = finish x.length (epoch (p.runScalar recording) x s) := by
  unfold Program.recordGradient valueGradient
  rw [run_bind]
  rcases epoch (p.runScalar recording) x s with ⟨r, s'⟩
  cases r <;> rfl

theorem finish_ok {n : ℕ} {y : Handle F} (hlive : s.tape.Live y) :
    finish n (.ok y, s) =
      (.ok (y.value, (s.tape.adjointsFrom [(y, 1)]).toList.take n), s.swept [(y, 1)]) :=
  backwardFrom_take (List.forall_mem_singleton.mpr hlive) y.value n

theorem snd_finish {n : ℕ} {r : Outcome F (Handle F)} (hlive : ∀ y, r = .ok y → s.tape.Live y) :
    ∃ adjoints, (finish n (r, s)).2 = ⟨{ s.tape with adjoints := adjoints }, s.events⟩ := by
  cases r with
  | ok y =>
    rw [finish_ok (hlive y rfl)]
    exact ⟨_, rfl⟩
  | error e => exact ⟨s.tape.adjoints, rfl⟩

theorem finish_withLimit {n : ℕ} {r : Outcome F (Handle F)}
    (hlive : ∀ y, r = .ok y → s.tape.Live y) :
    finish n (r, ⟨s.tape.withLimit limit, s.events⟩) =
      ((finish n (r, s)).1,
        ⟨(finish n (r, s)).2.tape.withLimit limit, (finish n (r, s)).2.events⟩) := by
  cases r with
  | ok y =>
    have hlive' : (s.tape.withLimit limit).Live y := hlive y rfl
    rw [finish_ok (hlive y rfl), finish_ok (s := ⟨s.tape.withLimit limit, s.events⟩) hlive']
    rfl
  | error e => rfl

end Recording

/-- The gradient `free` on a tape without limit beside the gradient `limited` on a tape with a
limit, both in the given epoch and after the given events. Node numbers end at `noNode`, so a tape
without limit may be exhausted too; then the two name their own capacity. -/
structure LimitTransparent (limit : ℕ) (epoch : UInt32) (events : List (Event F))
    (free limited : Outcome F (F × List F) × Recorder F) : Prop where
  within : free.2.tape.size ≤ limit → free.2.tape.exhausted = false →
    limited = (free.1, ⟨free.2.tape.withLimit limit, events⟩) ∧ free.2.events = events
  beyond : limit < free.2.tape.size →
    limited.1 = .error (.error (.exhausted limit)) ∧ limited.2.tape.size = limit ∧
      limited.2.tape.Initial free.2.tape ∧ limited.2.tape.adjoints = #[] ∧
      limited.2.tape.exhausted = true ∧ limited.2.events = events ++ [.exhausted limit epoch]
  spent : free.2.tape.exhausted = true →
    free.1 = .error (.error (.exhausted Handle.noNode.toNat)) ∧
      free.2.tape.size = Handle.noNode.toNat ∧
      (Handle.noNode.toNat ≤ limit → limited.1 = .error (.error (.exhausted limit)))

/-- A node limit is not felt until it bites, and then the evaluation fails as a whole. -/
theorem limit_transparent [Arith F] [Functions F] (p : Program F) (x : List F) (t : Tape F)
    (limit : ℕ) (events : List (Event F))
    (hfault : ∀ cause, (p.recordGradient x ⟨t.unlimited, events⟩).1 ≠ .error (.fault cause)) :
    LimitTransparent limit (t.epoch + 1) events (p.recordGradient x ⟨t.unlimited, events⟩)
      (p.recordGradient x ⟨t.withLimit limit, events⟩) := by
  rw [Recording.recordGradient_eq_finish] at hfault
  rw [Recording.recordGradient_eq_finish, Recording.recordGradient_eq_finish]
  have hfault' : ∀ cause, (epoch (p.runScalar recording) x ⟨t.unlimited, events⟩).1 ≠
      .error (.fault cause) := by
    intro cause h
    rcases hrun : epoch (p.runScalar recording) x ⟨t.unlimited, events⟩ with ⟨r, s⟩
    rw [hrun] at h hfault
    obtain rfl : r = .error (.fault cause) := h
    exact hfault cause rfl
  obtain ⟨r, s, s', hrun, hbeside⟩ := Recording.epoch_beside limit p hfault'
  obtain ⟨adjoints, hfinish⟩ := Recording.snd_finish (n := x.length) hbeside.live
  rw [hrun]
  refine ⟨fun hsize hroom => ?_, fun hsize => ?_, fun hex => ?_⟩
  · rw [hfinish] at hsize hroom
    obtain ⟨hlimited, hevents⟩ := hbeside.within hsize hroom
    rw [hlimited, Recording.finish_withLimit hbeside.live, hfinish, ← hevents]
    exact ⟨rfl, rfl⟩
  · rw [hfinish] at hsize
    obtain ⟨hex, hinit, hsize'⟩ := hbeside.beyond hsize
    rw [hbeside.cut hex, hfinish]
    refine ⟨rfl, hsize', ⟨hinit.nodes, hinit.operands, hinit.partials⟩,
      hbeside.paired.limited.unswept, hex, ?_⟩
    rw [← hbeside.epoch]
    exact (hbeside.paired.cut hex).2.2
  · rw [hfinish] at hex
    change s.tape.exhausted = true at hex
    have hsize : s.tape.size = Handle.noNode.toNat := by
      rw [hbeside.paired.free.full hex, Tape.bound_of_none hbeside.paired.unlimited]
    rw [hfinish, hbeside.full hex]
    refine ⟨rfl, hsize, fun _ => ?_⟩
    have hex' : s'.tape.exhausted = true := by
      cases hex' : s'.tape.exhausted with
      | true => rfl
      | false => exact (hbeside.paired.exhausted_free hex').symm.trans hex
    rw [hbeside.cut hex']
    rfl

def sumProgram : Program ℚ where
  steps := [.add 0 1]

theorem limit_transparent_sumProgram :
    (∀ cause, (sumProgram.recordGradient [2, 3] ⟨Tape.empty.unlimited, []⟩).1 ≠
      .error (.fault cause)) ∧
    LimitTransparent 2 1 [] (sumProgram.recordGradient [2, 3] ⟨Tape.empty.unlimited, []⟩)
      (sumProgram.recordGradient [2, 3] ⟨Tape.empty.withLimit 2, []⟩) := by
  have hfault : ∀ cause, (sumProgram.recordGradient [2, 3] ⟨Tape.empty.unlimited, []⟩).1 ≠
      .error (.fault cause) := by
    intro cause h
    cases h
  exact ⟨hfault, limit_transparent sumProgram [2, 3] .empty 2 [] hfault⟩

end Autodiff
