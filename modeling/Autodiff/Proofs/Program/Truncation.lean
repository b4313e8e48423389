import Autodiff.Proofs.Program.Mirror
import Autodiff.Proofs.Program.Nodal

set_option autoImplicit false

namespace Autodiff

open Interpretation (recording)

variable {F : Type}

def Tape.withLimit (t : Tape F) (limit : ℕ) : Tape F := { t with limit := some limit }

namespace Recorder

/-- Two recorders in the middle of an epoch that began with the given events. -/
structure Paired (limit : ℕ) (events : List (Event F)) (s s' : Recorder F) : Prop where
  free : s.tape.Open
  limited : s'.tape.Open
  unlimited : s.tape.limit = none
  capped : s'.tape.limit = some limit
  epoch : s'.tape.epoch = s.tape.epoch
  same : s'.tape.exhausted = false →
    s'.tape = s.tape.withLimit limit ∧ s.events = events ∧ s'.events = events
  cut : s'.tape.exhausted = true →
    s'.tape.Initial s.tape ∧ (limit < s.tape.size ∨ s.tape.exhausted = true) ∧
      s'.events = events ++ [.exhausted limit s'.tape.epoch]

variable {limit : ℕ} {events : List (Event F)} {s s' : Recorder F}

theorem Paired.exhausted_free (h : Paired limit events s s') (hex : s'.tape.exhausted = false) :
    s.tape.exhausted = false := by
  have htape : s'.tape = s.tape.withLimit limit := (h.same hex).1
  rw [htape] at hex
  exact hex

theorem Paired.isFull_limited (h : Paired limit events s s') (hex : s'.tape.exhausted = true) :
    s'.tape.isFull = true :=
  (Tape.isFull_iff _).mpr (Nat.le_of_eq (h.limited.full hex).symm)

theorem Paired.size_eq (h : Paired limit events s s') (hex : s'.tape.exhausted = false) :
    s'.tape.size = s.tape.size := by
  rw [(h.same hex).1]
  rfl

theorem Paired.isFull_of_free (h : Paired limit events s s') (hex : s'.tape.exhausted = false)
    (hfull : s.tape.isFull = true) : s'.tape.isFull = true := by
  rw [Tape.isFull_iff, Tape.bound_of_none h.unlimited] at hfull
  rw [Tape.isFull_iff, Tape.bound_of_some h.capped, h.size_eq hex]
  omega

theorem Paired.free_refused (h : Paired limit events s s') (hex : s'.tape.exhausted = true)
    (hfull : s.tape.isFull = true) : Paired limit events s.refused s' where
  free := open_refused h.free hfull
  limited := h.limited
  unlimited := h.unlimited
  capped := h.capped
  epoch := h.epoch
  same hex' := absurd hex (by simp [hex'])
  cut _ := by
    obtain ⟨hinit, -, hevents⟩ := h.cut hex
    exact ⟨hinit.trans (grows_refused s).toInitial, .inr rfl, hevents⟩

theorem Paired.free_pushed (h : Paired limit events s s') (hex : s'.tape.exhausted = true)
    {kind : NodeKind} {es : List (ℕ × F)} {value : F} (hopen : (s.pushed kind es value).tape.Open) :
    Paired limit events (s.pushed kind es value) s' where
  free := hopen
  limited := h.limited
  unlimited := h.unlimited
  capped := h.capped
  epoch := h.epoch
  same hex' := absurd hex (by simp [hex'])
  cut _ := by
    obtain ⟨hinit, hmore, hevents⟩ := h.cut hex
    refine ⟨hinit.trans (Tape.initial_push _ _ _ _), hmore.imp_left fun hlt => ?_, hevents⟩
    exact Nat.lt_of_lt_of_le hlt (Tape.initial_push _ _ _ _).size_le

theorem Paired.events_refused (h : Paired limit events s s') (hex : s'.tape.exhausted = false) :
    s'.refused.events = events ++ [.exhausted limit s'.tape.epoch] := by
  rw [← (h.same hex).2.2, ← Tape.capacity_of_some h.capped]
  simp [refused, hex]

theorem Paired.initial (h : Paired limit events s s') (hex : s'.tape.exhausted = false) :
    s'.tape.Initial s.tape := by
  rw [(h.same hex).1]
  exact ⟨List.prefix_refl _, List.prefix_refl _, List.prefix_refl _⟩

theorem Paired.both_refused (h : Paired limit events s s') (hex : s'.tape.exhausted = false)
    (hfull : s.tape.isFull = true) (hfull' : s'.tape.isFull = true) :
    Paired limit events s.refused s'.refused where
  free := open_refused h.free hfull
  limited := open_refused h.limited hfull'
  unlimited := h.unlimited
  capped := h.capped
  epoch := h.epoch
  same hex' := by cases hex'
  cut _ := by
    have hinit := h.initial hex
    exact ⟨⟨hinit.nodes, hinit.operands, hinit.partials⟩, .inr rfl, h.events_refused hex⟩

theorem Paired.limited_refused (h : Paired limit events s s') (hex : s'.tape.exhausted = false)
    {kind : NodeKind} {es : List (ℕ × F)} {value : F} (hopen : (s.pushed kind es value).tape.Open)
    (hroom : s.tape.isFull = false) (hfull : s'.tape.isFull = true) :
    Paired limit events (s.pushed kind es value) s'.refused where
  free := hopen
  limited := open_refused h.limited hfull
  unlimited := h.unlimited
  capped := h.capped
  epoch := h.epoch
  same hex' := by cases hex'
  cut _ := by
    have hinit := (h.initial hex).trans (Tape.initial_push s.tape kind es value)
    refine ⟨⟨hinit.nodes, hinit.operands, hinit.partials⟩, .inl ?_, h.events_refused hex⟩
    have hlimit : limit ≤ s.tape.size := by
      rw [Tape.isFull_iff, Tape.bound_of_some h.capped, h.size_eq hex] at hfull
      rw [← Bool.not_eq_true, Tape.isFull_iff, Tape.bound_of_none h.unlimited] at hroom
      omega
    change limit < (s.tape.push kind es value).size
    rw [Tape.size_push]
    exact Nat.lt_succ_of_le hlimit

theorem Paired.both_pushed (h : Paired limit events s s') (hex : s'.tape.exhausted = false)
    {kind : NodeKind} {es : List (ℕ × F)} {value : F} (hopen : (s.pushed kind es value).tape.Open)
    (hopen' : (s'.pushed kind es value).tape.Open) :
    Paired limit events (s.pushed kind es value) (s'.pushed kind es value) where
  free := hopen
  limited := hopen'
  unlimited := h.unlimited
  capped := h.capped
  epoch := h.epoch
  same _ := by
    obtain ⟨htape, hevents, hevents'⟩ := h.same hex
    refine ⟨?_, hevents, hevents'⟩
    change s'.tape.push kind es value = (s.tape.push kind es value).withLimit limit
    rw [htape]
    rfl
  cut hex' := by
    change s'.tape.exhausted = true at hex'
    rw [hex] at hex'
    cases hex'

end Recorder

namespace Worlds

def limited (F : Type) (limit : ℕ) (events : List (Event F)) :
    Worlds (Recorder F) (Recorder F) where
  World := {w : Recorder F × Recorder F // w.1.Paired limit events w.2}
  order :=
    { le := fun w w' => w.1.1.tape.Grows w'.1.1.tape ∧ w.1.2.tape.Grows w'.1.2.tape
      le_refl := fun w => ⟨.refl w.1.1.tape, .refl w.1.2.tape⟩
      le_trans := fun _ _ _ h h' => ⟨h.1.trans h'.1, h.2.trans h'.2⟩ }
  left w := w.1.1
  right w := w.1.2

variable {limit : ℕ} {events : List (Event F)}

/-- Live handles with one value, and the same handle as long as nothing was refused. -/
structure Twins (w : (limited F limit events).World) (x y : Handle F) : Prop where
  value : x.value = y.value
  live : w.1.1.tape.Live x
  live' : w.1.2.tape.Live y
  eq : w.1.2.tape.exhausted = false → x = y

theorem stable_twins : Stable (V := limited F limit events) Twins := by
  intro w w' x y hle h
  exact ⟨h.value, hle.1.live h.live, hle.2.live h.live', fun hex => h.eq (hle.2.unspent hex)⟩

theorem twins_constant (w : (limited F limit events).World) (c : F) :
    Twins w (Handle.constant c) (Handle.constant c) :=
  ⟨rfl, Tape.live_constant _ _, Tape.live_constant _ _, fun _ => rfl⟩

theorem eq_of_twins {w : (limited F limit events).World} {xs ys : List (Handle F)}
    (h : List.Forall₂ (Twins w) xs ys) (hex : w.1.2.tape.exhausted = false) : xs = ys := by
  rw [← List.forall₂_eq_eq_eq]
  exact h.imp fun _ _ hxy => hxy.eq hex

/-- Once the limited tape has refused, it makes constants. -/
theorem node_of_cut {s s' : Recorder F} (hw : s.Paired limit events s')
    (hex : s'.tape.exhausted = true) {ys : List (Handle F)} (hlive : ∀ x ∈ ys, s'.tape.Live x)
    {partials : List F} (hlen : ys.length = partials.length) (kind : NodeKind) (y : F) :
    Recording.node kind ys partials y s' = (.ok (.constant y), s') := by
  rcases Recording.node_cases kind y hlive hlen with
    ⟨-, hrun⟩ | ⟨-, -, hrun⟩ | ⟨-, hroom, -⟩
  · exact hrun
  · rw [hrun, Recorder.refused_of_exhausted hex]
  · rw [hw.isFull_limited hex] at hroom
    cases hroom

theorem agree_node_of_cut {w : (limited F limit events).World} (hex : w.1.2.tape.exhausted = true)
    {xs ys : List (Handle F)} (kind : NodeKind) (partials : List F) (y : F)
    (h : List.Forall₂ (Twins w) xs ys) (hlen : partials.length = xs.length) :
    (limited F limit events).Agree Twins w (Recording.node kind xs partials y)
      (Recording.node kind ys partials y) := by
  obtain ⟨⟨s, s'⟩, hw⟩ := w
  have hlive : ∀ x ∈ xs, s.tape.Live x := forall_left_of_forall₂ h fun _ _ hxy => hxy.live
  have hlive' : ∀ x ∈ ys, s'.tape.Live x := forall_right_of_forall₂ h fun _ _ hxy => hxy.live'
  have hright := node_of_cut hw hex hlive' (h.length_eq.symm.trans hlen.symm) kind y
  have hne : ∀ {x z : Handle F}, s'.tape.exhausted = false → x = z := fun hex' =>
    absurd hex (by simp [hex'])
  rcases Recording.node_cases kind y hlive hlen.symm with
    ⟨-, hrun⟩ | ⟨-, hfull, hrun⟩ | ⟨-, hroom, hrun⟩
  · exact ⟨⟨(s, s'), hw⟩, _, _, le_refl _, hrun, hright,
      .ok ⟨rfl, Tape.live_constant _ _, Tape.live_constant _ _, hne⟩⟩
  · exact ⟨⟨(s.refused, s'), hw.free_refused hex hfull⟩, _, _,
      ⟨Recorder.grows_refused s, .refl _⟩, hrun, hright,
      .ok ⟨rfl, Tape.live_constant _ _, Tape.live_constant _ _, hne⟩⟩
  · have hopen := Recorder.open_pushed hw.free hroom kind hlive partials y
    exact ⟨⟨(s.pushed kind _ y, s'), hw.free_pushed hex hopen⟩, _, _,
      ⟨Tape.grows_push _ _ _ _, .refl _⟩, hrun, hright,
      .ok ⟨rfl, Tape.live_push _ _ _ _, Tape.live_constant _ _, hne⟩⟩

theorem agree_node_of_same {w : (limited F limit events).World}
    (hex : w.1.2.tape.exhausted = false) {xs : List (Handle F)} (kind : NodeKind)
    (partials : List F) (y : F) (hlive : ∀ x ∈ xs, w.1.1.tape.Live x)
    (hlive' : ∀ x ∈ xs, w.1.2.tape.Live x) (hlen : xs.length = partials.length) :
    (limited F limit events).Agree Twins w (Recording.node kind xs partials y)
      (Recording.node kind xs partials y) := by
  obtain ⟨⟨s, s'⟩, hw⟩ := w
  have htape : s'.tape = s.tape.withLimit limit := (hw.same hex).1
  -- The tapes differ in their limit alone, so of the nine cases only four can occur.
  rcases Recording.node_cases kind y hlive hlen with
    ⟨hall, hrun⟩ | ⟨hall, hfull, hrun⟩ | ⟨hall, hroom, hrun⟩
  · rcases Recording.node_cases kind y hlive' hlen with
      ⟨-, hrun'⟩ | ⟨hall', -⟩ | ⟨hall', -⟩
    · exact ⟨⟨(s, s'), hw⟩, _, _, le_refl _, hrun, hrun',
        .ok ⟨rfl, Tape.live_constant _ _, Tape.live_constant _ _, fun _ => rfl⟩⟩
    · exact nomatch (hall.symm.trans hall')
    · exact nomatch (hall.symm.trans hall')
  · rcases Recording.node_cases kind y hlive' hlen with
      ⟨hall', -⟩ | ⟨-, hfull', hrun'⟩ | ⟨-, hroom', -⟩
    · exact nomatch (hall'.symm.trans hall)
    · exact ⟨⟨(s.refused, s'.refused), hw.both_refused hex hfull hfull'⟩, _, _,
        ⟨Recorder.grows_refused s, Recorder.grows_refused s'⟩, hrun, hrun',
        .ok ⟨rfl, Tape.live_constant _ _, Tape.live_constant _ _, fun _ => rfl⟩⟩
    · exact nomatch ((hw.isFull_of_free hex hfull).symm.trans hroom')
  · have hopen := Recorder.open_pushed hw.free hroom kind hlive partials y
    rcases Recording.node_cases kind y hlive' hlen with
      ⟨hall', -⟩ | ⟨-, hfull', hrun'⟩ | ⟨-, hroom', hrun'⟩
    · exact nomatch (hall'.symm.trans hall)
    · exact ⟨⟨(s.pushed kind _ y, s'.refused), hw.limited_refused hex hopen hroom hfull'⟩, _, _,
        ⟨Tape.grows_push _ _ _ _, Recorder.grows_refused s'⟩, hrun, hrun',
        .ok ⟨rfl, Tape.live_push _ _ _ _, Tape.live_constant _ _, fun hex' => by cases hex'⟩⟩
    · have hopen' := Recorder.open_pushed hw.limited hroom' kind hlive' partials y
      refine ⟨⟨(s.pushed kind _ y, s'.pushed kind _ y), hw.both_pushed hex hopen hopen'⟩, _, _,
        ⟨Tape.grows_push _ _ _ _, Tape.grows_push _ _ _ _⟩, hrun, hrun',
        .ok ⟨rfl, Tape.live_push _ _ _ _, Tape.live_push _ _ _ _, fun _ => ?_⟩⟩
      rw [htape]
      rfl

theorem agree_twins_node {w : (limited F limit events).World} {xs ys : List (Handle F)}
    (kind : NodeKind) (partials : List F) (y : F) (h : List.Forall₂ (Twins w) xs ys)
    (hlen : partials.length = xs.length) :
    (limited F limit events).Agree Twins w (Recording.node kind xs partials y)
      (Recording.node kind ys partials y) := by
  cases hex : w.1.2.tape.exhausted with
  | true => exact agree_node_of_cut hex kind partials y h hlen
  | false =>
    have hlive : ∀ x ∈ xs, w.1.1.tape.Live x :=
      forall_left_of_forall₂ h fun _ _ hxy => hxy.live
    have hlive' : ∀ x ∈ ys, w.1.2.tape.Live x :=
      forall_right_of_forall₂ h fun _ _ hxy => hxy.live'
    obtain rfl : xs = ys := eq_of_twins h hex
    exact agree_node_of_same hex kind partials y hlive hlive' hlen.symm

end Worlds

theorem Simulation.limited [Arith F] [Functions F] (limit : ℕ) (events : List (Event F)) :
    Simulation (recording (F := F)) recording (Worlds.limited F limit events) Worlds.Twins :=
  .ofNodal nodal_recording nodal_recording Worlds.stable_twins (fun h => h.value)
    Worlds.twins_constant (fun _ _ => rfl) (fun _ _ => rfl) Worlds.agree_twins_node

end Autodiff
