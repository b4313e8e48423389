import Autodiff.Proofs.Program.Worlds
import Autodiff.Proofs.Tape.Growth
import Autodiff.Proofs.Tape.Sweep

set_option autoImplicit false

namespace Autodiff

variable {F α β γ δ : Type}

structure Recorder.Spent (t : Tape F) (s : Recorder F) : Prop where
  exhausted : s.tape.exhausted = true
  limit : s.tape.limit = t.limit
  size : s.tape.size = t.bound

/-- Unless a recording was refused, the results are related or the failures are the same. -/
inductive Recording.Mirrors (R : Recorder F → α → β → Prop) (t : Tape F) (r : Outcome F α) :
    Outcome F β × Recorder F → Prop where
  | same {s : Recorder F} {r' : Outcome F β} (hex : s.tape.exhausted = false)
      (h : Outcome.Rel (R s) r r') : Mirrors R t r (r', s)
  | refused {s : Recorder F} (hs : s.Spent t) :
      Mirrors R t r (.error (.error (.exhausted s.tape.capacity)), s)
  | fault {s : Recorder F} {cause : Fault} (hs : s.Spent t) (h : r = .error (.fault cause)) :
      Mirrors R t r (.error (.fault cause), s)

structure Worlds.Recorded (V : Worlds Unit (Recorder F)) : Prop where
  isOpen : ∀ w, (V.right w).tape.Open
  grows : ∀ {w w'}, w ≤ w' → (V.right w).tape.Grows (V.right w').tape

namespace Recording

variable {R : Recorder F → α → β → Prop} {Q : Recorder F → γ → δ → Prop} {t : Tape F}
variable {s : Recorder F}

theorem Mirrors.mono {R' : Recorder F → α → β → Prop} {r : Outcome F α}
    {x : Outcome F β × Recorder F} (h : Mirrors R t r x)
    (hR : ∀ s a b, s.tape.exhausted = false → R s a b → R' s a b) : Mirrors R' t r x := by
  cases h with
  | same hex h => exact .same hex (h.mono fun a b => hR _ a b hex)
  | refused hs => exact .refused hs
  | fault hs h => exact .fault hs h

theorem Mirrors.and_state {P : Recorder F → Prop} {r : Outcome F α} {x : Outcome F β × Recorder F}
    (h : Mirrors R t r x) (hP : P x.2) : Mirrors (fun s a b => P s ∧ R s a b) t r x := by
  cases h with
  | same hex h => exact .same hex (h.mono fun _ _ hab => ⟨hP, hab⟩)
  | refused hs => exact .refused hs
  | fault hs h => exact .fault hs h

theorem Mirrors.bind {r : Outcome F α} {x : Recording F β} {g : α → Outcome F γ}
    {f : β → Recording F δ} (h : Mirrors R t r (x s))
    (hf : ∀ s' a b, s'.tape.exhausted = false → R s' a b → Mirrors Q t (g a) (f b s')) :
    Mirrors Q t (r >>= g) ((x >>= f) s) := by
  rw [run_bind]
  rcases hx : x s with ⟨r', s'⟩
  rw [hx] at h
  cases h with
  | same hex h =>
    cases h with
    | ok h => exact hf _ _ _ hex h
    | error e => exact .same hex (.error e)
  | refused hs => exact .refused hs
  | fault hs h =>
    subst h
    exact .fault hs rfl

theorem settle_of_room {r : Outcome F α} (hex : s.tape.exhausted = false) :
    settle (r, s) = (r, s) := by
  cases r with
  | ok a => simp [settle, hex]
  | error e => cases e <;> simp [settle, hex]

theorem settle_of_exhausted {r : Outcome F α} (hex : s.tape.exhausted = true)
    (hr : ∀ cause, r ≠ .error (.fault cause)) :
    settle (r, s) = (.error (.error (.exhausted s.tape.capacity)), s) := by
  cases r with
  | ok a => simp [settle, hex]
  | error e =>
    cases e with
    | error cause => simp [settle, hex]
    | fault cause => exact absurd rfl (hr cause)

theorem snd_settle (r : Outcome F α) (s : Recorder F) : (settle (r, s)).2 = s := by
  cases r with
  | ok a => by_cases hex : s.tape.exhausted <;> simp [settle, hex]
  | error e =>
    cases e with
    | error cause => by_cases hex : s.tape.exhausted <;> simp [settle, hex]
    | fault cause => rfl

theorem settle_eq_ok {r : Outcome F α} {a : α} (h : (settle (r, s)).1 = .ok a) :
    r = .ok a ∧ s.tape.exhausted = false := by
  cases hex : s.tape.exhausted with
  | false =>
    rw [settle_of_room hex] at h
    exact ⟨h, rfl⟩
  | true =>
    by_cases hfault : ∃ cause, r = .error (.fault cause)
    · obtain ⟨cause, rfl⟩ := hfault
      cases h
    · rw [settle_of_exhausted hex fun cause h => hfault ⟨cause, h⟩] at h
      cases h

theorem epoch_of_run {f : List (Handle F) → Recording F α} {x : List F} {s' : Recorder F}
    {r : Outcome F α} (hx : x.length ≤ s.tape.bound)
    (hrun : f (Handle.inputs (s.tape.epoch + 1) 0 x) (begun s x) = (r, s'))
    (hex : s'.tape.exhausted = false) : epoch f x s = (r, s') := by
  rw [epoch_room hx, hrun, settle_of_room hex]

/-- An epoch that succeeds had room for its inputs and for what its function recorded. -/
theorem run_of_epoch {f : List (Handle F) → Recording F α} {x : List F} {a : α}
    (h : (epoch f x s).1 = .ok a) :
    x.length ≤ s.tape.bound ∧
      ∃ s', f (Handle.inputs (s.tape.epoch + 1) 0 x) (begun s x) = (.ok a, s') ∧
        s'.tape.exhausted = false := by
  by_cases hx : x.length ≤ s.tape.bound
  · rw [epoch_room hx] at h
    rcases hrun : f (Handle.inputs (s.tape.epoch + 1) 0 x) (begun s x) with ⟨r, s'⟩
    rw [hrun] at h
    obtain ⟨rfl, hex⟩ := settle_eq_ok h
    exact ⟨hx, s', rfl, hex⟩
  · rw [epoch_full (Nat.lt_of_not_le hx)] at h
    cases h

theorem settle_rel {R : α → β → Prop} {s' : Recorder F} {r : Outcome F α} {r' : Outcome F β}
    (h : Outcome.Rel R r r') (hex : s'.tape.exhausted = s.tape.exhausted)
    (hcapacity : s'.tape.capacity = s.tape.capacity) :
    Outcome.Rel R (settle (r, s)).1 (settle (r', s')).1 := by
  cases hs : s.tape.exhausted with
  | false =>
    rw [settle_of_room hs, settle_of_room (hex.trans hs)]
    exact h
  | true =>
    by_cases hfault : ∃ cause, r' = .error (.fault cause)
    · obtain ⟨cause, rfl⟩ := hfault
      cases h
      exact .error _
    · have hr : ∀ cause, r ≠ .error (.fault cause) := by
        rintro cause rfl
        cases h
        exact hfault ⟨cause, rfl⟩
      rw [settle_of_exhausted hs hr,
        settle_of_exhausted (hex.trans hs) fun cause h => hfault ⟨cause, h⟩, hcapacity]
      exact .error _

theorem settle_mirrors {r : Outcome F α} {r' : Outcome F β} (h : Outcome.Rel (R s) r r')
    (hs : s.tape.exhausted = true → s.Spent t) : Mirrors R t r (settle (r', s)) := by
  cases hex : s.tape.exhausted with
  | false =>
    rw [settle_of_room hex]
    exact .same hex h
  | true =>
    by_cases hfault : ∃ cause, r' = .error (.fault cause)
    · obtain ⟨cause, rfl⟩ := hfault
      cases h with
      | error => exact .fault (hs hex) rfl
    · rw [settle_of_exhausted hex fun cause h => hfault ⟨cause, h⟩]
      exact .refused (hs hex)

theorem spent_begun {x : List F} (h : s.tape.bound < x.length) :
    (begun s (x.take s.tape.bound)).refused.Spent s.tape where
  exhausted := rfl
  limit := limit_begun
  size := by
    change (begun s (x.take s.tape.bound)).tape.size = s.tape.bound
    rw [size_begun, List.length_take]
    omega

theorem epoch_mirrors {V : Worlds Unit (Recorder F)} (hV : V.Recorded)
    {Q : V.World → α → β → Prop} {r : Outcome F α} {f : List (Handle F) → Recording F β}
    {x : List F} (w : x.length ≤ s.tape.bound → V.World) (hw : ∀ hx, V.right (w hx) = begun s x)
    (h : ∀ hx, V.Agree Q (w hx) r (f (Handle.inputs (s.tape.epoch + 1) 0 x))) :
    Mirrors (fun s' a b => ∃ hx w', w hx ≤ w' ∧ V.right w' = s' ∧ Q w' a b) s.tape r
      (epoch f x s) := by
  by_cases hx : x.length ≤ s.tape.bound
  · obtain ⟨w', r₁, r₂, hle, hr, hrun, hrel⟩ := h hx
    obtain rfl : r = r₁ := congrArg Prod.fst hr
    have hrun' : f (Handle.inputs (s.tape.epoch + 1) 0 x) (begun s x) = (r₂, V.right w') :=
      hw hx ▸ hrun
    have hgrows : (begun s x).tape.Grows (V.right w').tape := hw hx ▸ hV.grows hle
    rw [epoch_room hx, hrun']
    refine settle_mirrors (hrel.mono fun a b hab => ⟨hx, w', hle, rfl, hab⟩) fun hex => ?_
    exact ⟨hex, hgrows.limit.trans limit_begun,
      ((hV.isOpen w').full hex).trans (hgrows.bound_eq.trans bound_begun)⟩
  · rw [epoch_full (Nat.lt_of_not_le hx)]
    exact .refused (spent_begun (Nat.lt_of_not_le hx))

/-- A tape after a sweep over all of its nodes, the first of which are the inputs. -/
structure Swept (inputs : ℕ) (t : Tape F) : Prop extends t.WellFormed where
  adjoints : t.adjoints.size = t.size
  inputs_le : inputs ≤ t.size

variable [Arith F] [Functions F]

theorem swept_of_open {seeds : List (Handle F × F)} {k : ℕ} (hopen : s.tape.Open)
    (hk : k ≤ s.tape.size) : Swept k (s.swept seeds).tape where
  toWellFormed := hopen.toWellFormed.congr rfl rfl rfl
  adjoints := Tape.size_adjointsFrom _ _
  inputs_le := hk

theorem backwardFrom_take {seeds : List (Handle F × F)} (hlive : ∀ e ∈ seeds, s.tape.Live e.1)
    (b : β) (k : ℕ) :
    (backwardFrom seeds >>= fun adjoints => pure (b, adjoints.take k) :
      Recording F (β × List F)) s =
      (.ok (b, (s.tape.adjointsFrom seeds).toList.take k), s.swept seeds) := by
  rw [run_bind, backwardFrom_of_live hlive]
  rfl

theorem valueGradient_mirrors {R : Recorder F → α → Handle F → Prop} {r : Outcome F α}
    {f : List (Handle F) → Recording F (Handle F)} {x : List F}
    (h : Mirrors R t r (epoch f x s)) (hlive : ∀ s a b, R s a b → s.tape.Live b) :
    Mirrors (fun s' a g => ∃ s₁ b, R s₁ a b ∧ s' = s₁.swept [(b, 1)] ∧
      g = (b.value, (s₁.tape.adjointsFrom [(b, 1)]).toList.take x.length))
      t r (valueGradient f x s) := by
  rw [← bind_pure r]
  refine h.bind fun s₁ a b hex hab => ?_
  change Mirrors _ t (.ok a)
    ((backwardFrom [(b, 1)] >>= fun adjoints => pure (b.value, adjoints.take x.length) :
      Recording F (F × List F)) s₁)
  rw [backwardFrom_take (List.forall_mem_singleton.mpr (hlive s₁ a b hab))]
  exact .same hex (.ok ⟨s₁, b, hab, rfl, rfl⟩)

theorem vjp_mirrors {R : Recorder F → List α → List (Handle F) → Prop} {r : Outcome F (List α)}
    {f : List (Handle F) → Recording F (List (Handle F))} {x w : List F}
    (h : Mirrors R t r (epoch f x s)) (hlen : ∀ s as bs, R s as bs → as.length = bs.length)
    (hlive : ∀ s as bs, R s as bs → ∀ b ∈ bs, s.tape.Live b) :
    Mirrors (fun s' as g => as.length = w.length ∧ ∃ s₁ bs, R s₁ as bs ∧ s' = s₁.swept (bs.zip w) ∧
      g = (bs.map Handle.value, (s₁.tape.adjointsFrom (bs.zip w)).toList.take x.length))
      t (do let as ← r; if as.length ≠ w.length then .error (.fault .weightLength) else return as)
      (vjp f x w s) := by
  refine h.bind fun s₁ as bs hex hab => ?_
  have hsame : as.length = bs.length := hlen s₁ as bs hab
  rw [← hsame]
  split
  · exact .same hex (.error _)
  · rename_i hw
    change Mirrors _ t (.ok as)
      ((backwardFrom (bs.zip w) >>= fun adjoints =>
        pure (bs.map Handle.value, adjoints.take x.length) : Recording F (List F × List F)) s₁)
    rw [backwardFrom_take fun e he => hlive s₁ as bs hab _ (List.of_mem_zip he).1]
    exact .same hex (.ok ⟨not_not.mp hw, s₁, bs, hab, rfl, rfl⟩)

theorem vjp_of_epoch {x : List F} {s₁ : Recorder F} {ys : List (Handle F)}
    {f : List (Handle F) → Recording F (List (Handle F))}
    (hepoch : epoch f x s = (.ok ys, s₁)) (hlive : ∀ y ∈ ys, s₁.tape.Live y) (w : List F) :
    vjp f x w s = if ys.length ≠ w.length then (.error (.fault .weightLength), s₁)
      else (.ok (ys.map Handle.value, (s₁.tape.adjointsFrom (ys.zip w)).toList.take x.length),
        s₁.swept (ys.zip w)) := by
  unfold vjp
  rw [run_bind, hepoch]
  by_cases hw : ys.length ≠ w.length
  · simp only [if_pos hw]
    rfl
  · simp only [if_neg hw]
    rw [backwardFrom_take fun e he => hlive _ (List.of_mem_zip he).1]

def fill (steps : List (Step F)) (slots : Slots (Handle F)) : Recording F (Slots (Handle F)) :=
  steps.foldlM (fun slots step => do return slots.push (← step.run Interpretation.recording slots)) slots

theorem fill_cons (step : Step F) (steps : List (Step F)) (slots : Slots (Handle F))
    (s : Recorder F) :
    fill (step :: steps) slots s = match step.run Interpretation.recording slots s with
      | (.ok y, s) => fill steps (slots.push y) s
      | (.error e, s) => (.error e, s) := by
  unfold fill
  rw [List.foldlM_cons, run_bind, run_bind]
  rcases step.run Interpretation.recording slots s with ⟨r, s⟩
  cases r <;> rfl

theorem fill_cons_ok {step : Step F} {slots : Slots (Handle F)} {y : Slot (Handle F)}
    {s s' : Recorder F} (h : step.run Interpretation.recording slots s = (.ok y, s'))
    (steps : List (Step F)) : fill (step :: steps) slots s = fill steps (slots.push y) s' := by
  rw [fill_cons, h]

end Recording

variable [Arith F] [Functions F]

theorem Program.run_of_fill {p : Program F} {inputs : List (Handle F)} {slots : Slots (Handle F)}
    {s s' : Recorder F}
    (h : Recording.fill p.steps (inputs.map Slot.scalar).toArray s = (.ok slots, s')) :
    p.run Interpretation.recording inputs s =
      (((p.outputs.getD [slots.size - 1]).mapM slots.flatten).map List.flatten, s') := by
  have hslots : p.slots Interpretation.recording inputs s = (.ok slots, s') := h
  unfold Program.run
  rw [run_bind, hslots]
  change (Recording.ofOutcome _ >>= _ : Recording F (List (Handle F))) s' = _
  rw [run_bind]
  simp only [Recording.ofOutcome]
  cases (p.outputs.getD [slots.size - 1]).mapM slots.flatten <;> rfl

theorem Program.run_last {p : Program F} (hp : p.outputs = none) {inputs : List (Handle F)}
    (slots : Slots (Handle F)) {y : Handle F} {s s' : Recorder F}
    (h : Recording.fill p.steps (inputs.map Slot.scalar).toArray s =
      (.ok (slots.push (.scalar y)), s')) :
    p.run Interpretation.recording inputs s = (.ok [y], s') := by
  have hlast : Slots.flatten (slots.push (.scalar y)) slots.size = (.ok [y] : Outcome F _) := by
    rw [Slots.flatten, Array.getElem?_push_size]
  rw [Program.run_of_fill h, hp, Option.getD_none, Array.size_push, Nat.add_sub_cancel,
    List.mapM_cons, hlast]
  rfl

theorem Program.fill_of_run {p : Program F} {inputs ys : List (Handle F)} {s s' : Recorder F}
    (h : p.run Interpretation.recording inputs s = (.ok ys, s')) : ∃ slots,
    Recording.fill p.steps (inputs.map Slot.scalar).toArray s = (.ok slots, s') ∧
      ((p.outputs.getD [slots.size - 1]).mapM slots.flatten).map List.flatten =
        (.ok ys : Outcome F (List (Handle F))) := by
  rcases hslots : Recording.fill p.steps (inputs.map Slot.scalar).toArray s with ⟨e | slots, s₁⟩
  · have hrun : p.run Interpretation.recording inputs s = (.error e, s₁) := by
      have hslots' : p.slots Interpretation.recording inputs s = (.error e, s₁) := hslots
      unfold Program.run
      rw [run_bind, hslots']
    cases hrun.symm.trans h
  · obtain ⟨hys, rfl⟩ := Prod.mk.inj ((Program.run_of_fill hslots).symm.trans h)
    exact ⟨slots, rfl, hys⟩

end Autodiff
