import Mathlib.Data.List.InsertIdx
import Mathlib.Data.List.Nodup
import Autodiff.Tape.Activation

set_option autoImplicit false

namespace Autodiff

namespace Activation

/-- The newest guard holds the active tape, and every guard has saved the tape of the next older
one. -/
def Linked : Option ℕ → List Guard → Prop
  | current, [] => current = none
  | current, guard :: guards => current = some guard.tape ∧ Linked guard.saved guards

variable {current : Option ℕ} {guards : List Guard} {a : Activation}

theorem Linked.current_eq (h : Linked current guards) : current = guards[0]?.map Guard.tape := by
  cases guards with
  | nil => exact h
  | cons guard guards => exact h.1

theorem Linked.saved_eq (h : Linked current guards) {place : ℕ} {guard : Guard}
    (hguard : guards[place]? = some guard) :
    guard.saved = guards[place + 1]?.map Guard.tape := by
  induction guards generalizing current place with
  | nil => simp at hguard
  | cons newest guards ih =>
    cases place with
    | zero =>
      obtain rfl : newest = guard := by simpa using hguard
      simpa using h.2.current_eq
    | succ place => exact ih h.2 (by simpa using hguard)

theorem linked_release_newest (h : Linked a.current a.guards) :
    Linked (a.release 0).current (a.release 0).guards := by
  obtain ⟨current, guards⟩ := a
  cases guards with
  | nil => exact h
  | cons guard guards => exact h.2

theorem mem_borrowed_of_linked (h : Linked a.current a.guards) {tape : ℕ}
    (htape : a.current = some tape) : tape ∈ a.borrowed := by
  rw [h.current_eq, Option.map_eq_some_iff] at htape
  obtain ⟨guard, hguard, rfl⟩ := htape
  exact List.mem_map_of_mem (List.mem_of_getElem? hguard)

theorem borrowed_release_sublist (a : Activation) (place : ℕ) :
    List.Sublist (a.release place).borrowed a.borrowed := by
  unfold release
  split
  · exact (List.eraseIdx_sublist _ _).map _
  · exact List.Sublist.refl _

theorem tape_not_mem_release (h : a.borrowed.Nodup) {place : ℕ} {guard : Guard}
    (hguard : a.guards[place]? = some guard) : guard.tape ∉ (a.release place).borrowed := by
  have hnodup : (a.guards.map Guard.tape).Nodup := h
  obtain ⟨hplace, rfl⟩ := List.getElem?_eq_some_iff.mp hguard
  have hlength : place < (a.guards.map Guard.tape).length := by simpa using hplace
  have hgone := hnodup.not_mem_erase (a := (a.guards.map Guard.tape)[place])
  rw [hnodup.erase_getElem place hlength, List.eraseIdx_map, List.getElem_map] at hgone
  simpa [release, hguard, borrowed] using hgone

/-- A guard dropped after the one whose tape it has saved puts that tape back. -/
theorem release_older_first (h : Linked a.current a.guards) (hnodup : a.borrowed.Nodup) {place : ℕ}
    (hplace : place + 1 < a.guards.length) :
    ∃ tape, ((a.release (place + 1)).release place).current = some tape ∧
      tape ∉ ((a.release (place + 1)).release place).borrowed := by
  obtain ⟨older, holder⟩ : ∃ older, a.guards[place + 1]? = some older :=
    ⟨_, List.getElem?_eq_getElem hplace⟩
  obtain ⟨guard, hguard⟩ : ∃ guard, a.guards[place]? = some guard :=
    ⟨_, List.getElem?_eq_getElem (by omega)⟩
  have hsaved : guard.saved = some older.tape := by
    rw [h.saved_eq hguard, holder]
    rfl
  have hkept : (a.release (place + 1)).guards[place]? = some guard := by
    simp only [release, holder]
    rw [List.getElem?_eraseIdx_of_lt (by omega), hguard]
  have hgone := tape_not_mem_release hnodup holder
  refine ⟨older.tape, ?_, fun hmem => hgone ((borrowed_release_sublist _ _).subset hmem)⟩
  rw [release, hkept]
  exact hsaved

end Activation

inductive GuardMove where
  | make (p : Precision) (tape : ℕ)
  | drop (p : Precision) (place : ℕ)

namespace GuardMove

def precision : GuardMove → Precision
  | make p _ => p
  | drop p _ => p

def act : GuardMove → Thread → Thread
  | make p tape, t => t.update p (·.activate tape)
  | drop p place, t => t.update p (·.release place)

/-- A tape that a guard holds is not given to another guard. -/
def Permitted (t : Thread) : GuardMove → Prop
  | make p tape => tape ∉ (t.activation p).borrowed
  | drop p place => place < (t.activation p).guards.length

instance (t : Thread) : (move : GuardMove) → Decidable (move.Permitted t)
  | make _ _ => inferInstanceAs (Decidable (¬ _))
  | drop _ _ => inferInstanceAs (Decidable (_ < _))

def NewestFirst : GuardMove → Prop
  | make _ _ => True
  | drop _ place => place = 0

end GuardMove

namespace Thread

variable {t u : Thread} {moves : List GuardMove}

theorem activation_update (t : Thread) (p : Precision) (f : Activation → Activation) :
    (t.update p f).activation p = f (t.activation p) := by
  cases p <;> rfl

theorem activation_update_ne (t : Thread) {p q : Precision} (h : q ≠ p)
    (f : Activation → Activation) : (t.update p f).activation q = t.activation q := by
  cases p <;> cases q <;> first | rfl | exact absurd rfl h

theorem activation_act_ne (t : Thread) {move : GuardMove} {p : Precision} (h : p ≠ move.precision) :
    (move.act t).activation p = t.activation p := by
  cases move <;> exact t.activation_update_ne h _

inductive Runs : Thread → List GuardMove → Thread → Prop
  | refl (t : Thread) : Runs t [] t
  | next {t u : Thread} {move : GuardMove} {moves : List GuardMove} (ok : move.Permitted t)
      (tail : Runs (move.act t) moves u) : Runs t (move :: moves) u

def Nested (t : Thread) : Prop :=
  ∀ p, Activation.Linked (t.activation p).current (t.activation p).guards ∧
    (t.activation p).borrowed.Nodup

theorem nested_act (h : t.Nested) {move : GuardMove} (ok : move.Permitted t)
    (hnewest : move.NewestFirst) : (move.act t).Nested := by
  intro q
  by_cases hq : q = move.precision
  · subst hq
    obtain ⟨hlinked, hnodup⟩ := h move.precision
    cases move with
    | make p tape =>
      rw [GuardMove.act, GuardMove.precision, activation_update]
      exact ⟨⟨rfl, hlinked⟩, List.nodup_cons.mpr ⟨ok, hnodup⟩⟩
    | drop p place =>
      obtain rfl : place = 0 := hnewest
      rw [GuardMove.act, GuardMove.precision, activation_update]
      have hborrowed := Activation.borrowed_release_sublist (t.activation p) 0
      exact ⟨Activation.linked_release_newest hlinked, hnodup.sublist hborrowed⟩
  · rw [activation_act_ne t hq]
    exact h q

theorem Runs.nested (h : Runs t moves u) (ht : t.Nested)
    (hnewest : ∀ move ∈ moves, move.NewestFirst) : u.Nested := by
  induction h with
  | refl t => exact ht
  | next ok tail ih =>
    have hhead := nested_act ht ok (hnewest _ List.mem_cons_self)
    exact ih hhead fun move hmove => hnewest move (List.mem_cons_of_mem _ hmove)

structure Disciplined (t : Thread) : Prop where
  alive : ∀ p tape, (t.activation p).current = some tape → tape ∈ (t.activation p).borrowed
  idle : ∀ p, (t.activation p).guards = [] → (t.activation p).current = none
  apart : ∀ (move : GuardMove) (p : Precision), p ≠ move.precision →
    (move.act t).activation p = t.activation p
  stray : ∀ p place, place + 1 < (t.activation p).guards.length →
    ∃ tape, (((t.activation p).release (place + 1)).release place).current = some tape ∧
      tape ∉ (((t.activation p).release (place + 1)).release place).borrowed

/-- As long as guards are dropped newest first, an active tape has a guard. Dropping two neighbours
the other way round makes a tape active that has none. -/
theorem guards_disciplined (h : Runs {} moves t) (hnewest : ∀ move ∈ moves, move.NewestFirst) :
    Disciplined t := by
  have hnested := h.nested (fun p => by cases p <;> exact ⟨rfl, List.nodup_nil⟩) hnewest
  refine ⟨fun p tape => ?_, fun p hguards => ?_, fun move p => ?_, fun p place => ?_⟩
  · exact Activation.mem_borrowed_of_linked (hnested p).1
  · have hcurrent := (hnested p).1.current_eq
    rwa [hguards] at hcurrent
  · exact activation_act_ne t
  · exact Activation.release_older_first (hnested p).1 (hnested p).2

def nestedMoves : List GuardMove :=
  [.make .double 0, .make .single 0, .make .double 1, .drop .single 0]

theorem guards_disciplined_nestedMoves :
    ∃ t, Runs {} nestedMoves t ∧ (∀ move ∈ nestedMoves, move.NewestFirst) ∧ Disciplined t := by
  have hruns : Runs {} nestedMoves ⟨{}, ⟨some 1, [⟨1, some 0⟩, ⟨0, none⟩]⟩⟩ :=
    .next (by decide) <| .next (by decide) <| .next (by decide) <| .next (by decide) <| .refl _
  have hnewest : ∀ move ∈ nestedMoves, move.NewestFirst := by
    simp [nestedMoves, GuardMove.NewestFirst]
  exact ⟨_, hruns, hnewest, guards_disciplined hruns hnewest⟩

/-- The older of two guards is dropped first. All guards are gone, and a tape is active. -/
theorem guards_dropped_oldest_first :
    ∃ t, Runs {} [.make .double 0, .make .double 1, .drop .double 1, .drop .double 0] t ∧
      (∀ p, (t.activation p).guards = []) ∧ (t.activation .double).current = some 0 := by
  have hruns : Runs {} [.make .double 0, .make .double 1, .drop .double 1, .drop .double 0]
      ⟨{}, ⟨some 0, []⟩⟩ :=
    .next (by decide) <| .next (by decide) <| .next (by decide) <| .next (by decide) <| .refl _
  exact ⟨_, hruns, fun p => by cases p <;> rfl, rfl⟩

end Thread

end Autodiff
