import Mathlib.Data.List.Forall2
import Autodiff.Gradient.Basic
import Autodiff.Proofs.Tape.Recording

set_option autoImplicit false

namespace Autodiff

variable {F α : Type}

namespace Tape

def pushInputs (t : Tape F) : List F → Tape F
  | [] => t
  | value :: x => (t.push .input [] value).pushInputs x

theorem size_pushInputs (t : Tape F) (x : List F) :
    (t.pushInputs x).size = t.size + x.length := by
  induction x generalizing t with
  | nil => rfl
  | cons value x ih =>
    rw [pushInputs, ih, size_push, List.length_cons]
    omega

theorem epoch_pushInputs (t : Tape F) (x : List F) : (t.pushInputs x).epoch = t.epoch := by
  induction x generalizing t with
  | nil => rfl
  | cons value x ih => exact ih _

theorem limit_pushInputs (t : Tape F) (x : List F) : (t.pushInputs x).limit = t.limit := by
  induction x generalizing t with
  | nil => rfl
  | cons value x ih => exact ih _

theorem exhausted_pushInputs (t : Tape F) (x : List F) :
    (t.pushInputs x).exhausted = t.exhausted := by
  induction x generalizing t with
  | nil => rfl
  | cons value x ih => exact ih _

theorem adjoints_pushInputs (t : Tape F) (x : List F) :
    (t.pushInputs x).adjoints = t.adjoints := by
  induction x generalizing t with
  | nil => rfl
  | cons value x ih => exact ih _

theorem WellFormed.pushInputs {t : Tape F} (h : t.WellFormed) (x : List F) :
    (t.pushInputs x).WellFormed := by
  induction x generalizing t with
  | nil => exact h
  | cons value x ih => exact ih (h.push fun e he => absurd he List.not_mem_nil)

theorem edges_pushInputs {t : Tape F} (h : t.WellFormed) (x : List F)
    (hes : ∀ i, i < t.size → t.edges i = []) {i : ℕ} (hi : i < (t.pushInputs x).size) :
    (t.pushInputs x).edges i = [] := by
  induction x generalizing t with
  | nil => exact hes i hi
  | cons value x ih =>
    refine ih (h.push fun e he => absurd he List.not_mem_nil) (fun j hj => ?_) hi
    rw [size_push] at hj
    by_cases hlt : j < t.size
    · rw [edges_push_of_lt h hlt]
      exact hes j hlt
    · obtain rfl : j = t.size := by omega
      exact edges_push_nil h

end Tape

def Handle.inputs (epoch : UInt32) : ℕ → List F → List (Handle F)
  | _, [] => []
  | i, value :: x => ⟨value, some i, epoch⟩ :: inputs epoch (i + 1) x

theorem Handle.forall₂_inputs {R : α → Handle F → Prop} {epoch : UInt32} {xs : List α} {x : List F}
    {i : ℕ} (hlen : xs.length = x.length)
    (h : ∀ j (hj : j < xs.length) (hj' : j < x.length), R xs[j] ⟨x[j], some (i + j), epoch⟩) :
    List.Forall₂ R xs (Handle.inputs epoch i x) := by
  induction x generalizing i xs with
  | nil =>
    obtain rfl : xs = [] := List.eq_nil_of_length_eq_zero hlen
    exact .nil
  | cons value x ih =>
    cases xs with
    | nil => cases hlen
    | cons a xs =>
      refine .cons (h 0 (Nat.zero_lt_succ _) (Nat.zero_lt_succ _))
        (ih (Nat.succ.inj hlen) fun j hj hj' => ?_)
      have hstep := h (j + 1) (Nat.succ_lt_succ hj) (Nat.succ_lt_succ hj')
      rw [Nat.add_assoc, Nat.add_comm 1]
      exact hstep

@[simp]
theorem Handle.length_inputs (epoch : UInt32) (i : ℕ) (x : List F) :
    (Handle.inputs epoch i x).length = x.length := by
  induction x generalizing i with
  | nil => rfl
  | cons value x ih => exact congrArg (· + 1) (ih (i + 1))

theorem Handle.getElem_inputs (epoch : UInt32) (i : ℕ) (x : List F) {j : ℕ} (hj : j < x.length)
    (hj' : j < (Handle.inputs epoch i x).length) :
    (Handle.inputs epoch i x)[j] = ⟨x[j], some (i + j), epoch⟩ := by
  induction x generalizing i j with
  | nil => cases hj
  | cons value x ih =>
    cases j with
    | zero => rfl
    | succ j =>
      have hsucc : i + 1 + j = i + (j + 1) := by omega
      rw [← hsucc]
      exact ih (i + 1) _ (Nat.lt_of_succ_lt_succ hj')

namespace Recording

variable {s : Recorder F}

theorem input_full {value : F} (hfull : s.tape.isFull = true) :
    input value s = (.error (.error (.exhausted s.tape.capacity)), s.refused) := by
  have happend : append .input [] [] value s =
      (.error (.error (.exhausted s.tape.capacity)), s.refused) := by
    have hlen : ([] : List (Option ℕ)).length = ([] : List F).length := rfl
    unfold append
    rw [run_bind, append?_full hlen hfull]
    rfl
  unfold input
  rw [run_bind, happend]

theorem input_room {value : F} (hroom : s.tape.isFull = false) :
    input value s = (.ok ⟨value, some s.tape.size, s.tape.epoch⟩, s.pushed .input [] value) := by
  have happend : append .input [] [] value s = (.ok s.tape.size, s.pushed .input [] value) := by
    have hlen : ([] : List (Option ℕ)).length = ([] : List F).length := rfl
    unfold append
    rw [run_bind, append?_room hlen hroom fun e he => absurd he List.not_mem_nil]
    rfl
  unfold input
  rw [run_bind, happend]
  rfl

def opened (s : Recorder F) (x : List F) : Recorder F :=
  { s with tape := s.tape.pushInputs x }

theorem inputs_room {x : List F} (h : s.tape.size + x.length ≤ s.tape.bound) :
    x.mapM input s = (.ok (Handle.inputs s.tape.epoch s.tape.size x), opened s x) := by
  induction x generalizing s with
  | nil => rfl
  | cons value x ih =>
    have hroom : s.tape.isFull = false := by
      rw [← Bool.not_eq_true, Tape.isFull_iff]
      rw [List.length_cons] at h
      omega
    have hsize : (s.pushed .input [] value).tape.size = s.tape.size + 1 := Tape.size_push _ _ _ _
    have hbound : (s.pushed .input [] value).tape.bound = s.tape.bound := rfl
    rw [List.length_cons] at h
    rw [List.mapM_cons, run_bind, input_room hroom]
    change (x.mapM input >>= _ : Recording F (List (Handle F))) _ = _
    rw [run_bind, ih (by omega), hsize]
    rfl

theorem inputs_full {x : List F} (hsize : s.tape.size ≤ s.tape.bound)
    (h : s.tape.bound < s.tape.size + x.length) :
    x.mapM input s =
      (.error (.error (.exhausted (opened s (x.take (s.tape.bound - s.tape.size))).tape.capacity)),
        (opened s (x.take (s.tape.bound - s.tape.size))).refused) := by
  induction x generalizing s with
  | nil => exact absurd h (by simpa using hsize)
  | cons value x ih =>
    rw [List.mapM_cons, run_bind]
    cases hfull : s.tape.isFull with
    | true =>
      have hbound : s.tape.bound - s.tape.size = 0 :=
        Nat.sub_eq_zero_of_le ((Tape.isFull_iff _).mp hfull)
      rw [input_full hfull, hbound, List.take_zero]
      rfl
    | false =>
      have hlt : s.tape.size < s.tape.bound := by
        rw [← Bool.not_eq_true, Tape.isFull_iff] at hfull
        omega
      have hsize' : (s.pushed .input [] value).tape.size = s.tape.size + 1 :=
        Tape.size_push _ _ _ _
      have hbound' : (s.pushed .input [] value).tape.bound = s.tape.bound := rfl
      rw [List.length_cons] at h
      rw [input_room hfull]
      change (x.mapM input >>= _ : Recording F (List (Handle F))) _ = _
      rw [run_bind, ih (by omega) (by omega), hsize', hbound']
      have htake : s.tape.bound - s.tape.size = s.tape.bound - (s.tape.size + 1) + 1 := by omega
      rw [htake, List.take_succ_cons]
      rfl

/-- A recorded function as its epoch returns it: only a fault of the function goes before a refused
recording. -/
def settle : Outcome F α × Recorder F → Outcome F α × Recorder F
  | (.error (.fault cause), s) => (.error (.fault cause), s)
  | (result, s) =>
    if s.tape.exhausted then (.error (.error (.exhausted s.tape.capacity)), s) else (result, s)

def begun (s : Recorder F) (x : List F) : Recorder F :=
  opened { s with tape := s.tape.nextEpoch } x

theorem epoch_room {f : List (Handle F) → Recording F α} {x : List F}
    (h : x.length ≤ s.tape.bound) :
    epoch f x s = settle (f (Handle.inputs (s.tape.epoch + 1) 0 x) (begun s x)) := by
  have hroom : s.tape.nextEpoch.size + x.length ≤ s.tape.nextEpoch.bound := by
    rw [Tape.size_nextEpoch, Nat.zero_add]
    exact h
  unfold epoch
  rw [run_bind]
  change (x.mapM input >>= _ : Recording F α) { s with tape := s.tape.nextEpoch } = _
  rw [run_bind, inputs_room hroom]
  rfl

theorem epoch_full {f : List (Handle F) → Recording F α} {x : List F}
    (h : s.tape.bound < x.length) :
    epoch f x s =
      (.error (.error (.exhausted (begun s (x.take s.tape.bound)).tape.capacity)),
        (begun s (x.take s.tape.bound)).refused) := by
  have hfull : s.tape.nextEpoch.bound < s.tape.nextEpoch.size + x.length := by
    rw [Tape.size_nextEpoch, Nat.zero_add]
    exact h
  unfold epoch
  rw [run_bind]
  change (x.mapM input >>= _ : Recording F α) { s with tape := s.tape.nextEpoch } = _
  rw [run_bind, inputs_full (Nat.zero_le _) hfull]
  rfl

end Recording

end Autodiff
