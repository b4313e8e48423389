import Autodiff.Proofs.Tape.Recording

set_option autoImplicit false

namespace Autodiff

variable {F : Type} [Arith F]

namespace Tape

theorem foldl_reverse_range_succ {α : Type} (f : α → ℕ → α) (a : α) (k : ℕ) :
    (List.range (k + 1)).reverse.foldl f a = (List.range k).reverse.foldl f (f a k) := by
  rw [List.range_succ, List.reverse_append, List.reverse_singleton, List.singleton_append,
    List.foldl_cons]

def seedAdjoints (t : Tape F) (seeds : List (Handle F × F)) : Array F :=
  seeds.foldl addSeed (Array.replicate t.size 0)

theorem size_addSeed (adjoints : Array F) (seed : Handle F × F) :
    (addSeed adjoints seed).size = adjoints.size := by
  unfold addSeed
  cases seed.1.node with
  | none => rfl
  | some i => exact Array.size_modify

theorem size_foldl_addSeed (seeds : List (Handle F × F)) (adjoints : Array F) :
    (seeds.foldl addSeed adjoints).size = adjoints.size := by
  induction seeds generalizing adjoints with
  | nil => rfl
  | cons seed seeds ih => rw [List.foldl_cons, ih, size_addSeed]

theorem size_seedAdjoints (t : Tape F) (seeds : List (Handle F × F)) :
    (t.seedAdjoints seeds).size = t.size := by
  rw [seedAdjoints, size_foldl_addSeed, Array.size_replicate]

theorem size_foldl_modify (edges : List (ℕ × F)) (a : F) (adjoints : Array F) :
    (edges.foldl (fun adjoints (k, p) => adjoints.modify k (· + p * a)) adjoints).size =
      adjoints.size := by
  induction edges generalizing adjoints with
  | nil => rfl
  | cons e edges ih => rw [List.foldl_cons, ih, Array.size_modify]

variable [Functions F]

theorem size_propagate (t : Tape F) (adjoints : Array F) (i : ℕ) :
    (t.propagate adjoints i).size = adjoints.size := by
  simp only [propagate]
  split
  · rfl
  · exact size_foldl_modify _ _ _

theorem propagate_bare {t : Tape F} {i : ℕ} (hi : t.edges i = []) (adjoints : Array F) :
    t.propagate adjoints i = adjoints := by
  simp [propagate, hi]

theorem propagate_zero (t : Tape F) {adjoints : Array F} {i : ℕ} (h : adjoints.getD i 0 = 0)
    (hz : Functions.eq (0 : F) 0 = true) : t.propagate adjoints i = adjoints := by
  simp only [propagate, h, hz, if_true]

theorem size_sweep (t : Tape F) (adjoints : Array F) :
    (t.sweep adjoints).size = adjoints.size := by
  unfold sweep
  generalize (List.range t.nodes.size).reverse = is
  induction is generalizing adjoints with
  | nil => rfl
  | cons i is ih => rw [List.foldl_cons, ih, size_propagate]

theorem foldl_propagate_bare {t : Tape F} {is : List ℕ} (h : ∀ i ∈ is, t.edges i = [])
    (adjoints : Array F) : is.foldl t.propagate adjoints = adjoints := by
  induction is with
  | nil => rfl
  | cons i is ih =>
    rw [List.foldl_cons, propagate_bare (h i List.mem_cons_self)]
    exact ih fun j hj => h j (List.mem_cons_of_mem i hj)

def adjointsFrom (t : Tape F) (seeds : List (Handle F × F)) : Array F :=
  t.sweep (t.seedAdjoints seeds)

theorem adjointsFrom_bare {t : Tape F} (h : ∀ i, i < t.size → t.edges i = [])
    (seeds : List (Handle F × F)) : t.adjointsFrom seeds = t.seedAdjoints seeds :=
  foldl_propagate_bare (fun i hi => h i (List.mem_range.mp (List.mem_reverse.mp hi))) _

theorem size_adjointsFrom (t : Tape F) (seeds : List (Handle F × F)) :
    (t.adjointsFrom seeds).size = t.size := by
  rw [adjointsFrom, size_sweep, size_seedAdjoints]

theorem length_take_adjointsFrom (t : Tape F) (seeds : List (Handle F × F)) {k : ℕ}
    (hk : k ≤ t.size) : ((t.adjointsFrom seeds).toList.take k).length = k := by
  have hlen : (t.adjointsFrom seeds).toList.length = t.size := size_adjointsFrom t seeds
  rw [List.length_take, hlen, Nat.min_eq_left hk]

end Tape

namespace Recorder

def withAdjoints (s : Recorder F) (adjoints : Array F) : Recorder F :=
  { s with tape := { s.tape with adjoints := adjoints } }

def swept [Functions F] (s : Recorder F) (seeds : List (Handle F × F)) : Recorder F :=
  s.withAdjoints (s.tape.adjointsFrom seeds)

omit [Arith F] in
theorem edges_withAdjoints (s : Recorder F) (adjoints : Array F) (i : ℕ) :
    (s.withAdjoints adjoints).tape.edges i = s.tape.edges i := rfl

end Recorder

namespace Recording

variable {s : Recorder F} {seeds : List (Handle F × F)}

theorem seed_cons (e : Handle F × F) (seeds : List (Handle F × F)) (s : Recorder F) :
    seed (e :: seeds) s = match s.tape.requireLive e.1 with
      | .ok _ => seed seeds (s.withAdjoints (Tape.addSeed s.tape.adjoints e))
      | .error c => (.error c, s) := by
  change ((tape >>= fun t => ofOutcome (t.requireLive e.1) >>= fun _ => modifyTape _) >>=
    fun _ => seed seeds : Recording F Unit) s = _
  rw [run_bind, run_bind]
  simp only [tape]
  rw [run_bind]
  cases s.tape.requireLive e.1 <;> rfl

theorem seed_of_live (hlive : ∀ e ∈ seeds, s.tape.Live e.1) :
    seed seeds s = (.ok (), s.withAdjoints (seeds.foldl Tape.addSeed s.tape.adjoints)) := by
  induction seeds generalizing s with
  | nil => rfl
  | cons e seeds ih =>
    obtain ⟨he, hseeds⟩ := List.forall_mem_cons.mp hlive
    rw [seed_cons, Tape.requireLive_of_live he]
    exact ih (s := s.withAdjoints (Tape.addSeed s.tape.adjoints e)) hseeds

/-- The first seed whose handle is not live stops the sweep. By then the adjoints hold the seeds
before it. -/
theorem seed_stale {x : Handle F} (hx : x ∈ seeds.map Prod.fst) (hstale : ¬ s.tape.Live x) :
    ∃ i epoch adjoints, seed seeds s =
      (.error (.fault (.staleVariable i epoch s.tape.epoch)), s.withAdjoints adjoints) := by
  induction seeds generalizing s with
  | nil => exact absurd hx List.not_mem_nil
  | cons e seeds ih =>
    rw [seed_cons]
    by_cases he : s.tape.Live e.1
    · have hrest : x ∈ seeds.map Prod.fst := by
        refine (List.mem_cons.mp hx).resolve_left fun hxe => hstale ?_
        exact hxe ▸ he
      rw [Tape.requireLive_of_live he]
      exact ih (s := s.withAdjoints (Tape.addSeed s.tape.adjoints e)) hrest hstale
    · obtain ⟨i, hi⟩ := Tape.requireLive_of_not_live he
      rw [hi]
      exact ⟨i, e.1.epoch, s.tape.adjoints, rfl⟩

variable [Functions F]

theorem run_backwardFrom (seeds : List (Handle F × F)) (s : Recorder F) :
    backwardFrom seeds s =
      match seed seeds (s.withAdjoints (Array.replicate s.tape.size 0)) with
      | (.ok _, s) =>
        (.ok (s.tape.sweep s.tape.adjoints).toList,
          s.withAdjoints (s.tape.sweep s.tape.adjoints))
      | (.error e, s) => (.error e, s) := by
  unfold backwardFrom
  rw [run_bind]
  change (seed seeds >>= _ : Recording F (List F))
    (s.withAdjoints (Array.replicate s.tape.size 0)) = _
  rw [run_bind]
  rcases seed seeds (s.withAdjoints (Array.replicate s.tape.size 0)) with ⟨e | _, s⟩ <;> rfl

theorem backwardFrom_of_live (hlive : ∀ e ∈ seeds, s.tape.Live e.1) :
    backwardFrom seeds s = (.ok (s.tape.adjointsFrom seeds).toList, s.swept seeds) := by
  rw [run_backwardFrom,
    seed_of_live (s := s.withAdjoints (Array.replicate s.tape.size 0)) hlive]
  rfl

theorem backwardFrom_stale {x : Handle F} (hx : x ∈ seeds.map Prod.fst)
    (hstale : ¬ s.tape.Live x) :
    ∃ i epoch adjoints, backwardFrom seeds s =
      (.error (.fault (.staleVariable i epoch s.tape.epoch)), s.withAdjoints adjoints) := by
  obtain ⟨i, epoch, adjoints, hrun⟩ :=
    seed_stale (s := s.withAdjoints (Array.replicate s.tape.size 0)) hx hstale
  refine ⟨i, epoch, adjoints, ?_⟩
  rw [run_backwardFrom, hrun]
  rfl

/-- A sweep touches nothing but the adjoints, even if it fails. -/
theorem snd_backwardFrom (s : Recorder F) (seeds : List (Handle F × F)) :
    ∃ adjoints, (backwardFrom seeds s).2 = s.withAdjoints adjoints := by
  by_cases hlive : ∀ e ∈ seeds, s.tape.Live e.1
  · exact ⟨_, congrArg Prod.snd (backwardFrom_of_live hlive)⟩
  · push Not at hlive
    obtain ⟨e, he, hstale⟩ := hlive
    obtain ⟨i, epoch, adjoints, hrun⟩ := backwardFrom_stale (List.mem_map_of_mem he) hstale
    exact ⟨adjoints, congrArg Prod.snd hrun⟩

end Recording

end Autodiff
