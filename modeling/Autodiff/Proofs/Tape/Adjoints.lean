import Mathlib
import Autodiff.Proofs.Number.Exact
import Autodiff.Proofs.Tape.Lifetime

/-!
# The adjoint equations

The adjoint of a node is the sum of its seeds and of what every node passes down to it: partial
times adjoint for each position in which it is an operand. Operands are older than their node, so
the equations can be solved from the newest node to the oldest. The solution is unique, and the
sweep finds it as long as the spans show the operands that were recorded.
-/

set_option autoImplicit false

namespace Autodiff

open Finset (range sum_range_succ)

variable {F : Type} [CommRing F]

def seedAt (seeds : List (Handle F × F)) (k : ℕ) : F :=
  ((seeds.filter fun e => e.1.node = some k).map Prod.snd).sum

def scaleSeeds (c : F) (seeds : List (Handle F × F)) : List (Handle F × F) :=
  seeds.map fun e => (e.1, c * e.2)

theorem seedAt_cons (e : Handle F × F) (seeds : List (Handle F × F)) (k : ℕ) :
    seedAt (e :: seeds) k = (if e.1.node = some k then e.2 else 0) + seedAt seeds k := by
  unfold seedAt
  by_cases h : e.1.node = some k
  · simp [h]
  · simp [h]

theorem seedAt_append (seeds seeds' : List (Handle F × F)) (k : ℕ) :
    seedAt (seeds ++ seeds') k = seedAt seeds k + seedAt seeds' k := by
  simp [seedAt]

theorem seedAt_scaleSeeds (c : F) (seeds : List (Handle F × F)) (k : ℕ) :
    seedAt (scaleSeeds c seeds) k = c * seedAt seeds k := by
  induction seeds with
  | nil => simp [scaleSeeds, seedAt]
  | cons e seeds ih =>
    unfold scaleSeeds at ih ⊢
    rw [List.map_cons, seedAt_cons, seedAt_cons, ih]
    split
    · ring
    · ring

theorem live_combined {t : Tape F} {seeds seeds' : List (Handle F × F)}
    (hlive : ∀ e ∈ seeds, t.Live e.1) (hlive' : ∀ e ∈ seeds', t.Live e.1) (c c' : F) :
    ∀ e ∈ scaleSeeds c seeds ++ scaleSeeds c' seeds', t.Live e.1 := by
  have hscaled : ∀ (c : F) (seeds : List (Handle F × F)), (∀ e ∈ seeds, t.Live e.1) →
      ∀ e ∈ scaleSeeds c seeds, t.Live e.1 := by
    intro c seeds hlive e he
    obtain ⟨e', he', rfl⟩ := List.mem_map.mp he
    exact hlive e' he'
  exact List.forall_mem_append.mpr ⟨hscaled c seeds hlive, hscaled c' seeds' hlive'⟩

/-- What a node with these edges and the adjoint `a` passes to node `k`, over all positions in which
`k` is its operand. -/
def passed (es : List (ℕ × F)) (k : ℕ) (a : F) : F :=
  ((es.filter fun e => e.1 = k).map fun e => e.2 * a).sum

def edgesAt (records : List (NodeRecord F)) (i : ℕ) : List (ℕ × F) :=
  (records[i]?).elim [] NodeRecord.edges

/-- One adjoint for each node, and at each node the seeds and the passed adjoints add up to it. -/
structure Balanced (records : List (NodeRecord F)) (seeds : List (Handle F × F)) (adj : List F) :
    Prop where
  length : adj.length = records.length
  balance : ∀ k, k < records.length → adj.getD k 0 =
    seedAt seeds k + ∑ i ∈ range records.length, passed (edgesAt records i) k (adj.getD i 0)

theorem passed_combine (es : List (ℕ × F)) (k : ℕ) (c c' a a' : F) :
    passed es k (c * a + c' * a') = c * passed es k a + c' * passed es k a' := by
  unfold passed
  simp only [List.sum_map_mul_right]
  ring

theorem passed_of_le {es : List (ℕ × F)} {i k : ℕ} (hes : ∀ e ∈ es, e.1 < i) (hik : i ≤ k)
    (a : F) : passed es k a = 0 := by
  -- A node passes nothing to itself and to later nodes: operands are older.
  have hnone : es.filter (fun e => e.1 = k) = [] := by
    refine List.filter_eq_nil_iff.mpr fun e he heq => ?_
    have hlt : e.1 < i := hes e he
    have hk : e.1 = k := of_decide_eq_true heq
    omega
  rw [passed, hnone]
  rfl

variable {records : List (NodeRecord F)} {seeds seeds' : List (Handle F × F)} {adj adj' : List F}

theorem Balanced.unique (hold : ∀ i, ∀ e ∈ edgesAt records i, e.1 < i)
    (h : Balanced records seeds adj) (h' : Balanced records seeds adj') : adj' = adj := by
  -- Induction on the number of newest nodes at which the two agree.
  have hnewest : ∀ j k, k < records.length → records.length ≤ k + j →
      adj'.getD k 0 = adj.getD k 0 := by
    intro j
    induction j with
    | zero => intro k hk hj; omega
    | succ j ih =>
      intro k hk hj
      rw [h.balance k hk, h'.balance k hk]
      refine congrArg (seedAt seeds k + ·) (Finset.sum_congr rfl fun i hi => ?_)
      have hi : i < records.length := Finset.mem_range.mp hi
      rcases Nat.lt_or_ge k i with hki | hik
      · rw [ih i hi (by omega)]
      · rw [passed_of_le (hold i) hik, passed_of_le (hold i) hik]
  refine List.ext_getElem (h'.length.trans h.length.symm) fun k hk' hk => ?_
  have heq := hnewest records.length k (Nat.lt_of_lt_of_eq hk h.length) (Nat.le_add_left _ _)
  rwa [List.getD_eq_getElem _ _ hk', List.getD_eq_getElem _ _ hk] at heq

theorem Balanced.combine (h : Balanced records seeds adj) (h' : Balanced records seeds' adj')
    (c c' : F) : Balanced records (scaleSeeds c seeds ++ scaleSeeds c' seeds')
      (List.zipWith (fun a a' => c * a + c' * a') adj adj') := by
  have hlen : (List.zipWith (fun a a' => c * a + c' * a') adj adj').length = records.length := by
    rw [List.length_zipWith, h.length, h'.length, Nat.min_self]
  have hentry : ∀ k, k < records.length →
      (List.zipWith (fun a a' => c * a + c' * a') adj adj').getD k 0 =
        c * adj.getD k 0 + c' * adj'.getD k 0 := by
    intro k hk
    rw [List.getD_eq_getElem _ _ (by omega), List.getElem_zipWith,
      List.getD_eq_getElem _ _ (by rw [h.length]; exact hk),
      List.getD_eq_getElem _ _ (by rw [h'.length]; exact hk)]
  refine ⟨hlen, fun k hk => ?_⟩
  have hpassed : ∀ i ∈ range records.length, passed (edgesAt records i) k
      ((List.zipWith (fun a a' => c * a + c' * a') adj adj').getD i 0) =
        c * passed (edgesAt records i) k (adj.getD i 0) +
          c' * passed (edgesAt records i) k (adj'.getD i 0) := by
    intro i hi
    rw [hentry i (Finset.mem_range.mp hi), passed_combine]
  rw [hentry k hk, h.balance k hk, h'.balance k hk, seedAt_append, seedAt_scaleSeeds,
    seedAt_scaleSeeds, Finset.sum_congr rfl hpassed, Finset.sum_add_distrib, ← Finset.mul_sum,
    ← Finset.mul_sum]
  ring

namespace Tape

omit [CommRing F] in
theorem edgesAt_records (t : Tape F) {i : ℕ} (hi : i < t.size) :
    edgesAt t.records i = t.edges i := by
  rw [edgesAt, getElem?_records, Array.getElem?_eq_getElem hi]
  rfl

omit [CommRing F] in
theorem WellFormed.edgesAt_older {t : Tape F} (hwf : t.WellFormed) :
    ∀ i, ∀ e ∈ edgesAt t.records i, e.1 < i := by
  intro i e he
  by_cases hi : i < t.size
  · rw [t.edgesAt_records hi] at he
    exact hwf.older i hi e he
  · rw [edgesAt, List.getElem?_eq_none (by rw [length_records]; omega)] at he
    exact absurd he List.not_mem_nil

theorem getD_modify {adjoints : Array F} {i : ℕ} (hi : i < adjoints.size) (c : F) (k : ℕ) :
    (adjoints.modify i (· + c)).getD k 0 = adjoints.getD k 0 + if i = k then c else 0 := by
  rw [Array.getD_eq_getD_getElem?, Array.getD_eq_getD_getElem?, Array.getElem?_modify]
  by_cases hik : i = k
  · subst hik
    simp [hi]
  · simp [hik]

variable [Div F]

theorem getD_foldl_addSeed {n : ℕ} {seeds : List (Handle F × F)} {adjoints : Array F}
    (hseeds : ∀ e ∈ seeds, ∀ i, e.1.node = some i → i < n) (hsize : adjoints.size = n) (k : ℕ) :
    (seeds.foldl addSeed adjoints).getD k 0 = adjoints.getD k 0 + seedAt seeds k := by
  induction seeds generalizing adjoints with
  | nil => simp [seedAt]
  | cons e seeds ih =>
    have hhead : (addSeed adjoints e).getD k 0 =
        adjoints.getD k 0 + if e.1.node = some k then e.2 else 0 := by
      unfold addSeed
      cases hnode : e.1.node with
      | none => simp
      | some i =>
        have hi : i < adjoints.size := hsize ▸ hseeds e List.mem_cons_self i hnode
        simpa using getD_modify hi e.2 k
    have hrest : ∀ e ∈ seeds, ∀ i, e.1.node = some i → i < n :=
      fun e' he' => hseeds e' (List.mem_cons_of_mem e he')
    rw [List.foldl_cons, ih hrest (by rw [size_addSeed, hsize]), hhead, seedAt_cons]
    ring

theorem getD_seedAdjoints {t : Tape F} {seeds : List (Handle F × F)}
    (hlive : ∀ e ∈ seeds, t.Live e.1) (k : ℕ) :
    (t.seedAdjoints seeds).getD k 0 = seedAt seeds k := by
  have hzero : (Array.replicate t.size (0 : F)).getD k 0 = 0 := by
    rw [Array.getD_eq_getD_getElem?, Array.getElem?_replicate]
    split <;> rfl
  unfold seedAdjoints
  rw [getD_foldl_addSeed (fun e he i hi => (hlive e he i hi).2) Array.size_replicate, hzero,
    zero_add]

def pass (t : Tape F) (adjoints : Array F) (i : ℕ) : Array F :=
  let a := adjoints.getD i 0
  (t.edges i).foldl (fun adjoints (k, p) => adjoints.modify k (· + p * a)) adjoints

def fullSweep (t : Tape F) (adjoints : Array F) : Array F :=
  (List.range t.size).reverse.foldl t.pass adjoints

theorem size_pass (t : Tape F) (adjoints : Array F) (i : ℕ) :
    (t.pass adjoints i).size = adjoints.size :=
  size_foldl_modify _ _ _

theorem size_fullSweep (t : Tape F) (adjoints : Array F) :
    (t.fullSweep adjoints).size = adjoints.size := by
  unfold fullSweep
  generalize (List.range t.size).reverse = is
  induction is generalizing adjoints with
  | nil => rfl
  | cons i is ih => rw [List.foldl_cons, ih, size_pass]

theorem getD_foldl_modify (a : F) {es : List (ℕ × F)} {adjoints : Array F}
    (hes : ∀ e ∈ es, e.1 < adjoints.size) (k : ℕ) :
    (es.foldl (fun adjoints (k, p) => adjoints.modify k (· + p * a)) adjoints).getD k 0 =
      adjoints.getD k 0 + ((es.filter fun e => e.1 = k).map fun e => e.2 * a).sum := by
  induction es generalizing adjoints with
  | nil => simp
  | cons e es ih =>
    have hrest : ∀ e' ∈ es, e'.1 < (adjoints.modify e.1 (· + e.2 * a)).size := by
      intro e' he'
      rw [Array.size_modify]
      exact hes e' (List.mem_cons_of_mem e he')
    rw [List.foldl_cons, ih hrest, getD_modify (hes e List.mem_cons_self)]
    by_cases hk : e.1 = k
    · simp [hk, add_assoc]
    · simp [hk]

theorem getD_pass {t : Tape F} (hwf : t.WellFormed) {i : ℕ} (hi : i < t.size) {adjoints : Array F}
    (hsize : adjoints.size = t.size) (k : ℕ) :
    (t.pass adjoints i).getD k 0 =
      adjoints.getD k 0 + passed (t.edges i) k (adjoints.getD i 0) := by
  refine getD_foldl_modify _ (fun e he => ?_) k
  have hlt : e.1 < i := hwf.older i hi e he
  omega

/-- While the nodes before `m` pass their adjoints on, each of them keeps the adjoint with which it
is reached, so what node `k` gains is passed from final adjoints. -/
theorem getD_foldl_pass {t : Tape F} (hwf : t.WellFormed) {m : ℕ} (hm : m ≤ t.size)
    {adjoints : Array F} (hsize : adjoints.size = t.size) (k : ℕ) :
    ((List.range m).reverse.foldl t.pass adjoints).getD k 0 = adjoints.getD k 0 +
      ∑ i ∈ range m,
        passed (t.edges i) k (((List.range m).reverse.foldl t.pass adjoints).getD i 0) := by
  induction m generalizing adjoints k with
  | zero => simp
  | succ m ih =>
    have hm' : m < t.size := hm
    have hsize' : (t.pass adjoints m).size = t.size := (size_pass t adjoints m).trans hsize
    -- Nodes before `m` pass nothing to `m`, which therefore keeps its adjoint.
    have hfinal : ((List.range m).reverse.foldl t.pass (t.pass adjoints m)).getD m 0 =
        adjoints.getD m 0 := by
      rw [ih hm'.le hsize', getD_pass hwf hm' hsize, passed_of_le (hwf.older m hm') (le_refl m),
        add_zero, Finset.sum_eq_zero, add_zero]
      intro i hi
      have hi : i < m := Finset.mem_range.mp hi
      exact passed_of_le (hwf.older i (hi.trans hm')) hi.le _
    rw [foldl_reverse_range_succ, sum_range_succ, hfinal, ih hm'.le hsize' k,
      getD_pass hwf hm' hsize]
    ring

theorem balanced_fullSweep {t : Tape F} (hwf : t.WellFormed) {seeds : List (Handle F × F)}
    (hlive : ∀ e ∈ seeds, t.Live e.1) :
    Balanced t.records seeds (t.fullSweep (t.seedAdjoints seeds)).toList := by
  have hsize : (t.fullSweep (t.seedAdjoints seeds)).size = t.size :=
    (size_fullSweep t _).trans (size_seedAdjoints t seeds)
  have hget : ∀ (adjoints : Array F) k, adjoints.toList.getD k 0 = adjoints.getD k 0 := by
    intro adjoints k
    rw [Array.getD_eq_getD_getElem?, List.getD_eq_getElem?_getD, Array.getElem?_toList]
  refine ⟨hsize.trans t.length_records.symm, fun k _ => ?_⟩
  rw [length_records, Finset.sum_congr rfl fun i hi => by
    rw [t.edgesAt_records (Finset.mem_range.mp hi)]]
  simp only [hget]
  unfold fullSweep
  rw [getD_foldl_pass hwf (le_refl _) (size_seedAdjoints t seeds), getD_seedAdjoints hlive]

theorem pass_of_zero {t : Tape F} {adjoints : Array F} {i : ℕ} (hzero : adjoints.getD i 0 = 0) :
    t.pass adjoints i = adjoints := by
  simp only [pass, hzero]
  induction t.edges i with
  | nil => rfl
  | cons e es ih =>
    have hhead : adjoints.modify e.1 (· + e.2 * 0) = adjoints := by
      refine Array.ext Array.size_modify fun j hj hj' => ?_
      simp [Array.getElem_modify]
    rw [List.foldl_cons]
    simp only [hhead]
    exact ih

variable [Functions F] [ExactRing F]

theorem propagate_eq_pass (t : Tape F) : t.propagate = t.pass := by
  funext adjoints i
  simp only [propagate]
  split
  · rename_i hzero
    exact (pass_of_zero ((ExactRing.eq_iff _ _).mp hzero)).symm
  · rfl

theorem sweep_eq_fullSweep (t : Tape F) : t.sweep = t.fullSweep := by
  funext adjoints
  unfold sweep fullSweep
  rw [propagate_eq_pass]
  rfl

theorem balanced_adjointsFrom {t : Tape F} (hwf : t.WellFormed) {seeds : List (Handle F × F)}
    (hlive : ∀ e ∈ seeds, t.Live e.1) : Balanced t.records seeds (t.adjointsFrom seeds).toList := by
  rw [adjointsFrom, sweep_eq_fullSweep]
  exact balanced_fullSweep hwf hlive

theorem adjointsFrom_combine {t : Tape F} (hwf : t.WellFormed) {seeds seeds' : List (Handle F × F)}
    (hlive : ∀ e ∈ seeds, t.Live e.1) (hlive' : ∀ e ∈ seeds', t.Live e.1) (c c' : F) :
    (t.adjointsFrom (scaleSeeds c seeds ++ scaleSeeds c' seeds')).toList =
      List.zipWith (fun a a' => c * a + c' * a') (t.adjointsFrom seeds).toList
        (t.adjointsFrom seeds').toList := by
  have hboth := live_combined hlive hlive' c c'
  have h := balanced_adjointsFrom hwf hlive
  have h' := balanced_adjointsFrom hwf hlive'
  exact (h.combine h' c c').unique hwf.edgesAt_older (balanced_adjointsFrom hwf hboth)

end Tape

variable [Div F] [Functions F]

/-- The sweep from `seeds` returns `adj`. If the spans show all operands that were recorded, this is
the solution of the adjoint equations. -/
structure Solves (log : List (Exchange F)) (s : Recorder F) (seeds : List (Handle F × F))
    (adj : List F) : Prop where
  returns : Recording.backwardFrom seeds s = (.ok adj, s.withAdjoints adj.toArray)
  length : adj.length = s.tape.size
  balanced : operandCount (recorded log) < 2 ^ 32 → Balanced (recorded log) seeds adj
  unique : operandCount (recorded log) < 2 ^ 32 →
    ∀ adj', Balanced (recorded log) seeds adj' → adj' = adj
  unskipped : (s.tape.fullSweep (s.tape.seedAdjoints seeds)).toList = adj
  linear : ∀ seeds' : List (Handle F × F), (∀ e ∈ seeds', s.tape.Live e.1) →
    ∃ adj', (Recording.backwardFrom seeds' s).1 = .ok adj' ∧ ∀ c c',
      (Recording.backwardFrom (scaleSeeds c seeds ++ scaleSeeds c' seeds') s).1 =
        .ok (List.zipWith (fun a a' => c * a + c' * a') adj adj')
  /-- Whatever earlier sweeps have left, even one that failed, it is forgotten. -/
  fresh : ∀ adjoints : Array F,
    (Recording.backwardFrom seeds (s.withAdjoints adjoints)).1 = .ok adj

/-- On a tape that has answered any requests, earlier sweeps among them, a sweep solves the adjoint
equations if fewer than `2 ^ 32` operands were recorded. -/
theorem sweep_solves [ExactRing F] {limit : Option ℕ} {log : List (Exchange F)} {s : Recorder F}
    (h : Serves (.start limit) log s) {seeds : List (Handle F × F)}
    (hlive : ∀ e ∈ seeds, s.tape.Live e.1) : ∃ adj, Solves log s seeds adj := by
  have hwf : s.tape.WellFormed := h.wellFormed
  have hbalanced : Balanced s.tape.records seeds (s.tape.adjointsFrom seeds).toList :=
    Tape.balanced_adjointsFrom hwf hlive
  -- With few enough operands the nodes show what was recorded.
  have hrecords : operandCount (recorded log) < 2 ^ 32 → recorded log = s.tape.records :=
    fun hfew => (h.madeOf.records_eq hfew).symm
  refine ⟨(s.tape.adjointsFrom seeds).toList, ?_⟩
  constructor
  case returns => exact Recording.backwardFrom_of_live hlive
  case length => exact Tape.size_adjointsFrom s.tape seeds
  case balanced =>
    intro hfew
    rw [hrecords hfew]
    exact hbalanced
  case unique =>
    intro hfew adj' h'
    rw [hrecords hfew] at h'
    exact hbalanced.unique hwf.edgesAt_older h'
  case unskipped => rw [Tape.adjointsFrom, Tape.sweep_eq_fullSweep]
  case linear =>
    intro seeds' hlive'
    refine ⟨(s.tape.adjointsFrom seeds').toList, ?_, fun c c' => ?_⟩
    · rw [Recording.backwardFrom_of_live hlive']
    · have hboth := live_combined hlive hlive' c c'
      rw [Recording.backwardFrom_of_live hboth, Tape.adjointsFrom_combine hwf hlive hlive']
  case fresh =>
    intro adjoints
    have hlive' : ∀ e ∈ seeds, (s.withAdjoints adjoints).tape.Live e.1 := hlive
    rw [Recording.backwardFrom_of_live hlive']
    rfl

def squareLog : List (Exchange ℚ) :=
  [(.input 3, .ok (.handle ⟨3, some 0, 0⟩)),
    (.binary .mul ⟨3, some 0, 0⟩ 3 ⟨3, some 0, 0⟩ 3 9, .ok (.handle ⟨9, some 1, 0⟩)),
    (.backward ⟨9, some 1, 0⟩, .ok (.adjoints [6, 1]))]

def squareRecorder : Recorder ℚ where
  tape :=
    { nodes := #[⟨.input, 3, 0⟩, ⟨.mul, 9, 2⟩]
      operands := #[0, 0]
      partials := #[3, 3] }

def squareSeeds : List (Handle ℚ × ℚ) :=
  [(⟨9, some 1, 0⟩, 1), (.constant 5, 7), (⟨9, some 1, 0⟩, 1), (⟨3, some 0, 0⟩, 4)]

theorem live_square (value : ℚ) {i : ℕ} (hi : i < 2) :
    squareRecorder.tape.Live ⟨value, some i, 0⟩ := by
  intro j hj
  cases hj
  exact ⟨rfl, hi⟩

theorem serves_squareLog :
    Serves (.start none) squareLog (squareRecorder.swept [(⟨9, some 1, 0⟩, 1)]) := by
  have hadjoints : (squareRecorder.tape.adjointsFrom [(⟨9, some 1, 0⟩, 1)]).toList = [6, 1] := by
    decide +kernel
  have hsweep := Request.perform_backward (live_square 9 (i := 1) (by decide))
  rw [hadjoints] at hsweep
  exact .answered rfl <| .answered (rfl : _ = (_, squareRecorder)) <| .answered hsweep <| .nil _

theorem sweep_solves_square :
    ∃ s, Serves (.start none) squareLog s ∧ (∀ e ∈ squareSeeds, s.tape.Live e.1) ∧
      operandCount (recorded squareLog) < 2 ^ 32 ∧
      ∃ adj, Solves squareLog s squareSeeds adj ∧ adj = [16, 2] := by
  have hlive : ∀ e ∈ squareSeeds,
      (squareRecorder.swept [(⟨9, some 1, 0⟩, 1)]).tape.Live e.1 := by
    have hroot := live_square 3 (i := 0) (by decide)
    have hsquare := live_square 9 (i := 1) (by decide)
    have hconstant : squareRecorder.tape.Live (.constant 5) := Tape.live_constant _ 5
    exact List.forall_mem_cons.mpr ⟨hsquare, List.forall_mem_cons.mpr ⟨hconstant,
      List.forall_mem_cons.mpr ⟨hsquare, List.forall_mem_singleton.mpr hroot⟩⟩⟩
  obtain ⟨adj, hadj⟩ := sweep_solves serves_squareLog hlive
  refine ⟨_, serves_squareLog, hlive, by decide, adj, hadj, hadj.unskipped.symm.trans ?_⟩
  decide +kernel

theorem wide_sweep {n : ℕ} (hn : n % 2 ^ 32 = 0) (hpos : 0 < n) :
    (Recording.backwardFrom [(wideOutput n, 1)] (wideRecorder n)).1 = .ok [0, 1] ∧
      ¬ Balanced (recorded (wideLog n)) [(wideOutput n, 1)] [0, 1] := by
  refine ⟨?_, fun hbalanced => ?_⟩
  · have hbare : ∀ i, i < (wideRecorder n).tape.size → (wideRecorder n).tape.edges i = [] :=
      fun _ => edges_wideRecorder hn
    have hseeds : (wideRecorder n).tape.seedAdjoints [(wideOutput n, 1)] = #[0, 1] := by
      change (Array.replicate 2 (0 : ℚ)).modify 1 (· + 1) = #[0, 1]
      decide +kernel
    rw [Recording.backwardFrom_of_live (List.forall_mem_singleton.mpr (live_wideOutput n)),
      Tape.adjointsFrom_bare hbare, hseeds]
  · have hedges : edgesAt (recorded (wideLog n)) 1 = .replicate n (0, 1) := by
      rw [← Tape.liveEdges_replicate, ← List.map_replicate (f := Handle.node)
        (a := (⟨3, some 0, 0⟩ : Handle ℚ))]
      rfl
    have hlength : (recorded (wideLog n)).length = 2 := rfl
    have hroot := hbalanced.balance 0 (hlength ▸ Nat.zero_lt_two)
    rw [hlength, sum_range_succ, Finset.sum_range_one, hedges] at hroot
    have hzero : (0 : ℚ) = n := by
      simpa [seedAt, passed, wideOutput, List.filter_replicate] using hroot
    exact hpos.ne (Nat.cast_injective hzero)

/-- A node with `2 ^ 32` operands passes nothing on to them. -/
theorem wide_sweep_stops :
    ∃ s, Serves (.start none) (wideLog (2 ^ 32)) s ∧ s.tape.Live (wideOutput (2 ^ 32)) ∧
      (Recording.backwardFrom [(wideOutput (2 ^ 32), 1)] s).1 = .ok [0, 1] ∧
      ¬ Balanced (recorded (wideLog (2 ^ 32))) [(wideOutput (2 ^ 32), 1)] [0, 1] :=
  ⟨_, serves_wideLog (by decide), live_wideOutput _, wide_sweep (by decide) (by decide)⟩

end Autodiff
