import Mathlib
import Autodiff.Gradient.Evaluator
import Autodiff.Proofs.Gradient.Trace
import Autodiff.Proofs.Program.Carried

set_option autoImplicit false

namespace Autodiff

open Finset (range)
open Interpretation (forward recording)
open Recording (Mirrors begun)

variable {F α β : Type} [Field F] [Functions F]

omit [Functions F] in
theorem carries_begun (s : Recorder F) (x : List F) (v : ℕ → F) :
    (begun s x).tape.Carries x.length v where
  inputs_le := Nat.le_of_eq Recording.size_begun.symm
  bare i hi := Recording.edges_begun hi
  linked i hn hi := by
    rw [Recording.size_begun] at hi
    omega

omit [Functions F] in
theorem carried_inputs {s : Recorder F} {x : List F} (hx : x.length ≤ s.tape.bound) (v : ℕ → F) :
    List.Forall₂ (Worlds.Carried ⟨(begun s x, v), Recording.open_begun hx, fun _ => carries_begun s x v⟩)
      (Dual.inputs x v) (Handle.inputs (s.tape.epoch + 1) 0 x) := by
  have hlen : (Dual.inputs x v).length = x.length := List.length_mapIdx
  refine Recording.forall₂_begun hlen fun i _ hi => ?_
  simp only [Dual.inputs, List.getElem_mapIdx]
  exact ⟨rfl, Recording.live_inputs hi _, fun _ => rfl⟩

/-- What a tape knows about a run on dual numbers along `v`. -/
structure Recorder.Carries (s : Recorder F) (n : ℕ) (v : ℕ → F) (ds : List (Dual F))
    (hs : List (Handle F)) (τ : ℕ → F) : Prop where
  isOpen : s.tape.Open
  inputs_le : n ≤ s.tape.size
  carries : s.tape.Addressable → s.tape.Carries n τ
  inputs : ∀ i, i < n → τ i = v i
  values : ds.map Dual.value = hs.map Handle.value
  tangents : ds.map Dual.tangent = hs.map (Tape.tangentAt τ)
  live : ∀ h ∈ hs, s.tape.Live h

omit [Functions F] in
theorem carries_of_carried {s : Recorder F} {x : List F} (hx : x.length ≤ s.tape.bound) (v : ℕ → F)
    {w : (Worlds.carried F x.length).World}
    (hw : ⟨(begun s x, v), Recording.open_begun hx, fun _ => carries_begun s x v⟩ ≤ w)
    (hex : w.1.1.tape.exhausted = false) {ds : List (Dual F)} {hs : List (Handle F)}
    (h : List.Forall₂ (Worlds.Carried w) ds hs) :
    w.1.1.Carries x.length v ds hs w.1.2 where
  isOpen := w.2.1
  inputs_le := Recording.size_begun.symm.trans_le hw.1.size_le
  carries := w.2.2
  inputs i hi := hw.2 i (Recording.size_begun.symm ▸ hi)
  values := map_eq_of_forall₂ h fun _ _ hd => hd.value
  tangents := Worlds.map_tangent_of_carried h hex
  live := forall_right_of_forall₂ h fun _ _ hd => hd.live

omit [Functions F] in
theorem dot_take (a : Array F) {n : ℕ} (hn : n ≤ a.size) (v : List F) :
    dot (a.toList.take n) v = ∑ j ∈ range n, a.getD j 0 * v.getD j 0 := by
  have hlen : (a.toList.take n).length = n := by
    rw [List.length_take, Array.length_toList, Nat.min_eq_left hn]
  rw [dot_eq_sum, hlen]
  refine Finset.sum_congr rfl fun j hj => ?_
  have hj : j < n := Finset.mem_range.mp hj
  have hja : j < a.size := by omega
  simp [Array.getD, hj, hja]

omit [Functions F] in
theorem dot_range (f : ℕ → F) (n : ℕ) (v : List F) :
    dot ((List.range n).map f) v = ∑ j ∈ range n, f j * v.getD j 0 := by
  rw [dot_eq_sum, List.length_map, List.length_range]
  refine Finset.sum_congr rfl fun j hj => ?_
  have hj : j < n := Finset.mem_range.mp hj
  simp [hj]

omit [Functions F] in
theorem sum_seeds (g : Handle F → F) (hs : List (Handle F)) (w : List F) :
    ((hs.zip w).map fun e => e.2 * g e.1).sum = dot w (hs.map g) := by
  induction hs generalizing w with
  | nil => cases w <;> rfl
  | cons h hs ih =>
    cases w with
    | nil => rfl
    | cons c w => rw [List.zip_cons_cons, List.map_cons, List.sum_cons, ih, List.map_cons, dot_cons]

/-- What the sweep returns is, paired with the direction, what the seeds make of the tangents. -/
theorem dot_adjoints [ExactField F] {s : Recorder F} {n : ℕ} {v : List F} {ds : List (Dual F)}
    {hs : List (Handle F)} {τ : ℕ → F} (h : s.Carries n (v.getD · 0) ds hs τ)
    (haddr : s.tape.Addressable) (w : List F) :
    dot ((s.tape.adjointsFrom (hs.zip w)).toList.take n) v = dot w (ds.map Dual.tangent) := by
  have hsize : n ≤ (s.tape.adjointsFrom (hs.zip w)).size := by
    rw [Tape.size_adjointsFrom]
    exact h.inputs_le
  have hlive : ∀ e ∈ hs.zip w, s.tape.Live e.1 := fun e he => h.live _ (List.of_mem_zip he).1
  have hpairing := Tape.pairing_adjointsFrom h.isOpen.toWellFormed (h.carries haddr) hlive
  calc
    dot ((s.tape.adjointsFrom (hs.zip w)).toList.take n) v
        = ∑ j ∈ range n, (s.tape.adjointsFrom (hs.zip w)).getD j 0 * v.getD j 0 :=
      dot_take _ hsize v
    _ = Tape.pairing τ (s.tape.adjointsFrom (hs.zip w)) n :=
      Finset.sum_congr rfl fun j hj => by rw [h.inputs j (Finset.mem_range.mp hj)]
    _ = dot w (hs.map (Tape.tangentAt τ)) := hpairing.trans (sum_seeds _ _ _)
    _ = dot w (ds.map Dual.tangent) := by rw [h.tangents]

theorem carried_epoch [ExactField F] {s : Recorder F} {x : List F} (v : ℕ → F)
    {Q : (Worlds.carried F x.length).World → α → β → Prop} {r : Outcome F α}
    {f : List (Handle F) → Recording F β}
    (h : ∀ w hs, List.Forall₂ (Worlds.Carried w) (Dual.inputs x v) hs →
      (Worlds.carried F x.length).Agree Q w r (f hs)) :
    Mirrors (fun s' a b => ∃ (hx : x.length ≤ s.tape.bound) (w : (Worlds.carried F x.length).World),
      ⟨(begun s x, v), Recording.open_begun hx, fun _ => carries_begun s x v⟩ ≤ w ∧ w.1.1 = s' ∧
        w.1.1.tape.exhausted = false ∧ Q w a b) s.tape r (Recording.epoch f x s) := by
  refine (Recording.epoch_mirrors (Q := Q) Worlds.recorded_carried
    (fun hx => ⟨(begun s x, v), Recording.open_begun hx, fun _ => carries_begun s x v⟩) (fun _ => rfl)
      fun hx => h _ _ (carried_inputs hx v)).mono fun s' a b hex hab => ?_
  obtain ⟨hx, w, hle, rfl, hq⟩ := hab
  exact ⟨hx, w, hle, rfl, hex, hq⟩

namespace Recording

theorem vjp_of_forward [ExactField F] {p : Program F} {s : Recorder F} {x v w : List F}
    {ds : List (Dual F)} (hds : p.run forward (Dual.inputs x (v.getD · 0)) = .ok ds)
    (hw : ds.length = w.length) :
    (∃ s', vjp (p.run recording) x w s = (.error (.error (.exhausted s'.tape.capacity)), s') ∧
      s'.Spent s.tape) ∨
    ∃ s' g, vjp (p.run recording) x w s = (.ok (ds.map Dual.value, g), s') ∧
      g.length = x.length ∧ (p.operandCount x < 2 ^ 32 → dot g v = dot w (ds.map Dual.tangent)) := by
  have hepoch : Mirrors (fun s' ds hs => (p.operandCount x < 2 ^ 32 → s'.tape.Addressable) ∧
      ∃ τ, s'.Carries x.length (v.getD · 0) ds hs τ) s.tape
      (.ok ds) (epoch (p.run recording) x s) := by
    rw [← hds]
    refine ((carried_epoch (v.getD · 0) (Q := fun w => List.Forall₂ (Worlds.Carried w))
      fun w hs h => (Simulation.forwardRecording x.length).run p h).mono
        fun s' ds hs _ h => ?_).and_state fun hfew => p.addressable_run hfew s
    obtain ⟨hx, w, hle, rfl, hex, hrel⟩ := h
    exact ⟨w.1.2, carries_of_carried hx _ hle hex hrel⟩
  have hvjp := vjp_mirrors (w := w) hepoch
    (fun s' ds hs ⟨_, τ, h⟩ => by simpa using congrArg List.length h.values)
    fun s' ds hs ⟨_, τ, h⟩ => h.live
  have hplain : ((.ok ds : Outcome F (List (Dual F))) >>= fun as =>
      if as.length ≠ w.length then .error (.fault .weightLength) else pure as) = .ok ds :=
    if_neg (not_not.mpr hw)
  rw [hplain] at hvjp
  rcases hrun : vjp (p.run recording) x w s with ⟨r, s'⟩
  rw [hrun] at hvjp
  cases hvjp with
  | same _ hrel =>
    obtain ⟨g, rfl, -, s₁, hs, ⟨haddr, τ, h⟩, rfl, rfl⟩ := hrel.ok_left
    refine .inr ⟨_, _, congrArg (fun ys => (Except.ok (ys, _), _)) h.values.symm, ?_, fun hfew => ?_⟩
    · exact Tape.length_take_adjointsFrom _ _ h.inputs_le
    · exact dot_adjoints h (haddr hfew) w
  | refused hs => exact .inl ⟨s', rfl, hs⟩
  | fault _ h => cases h

theorem valueGradient_of_forward [ExactField F] {p : Program F} {s : Recorder F} {x v : List F}
    {d : Dual F} (hd : p.runScalar forward (Dual.inputs x (v.getD · 0)) = .ok d) :
    (∃ s', p.recordGradient x s = (.error (.error (.exhausted s'.tape.capacity)), s') ∧
      s'.Spent s.tape) ∨
    ∃ s' g, p.recordGradient x s = (.ok (d.value, g), s') ∧ g.length = x.length ∧
      (p.operandCount x < 2 ^ 32 → dot g v = d.tangent) := by
  have hepoch : Mirrors (fun s' d h => (p.operandCount x < 2 ^ 32 → s'.tape.Addressable) ∧
      ∃ τ, s'.Carries x.length (v.getD · 0) [d] [h] τ) s.tape
      (.ok d) (epoch (p.runScalar recording) x s) := by
    rw [← hd]
    refine ((carried_epoch (v.getD · 0) (Q := Worlds.Carried)
      fun w hs h => (Simulation.forwardRecording x.length).runScalar p h).mono
        fun s' d h _ hrel => ?_).and_state fun hfew => p.addressable_runScalar hfew s
    obtain ⟨hx, w, hle, rfl, hex, hrel⟩ := hrel
    exact ⟨w.1.2, carries_of_carried hx _ hle hex (.cons hrel .nil)⟩
  have hgradient := valueGradient_mirrors hepoch fun s' d h ⟨_, τ, hc⟩ =>
    hc.live h (List.mem_singleton_self h)
  rcases hrun : p.recordGradient x s with ⟨r, s'⟩
  change Mirrors _ _ _ (p.recordGradient x s) at hgradient
  rw [hrun] at hgradient
  cases hgradient with
  | same _ hrel =>
    obtain ⟨g, rfl, s₁, h, ⟨haddr, τ, hc⟩, rfl, rfl⟩ := hrel.ok_left
    have hvalue : d.value = h.value := (List.cons.inj hc.values).1
    refine .inr ⟨_, _, by rw [hvalue], ?_, fun hfew => ?_⟩
    · exact Tape.length_take_adjointsFrom _ _ hc.inputs_le
    · have hdual := dot_adjoints hc (haddr hfew) [1]
      rw [List.map_cons, List.map_nil, dot_cons, dot_nil, one_mul, add_zero] at hdual
      exact hdual
  | refused hs => exact .inl ⟨s', rfl, hs⟩
  | fault _ h => cases h

end Recording

omit [Functions F] in
theorem eq_of_dot {a b : List F} (hlen : a.length = b.length) (h : ∀ v, dot a v = dot b v) :
    a = b := by
  refine List.ext_getElem hlen fun j hj hj' => ?_
  have hunit : ∀ u : List F, (hu : j < u.length) →
      dot u ((List.range u.length).map fun k => if k = j then 1 else 0) = u[j] := by
    intro u hu
    rw [dot_eq_sum, Finset.sum_eq_single j]
    · simp [hu]
    · intro k hk hkj
      have hk : k < u.length := Finset.mem_range.mp hk
      simp [hk, hkj]
    · intro hmem
      exact absurd (Finset.mem_range.mpr hu) hmem
  rw [← hunit a hj, h, hlen, hunit b hj']

omit [Functions F] in
theorem Program.runScalar_of_run {S : Type} {I : Interpretation F S (Outcome F)} {p : Program F}
    {xs : List S} {y : S} {ys : List S} (h : p.run I xs = .ok (y :: ys)) :
    p.runScalar I xs = .ok y := by
  unfold Program.runScalar
  rw [h]
  rfl

omit [Field F] [Functions F] in
theorem Recorder.Spent.capacity_eq {t : Tape F} {s : Recorder F} (h : s.Spent t)
    (ht : t.limit = none) : s.tape.capacity = Handle.noNode.toNat := by
  rw [Tape.capacity_of_none (h.limit.trans ht), h.size, Tape.bound_of_none ht]

theorem Evaluator.result_evaluate (e : Evaluator F) {x : List F}
    (hx : x.length = e.target.dim) :
    (e.evaluate x).result = (e.target.density.recordGradient x { tape := e.tape }).1 := by
  unfold Evaluator.evaluate
  rw [if_neg (not_not.mpr hx)]
  have hrun : (e.target.density.recordGradient x).run.run { tape := e.tape } =
      e.target.density.recordGradient x { tape := e.tape } := rfl
  simp only [hrun]
  rcases e.target.density.recordGradient x { tape := e.tape } with ⟨result, recorder⟩
  cases result with
  | ok y => rfl
  | error failure => cases failure <;> rfl

theorem Recording.valueGradient_of_slopes [ExactField F] {p : Program F} {s : Recorder F}
    {x : List F} {g : Jet F} {gs : List (Jet F)}
    (h : p.run Interpretation.slopes (Jet.inputs x) = .ok (g :: gs)) :
    (∃ s', p.recordGradient x s = (.error (.error (.exhausted s'.tape.capacity)), s') ∧
      s'.Spent s.tape) ∨
    ∃ s' a, p.recordGradient x s = (.ok (g.value, a), s') ∧ a.length = x.length ∧
      (p.operandCount x < 2 ^ 32 → a = (List.range x.length).map g.slope) := by
  have hforward : ∀ v, p.runScalar forward (Dual.inputs x v) = .ok (g.along x.length v) :=
    fun v => Program.runScalar_of_run (Program.run_forward_of_slopes h v)
  have hrun := fun v : List F => valueGradient_of_forward (s := s) (hforward (v.getD · 0))
  rcases hrun [] with hspent | ⟨s', a, ha, hlen, -⟩
  · exact .inl hspent
  · refine .inr ⟨s', a, ha, hlen, fun hfew => eq_of_dot (by simp [hlen]) fun v => ?_⟩
    rw [dot_range]
    rcases hrun v with ⟨s'', hs, -⟩ | ⟨s'', b, hb, -, hdot⟩
    · rw [ha] at hs
      cases hs
    · rw [ha] at hb
      cases hb
      exact hdot hfew

/-- What the operations return at a point with outputs `ys`: tangents `ts` along `v`, the Jacobian
`rows`, and the product of the weights `w` with it. A reverse run fails only on a tape that is
spent: one without limit holds `noNode` nodes then. With `2 ^ 32` operands or more only the values
of a reverse run are right. -/
structure DerivativesAgree (p : Program F) (x v w ys ts : List F) (rows : List (List F)) :
    Prop where
  jvp : p.jvp x v = .ok (ys, ts)
  jacobian : p.jacobian x = .ok (ys, rows)
  shape : ts.length = ys.length ∧ rows.length = ys.length ∧ ∀ row ∈ rows, row.length = x.length
  forward : dot w ts = dot w (rows.map fun row => dot row v)
  reverse : p.vjp x w = .error (.error (.exhausted Handle.noNode.toNat)) ∧
      (Recording.vjp (p.run recording) x w { tape := .empty }).2.Spent .empty ∨
    ∃ g, p.vjp x w = .ok (ys, g) ∧ g.length = x.length ∧
      (p.operandCount x < 2 ^ 32 → dot g v = dot w ts)
  gradient : ∀ y ys', ys = y :: ys' → ∃ row rows', rows = row :: rows' ∧
    (p.valueGradient x = .error (.error (.exhausted Handle.noNode.toNat)) ∧
        (p.recordGradient x { tape := .empty }).2.Spent .empty ∨
      ∃ g, p.valueGradient x = .ok (y, g) ∧ g.length = x.length ∧
        (p.operandCount x < 2 ^ 32 → g = row)) ∧
    ∀ e : Evaluator F, e.target = ⟨x.length, p⟩ →
      ((∃ c, (e.evaluate x).result = .error (.error (.exhausted c))) ∧
          (p.recordGradient x { tape := e.tape }).2.Spent e.tape ∨
        ∃ g, (e.evaluate x).result = .ok (y, g) ∧ g.length = x.length ∧
          (p.operandCount x < 2 ^ 32 → g = row)) ∧
      e.directional x v = .ok (y, dot row v)

/-- Wherever a program succeeds, all derivatives of it are those of one linear map, provided that it
records fewer than `2 ^ 32` operands. -/
theorem derivatives_agree [ExactField F] (p : Program F) (x v w ys : List F)
    (hys : p.values x = .ok ys) (hv : v.length = x.length) (hw : w.length = ys.length) :
    ∃ ts rows, DerivativesAgree p x v w ys ts rows := by
  -- One run with all gradients gives the linear map; every operation is read off it.
  obtain ⟨gs, hgs, rfl⟩ := Program.slopes_of_values hys
  refine ⟨_, _, Program.jvp_of_slopes hv hgs, Program.jacobian_of_slopes hgs, ?_, ?_, ?_, ?_⟩
  · refine ⟨by simp, by simp, fun row hrow => ?_⟩
    obtain ⟨g, -, rfl⟩ := List.mem_map.mp hrow
    simp
  · rw [List.map_map]
    refine congrArg (dot w) (List.map_congr_left fun g _ => ?_)
    exact (dot_range g.slope x.length v).symm
  · have hds := Program.run_forward_of_slopes hgs (v.getD · 0)
    have hlen : (gs.map (Jet.along x.length (v.getD · 0))).length = w.length := by simp [hw]
    rcases Recording.vjp_of_forward (s := { tape := .empty }) hds hlen with
      ⟨s', hrun, hs⟩ | ⟨s', g, hrun, hg, hdot⟩
    · refine .inl ⟨?_, ?_⟩
      · rw [← hs.capacity_eq rfl]
        exact congrArg Prod.fst hrun
      · rw [hrun]
        exact hs
    · refine .inr ⟨g, (congrArg Prod.fst hrun).trans ?_, hg, fun hfew => (hdot hfew).trans ?_⟩
      · rw [List.map_map]
        rfl
      · rw [List.map_map]
        rfl
  · intro y ys' hcons
    obtain ⟨g, gs', rfl, rfl, rfl⟩ := List.map_eq_cons_iff.mp hcons
    refine ⟨_, _, rfl, ?_, fun e he => ⟨?_, ?_⟩⟩
    · rcases Recording.valueGradient_of_slopes (s := { tape := .empty }) hgs with
        ⟨s', hrun, hs⟩ | ⟨s', a, hrun, ha⟩
      · refine .inl ⟨?_, ?_⟩
        · rw [← hs.capacity_eq rfl]
          exact congrArg Prod.fst hrun
        · rw [hrun]
          exact hs
      · exact .inr ⟨a, congrArg Prod.fst hrun, ha⟩
    · rw [e.result_evaluate (by rw [he]), he]
      rcases Recording.valueGradient_of_slopes (s := { tape := e.tape }) hgs with
        ⟨s', hrun, hs⟩ | ⟨s', a, hrun, ha⟩
      · refine .inl ⟨⟨_, congrArg Prod.fst hrun⟩, ?_⟩
        rw [hrun]
        exact hs
      · exact .inr ⟨a, congrArg Prod.fst hrun, ha⟩
    · have hrun := Program.runScalar_of_run (Program.run_forward_of_slopes hgs (v.getD · 0))
      unfold Evaluator.directional
      rw [if_neg (not_not.mpr hv.symm), he, zipWith_eq_inputs hv]
      change (p.runScalar forward _ >>= _ : Outcome F (F × F)) = _
      rw [hrun, dot_range]
      rfl

def sharedProduct : Program ℚ where
  steps := [.mul 0 1, .add 2 0]
  outputs := some [3, 2]

theorem derivatives_agree_sharedProduct :
    sharedProduct.values [2, 3] = .ok [2 * 3 + 2, 2 * 3] ∧ sharedProduct.operandCount [2, 3] = 4 ∧
      ∃ ts rows,
        DerivativesAgree sharedProduct [2, 3] [1, 1] [5, 7] [2 * 3 + 2, 2 * 3] ts rows :=
  ⟨rfl, rfl, derivatives_agree sharedProduct [2, 3] [1, 1] [5, 7] _ rfl rfl rfl⟩

theorem wide_derivatives {n : ℕ} (hn : n % 2 ^ 32 = 0) (hpos : 0 < n) :
    (wideTotal n).values [3] = .ok [n * 3] ∧ (wideTotal n).jvp [3] [1] = .ok ([n * 3], [n]) ∧
      (wideTotal n).vjp [3] [1] = .ok ([n * 3], [0]) := by
  refine ⟨?_, ?_, ?_⟩
  · unfold Program.values
    rw [run_wideTotal nodal_plain fun _ => rfl]
    rfl
  · change ((wideTotal n).run forward [⟨3, 1⟩] >>= fun ys =>
      pure (ys.map Dual.value, ys.map Dual.tangent) : Outcome ℚ _) = _
    rw [run_wideTotal nodal_forward fun _ => rfl, tangentRule, List.map_replicate, dot_replicate,
      mul_one, mul_one]
    rfl
  · have hbare : ∀ i, i < (wideRun n).tape.size → (wideRun n).tape.edges i = [] :=
      fun _ => edges_wideRun hn
    have hseeds : (wideRun n).tape.seedAdjoints [(wideSum n, 1)] = #[0, 1] := by
      change (Array.replicate 2 (0 : ℚ)).modify 1 (· + 1) = #[0, 1]
      decide +kernel
    refine (congrArg Prod.fst (vjp_wideTotal hpos)).trans ?_
    rw [Tape.adjointsFrom_bare hbare, hseeds]
    rfl

/-- A sum of `2 ^ 32` equal operands grows `2 ^ 32` times as fast as each of them. In reverse mode
it does not grow at all. -/
theorem wide_derivatives_disagree :
    (wideTotal (2 ^ 32)).values [3] = .ok [2 ^ 32 * 3] ∧
      (wideTotal (2 ^ 32)).jvp [3] [1] = .ok ([2 ^ 32 * 3], [2 ^ 32]) ∧
      (wideTotal (2 ^ 32)).vjp [3] [1] = .ok ([2 ^ 32 * 3], [0]) := by
  have hwide := wide_derivatives (n := 2 ^ 32) (by decide) (by decide)
  rwa [Nat.cast_pow, Nat.cast_ofNat] at hwide

end Autodiff
