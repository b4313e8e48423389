import Mathlib
import Autodiff.Primitive.Catalog
import Autodiff.Proofs.Matrix.Pointwise
import Autodiff.Proofs.Number.Exact
import Autodiff.Proofs.Tape.Growth
import Autodiff.Proofs.Tape.Records

set_option autoImplicit false

namespace Autodiff

variable {F : Type}

namespace Tape

def room (t : Tape F) : ℕ := t.bound - t.size

/-- Handles on results that are recorded one after another: nodes up to the bound of the tape, and
constants from there on. -/
def outputs (t : Tape F) (ys : List F) : List (Handle F) :=
  (ys.zipIdx t.size).map fun (y, i) => if i < t.bound then ⟨y, some i, t.epoch⟩ else .constant y

structure Filled (t t' : Tape F) (ys : List F) : Prop extends Initial t t' where
  size : t'.size = t.size + min ys.length t.room
  value : ∀ k (hk : k < ys.length), k < t.room →
    (t'.nodes[t.size + k]?).map Node.value = some ys[k]
  adjoints : t'.adjoints = t.adjoints
  epoch : t'.epoch = t.epoch
  limit : t'.limit = t.limit
  exhausted : t'.exhausted = (t.exhausted || decide (t.room < ys.length))

theorem room_eq_zero {t : Tape F} (h : t.isFull = true) : t.room = 0 :=
  Nat.sub_eq_zero_of_le ((isFull_iff t).mp h)

theorem size_lt_bound {t : Tape F} (h : t.isFull = false) : t.size < t.bound := by
  rw [← Bool.not_eq_true, isFull_iff] at h
  exact not_le.mp h

theorem filled_nil (t : Tape F) : t.Filled t [] where
  toInitial := .refl t
  size := by simp
  value k hk := absurd hk (Nat.not_lt_zero k)
  adjoints := rfl
  epoch := rfl
  limit := rfl
  exhausted := by simp

@[simp]
theorem map_value_outputs (t : Tape F) (ys : List F) :
    (t.outputs ys).map Handle.value = ys := by
  rw [outputs, List.map_map]
  have hvalue : Handle.value ∘ (fun (y, i) =>
      if i < t.bound then (⟨y, some i, t.epoch⟩ : Handle F) else .constant y) = Prod.fst := by
    funext ⟨y, i⟩
    change Handle.value (if i < t.bound then _ else _) = y
    split <;> rfl
  rw [hvalue, List.zipIdx_map_fst]

theorem outputs_of_full {t : Tape F} (h : t.isFull = true) (ys : List F) :
    t.outputs ys = ys.map .constant := by
  have hfull : t.bound ≤ t.size := (isFull_iff t).mp h
  rw [← List.zipIdx_map_fst t.size ys, List.map_map, List.zipIdx_map_fst]
  refine List.map_congr_left fun (y, i) hi => ?_
  have hle : t.size ≤ i := List.le_snd_of_mem_zipIdx hi
  exact if_neg (by omega)

theorem outputs_cons_of_room {t : Tape F} (h : t.isFull = false) (kind : NodeKind)
    (es : List (ℕ × F)) (y : F) (ys : List F) :
    t.outputs (y :: ys) = ⟨y, some t.size, t.epoch⟩ :: (t.push kind es y).outputs ys := by
  have hroom : t.size < t.bound := size_lt_bound h
  rw [outputs, List.zipIdx_cons, List.map_cons, outputs, size_push]
  exact congrArg (· :: _) (if_pos hroom)

namespace Filled

variable {t t' : Tape F} {ys : List F}

theorem of_refused (hfull : t.isFull = true)
    (h : { t with exhausted := true }.Filled t' ys) (y : F) : t.Filled t' (y :: ys) := by
  have hroom : t.room = 0 := room_eq_zero hfull
  have hsame : { t with exhausted := true }.room = t.room := rfl
  have hsize : t'.size = t.size + min ys.length { t with exhausted := true }.room := h.size
  rw [hsame, hroom] at hsize
  refine ⟨⟨h.nodes, h.operands, h.partials⟩, ?_, ?_, h.adjoints, h.epoch, h.limit, ?_⟩
  · rw [hsize, hroom]
    simp
  · intro k _ hk
    omega
  · rw [h.exhausted, hroom]
    simp

theorem of_pushed (hroom : t.isFull = false) {kind : NodeKind} {es : List (ℕ × F)} {y : F}
    (h : (t.push kind es y).Filled t' ys) : t.Filled t' (y :: ys) := by
  have hlt : t.size < t.bound := size_lt_bound hroom
  have hless : (t.push kind es y).room + 1 = t.room := by
    have hbound : (t.push kind es y).bound = t.bound := rfl
    rw [room, room, hbound, size_push]
    omega
  refine ⟨(initial_push t kind es y).trans h.toInitial, ?_, ?_, h.adjoints, h.epoch, h.limit, ?_⟩
  · rw [h.size, size_push, ← hless, List.length_cons]
    omega
  · intro k hk hkroom
    cases k with
    | zero =>
      have hlast : t.size < (t.push kind es y).size := by
        rw [size_push]
        exact Nat.lt_succ_self _
      rw [Nat.add_zero, h.toInitial.getElem?_nodes hlast]
      exact congrArg (Option.map Node.value) Array.getElem?_push_size
    | succ k =>
      have hvalue := h.value k (by simpa using hk) (by omega)
      rwa [size_push, Nat.add_right_comm] at hvalue
  · rw [h.exhausted, ← hless, exhausted_push]
    simp

end Filled

end Tape

/-- What becomes of the results `ys` of an operation on `args` between two states. -/
structure Recorder.Tracked (s s' : Recorder F) (args : List (Handle F)) (ys : List F)
    (outputs : List (Handle F)) : Prop where
  value : outputs.map Handle.value = ys
  constant : (∀ x ∈ args, x.isConstant = true) →
    s' = s ∧ ∀ y ∈ outputs, y.isConstant = true
  filled : (∃ x ∈ args, x.isConstant = false) →
    outputs = s.tape.outputs ys ∧ s.tape.Filled s'.tape ys

namespace Recording

variable {s : Recorder F}

theorem mapM_node_constant (kind : NodeKind) {args : List (Handle F)}
    (hlive : ∀ x ∈ args, s.tape.Live x) (hall : args.all Handle.isConstant = true)
    (results : List (List F × F)) :
    (results.mapM fun r => node kind args r.1 r.2 : Recording F (List (Handle F))) s =
      (.ok (results.map fun r => .constant r.2), s) := by
  induction results with
  | nil => rfl
  | cons r results ih =>
    rw [List.mapM_cons, run_bind, node_constant kind r.1 r.2 hlive hall]
    change (_ >>= _ : Recording F (List (Handle F))) s = _
    rw [run_bind, ih]
    rfl

theorem mapM_node_live (kind : NodeKind) {args : List (Handle F)}
    (hlive : ∀ x ∈ args, s.tape.Live x) (hall : args.all Handle.isConstant = false)
    {results : List (List F × F)} (hlen : ∀ r ∈ results, args.length = r.1.length) :
    ∃ s', (results.mapM fun r => node kind args r.1 r.2 : Recording F (List (Handle F))) s =
        (.ok (s.tape.outputs (results.map Prod.snd)), s') ∧
      s.tape.Filled s'.tape (results.map Prod.snd) := by
  induction results generalizing s with
  | nil => exact ⟨s, rfl, s.tape.filled_nil⟩
  | cons r results ih =>
    obtain ⟨hr, hrest⟩ := List.forall_mem_cons.mp hlen
    rcases node_cases kind r.2 hlive hr with ⟨hconst, -⟩ | ⟨-, hfull, hrun⟩ | ⟨-, hroom, hrun⟩
    · rw [hall] at hconst
      cases hconst
    -- A full tape stays full, so all that follow become constants as well.
    · obtain ⟨s', hmap, hfilled⟩ :=
        ih (s := s.refused) (fun x hx => (s.grows_refused).live (hlive x hx)) hrest
      refine ⟨s', ?_, .of_refused hfull hfilled r.2⟩
      rw [List.mapM_cons, run_bind, hrun]
      change (_ >>= _ : Recording F (List (Handle F))) s.refused = _
      rw [run_bind, hmap, Tape.outputs_of_full hfull, List.map_cons, List.map_cons,
        Tape.outputs_of_full (t := s.refused.tape) hfull]
      rfl
    · obtain ⟨s', hmap, hfilled⟩ :=
        ih (s := s.pushed kind (Tape.liveEdges (args.map Handle.node) r.1) r.2)
          (fun x hx => (Tape.grows_push s.tape _ _ _).live (hlive x hx)) hrest
      refine ⟨s', ?_, .of_pushed hroom hfilled⟩
      rw [List.mapM_cons, run_bind, hrun]
      change (_ >>= _ : Recording F (List (Handle F))) (s.pushed _ _ _) = _
      rw [run_bind, hmap, List.map_cons, Tape.outputs_cons_of_room hroom]
      rfl

theorem mapM_node_tracked (kind : NodeKind) {args : List (Handle F)}
    (hlive : ∀ x ∈ args, s.tape.Live x) (results : List (List F × F))
    (hlen : ∀ r ∈ results, args.length = r.1.length) :
    ∃ outputs s', (results.mapM fun r => node kind args r.1 r.2 : Recording F (List (Handle F))) s =
        (.ok outputs, s') ∧ s.Tracked s' args (results.map Prod.snd) outputs := by
  cases hall : args.all Handle.isConstant with
  | true =>
    refine ⟨_, s, mapM_node_constant kind hlive hall results, ?_, fun _ => ⟨rfl, ?_⟩, ?_⟩
    · rw [List.map_map]
      rfl
    · intro y hy
      obtain ⟨r, -, rfl⟩ := List.mem_map.mp hy
      rfl
    · rintro ⟨x, hx, hfalse⟩
      exact absurd (List.all_eq_true.mp hall x hx) (by simp [hfalse])
  | false =>
    obtain ⟨s', hrun, hfilled⟩ := mapM_node_live kind hlive hall hlen
    refine ⟨_, s', hrun, s.tape.map_value_outputs _, fun hconst => ?_, fun _ => ⟨rfl, hfilled⟩⟩
    exact absurd (List.all_eq_true.mpr hconst) (by simp [hall])

end Recording

theorem Primitive.onTape_eq (p : Primitive F) {args : List (Handle F)}
    (h : args.length = p.arity) :
    ∃ partials : F → List F, (∀ y, args.length = (partials y).length) ∧
      p.onTape args = Recording.ofOutcome (p.eval (args.map Handle.value)) >>= fun y =>
        Recording.node (.primitive p.name) args (partials y) y := by
  let vs : Vector (Handle F) p.arity := ⟨args.toArray, h⟩
  refine ⟨fun y => (p.partials (vs.map Handle.value) y).toList, fun y => by simp [h], ?_⟩
  have hoperands : p.operands args = .ok vs := dif_pos h
  have hvalues : p.operands (args.map Handle.value) = .ok (vs.map Handle.value) := by
    have hlength : (args.map Handle.value).length = p.arity := by rw [List.length_map, h]
    rw [Primitive.operands, dif_pos hlength]
    simp [vs]
  have heval : p.eval (args.map Handle.value) = p.value (vs.map Handle.value) := by
    rw [Primitive.eval, hvalues]
    rfl
  rw [heval, Primitive.onTape, hoperands]
  rfl

namespace Matrix

theorem map_places_get {α : Type} (b : Matrix α) :
    (places b.rows b.cols).map (fun k => b.get k.1 k.2) = b.toList := by
  conv_rhs => rw [← ofFn_get b]
  rw [← map_finRange_places, List.map_map]
  simp [toList, ofFn, List.finRange, List.map_ofFn, Function.comp_def, Vector.toList_ofFn]

theorem shape_ofFnM {α : Type} {rows cols : ℕ} {f : Fin rows → Fin cols → Recording F α}
    {s s' : Recorder F} {c : Matrix α} (h : ofFnM rows cols f s = (.ok c, s')) :
    c.rows = rows ∧ c.cols = cols := by
  unfold ofFnM at h
  rw [run_bind] at h
  split at h
  · obtain ⟨hc, -⟩ := Prod.mk.inj h
    obtain rfl := Except.ok.inj hc
    exact ⟨rfl, rfl⟩
  · cases h

theorem ofFnM_of_places {α : Type} {rows cols : ℕ} {f : Fin rows → Fin cols → Recording F α}
    {s s' : Recorder F} {xs : List α}
    (h : ((places rows cols).mapM fun k => f k.1 k.2) s = (.ok xs, s')) :
    ∃ c : Matrix α, ofFnM rows cols f s = (.ok c, s') ∧ c.rows = rows ∧ c.cols = cols ∧
      c.toList = xs := by
  rw [← toList_ofFnM, map_eq_pure_bind, run_bind] at h
  split at h
  · rename_i c s₁ hrun
    obtain ⟨hxs, rfl⟩ := Prod.mk.inj h
    obtain ⟨hrows, hcols⟩ := shape_ofFnM hrun
    exact ⟨c, hrun, hrows, hcols, Except.ok.inj hxs⟩
  · cases h

end Matrix

namespace Recording

/-- An operation whose value is refused records nothing. One that has a value records its results in
order as far as the tape has room, and what is left over loses nothing but its derivatives. -/
theorem outputs_tracked (s : Recorder F) :
    (∀ (p : Primitive F) (args : List (Handle F)), args.length = p.arity →
      (∀ e, p.eval (args.map Handle.value) = .error e → p.onTape args s = (.error e, s)) ∧
      ∀ y, p.eval (args.map Handle.value) = .ok y → (∀ x ∈ args, s.tape.Live x) →
        ∃ z s', p.onTape args s = (.ok z, s') ∧ s.Tracked s' args [y] [z]) ∧
    ∀ (op : JointOp F) (input : Matrix (Handle F)),
      (∀ e, op.eval (input.map Handle.value) = .error e → op.onTape input s = (.error e, s)) ∧
      ∀ b, op.eval (input.map Handle.value) = .ok b → (∀ x ∈ input.toList, s.tape.Live x) →
        ∃ c s', op.onTape input s = (.ok c, s') ∧ c.rows = b.rows ∧ c.cols = b.cols ∧
          s.Tracked s' input.toList b.toList c.toList := by
  refine ⟨fun p args harity => ?_, fun op input => ⟨fun e he => ?_, fun b hb hlive => ?_⟩⟩
  · obtain ⟨partials, hlen, hrun⟩ := p.onTape_eq harity
    rw [hrun]
    refine ⟨fun e he => ?_, fun y hy hlive => ?_⟩
    · rw [he, run_bind]
      rfl
    · rw [hy, run_bind]
      have hone : ∀ r ∈ [(partials y, y)], args.length = r.1.length :=
        List.forall_mem_singleton.mpr (hlen y)
      obtain ⟨outputs, s', hmap, htracked⟩ :=
        mapM_node_tracked (.primitive p.name) hlive [(partials y, y)] hone
      rw [List.mapM_cons, run_bind] at hmap
      split at hmap
      · rename_i z s₁ hnode
        obtain ⟨houtputs, rfl⟩ := Prod.mk.inj hmap
        obtain rfl := Except.ok.inj houtputs
        exact ⟨z, s₁, hnode, htracked⟩
      · cases hmap
  · rw [JointOp.onTape, run_bind]
    have he : op.value (input.map Handle.value) = .error e := he
    rw [he]
    rfl
  · have hb : op.value (input.map Handle.value) = .ok b := hb
    -- The results in storage order, each with its block of partials.
    let results : List (List F × F) := (Matrix.places b.rows b.cols).map fun k =>
      ((op.block (input.map Handle.value) b k.1 k.2).toList, b.get k.1 k.2)
    have hvalues : results.map Prod.snd = b.toList := by
      rw [← b.map_places_get, List.map_map]
      rfl
    have hlen : ∀ r ∈ results, input.toList.length = r.1.length := by
      intro r hr
      obtain ⟨k, -, rfl⟩ := List.mem_map.mp hr
      rw [Matrix.length_toList, Matrix.length_toList]
      rfl
    obtain ⟨outputs, s', hmap, htracked⟩ :=
      mapM_node_tracked (.primitive op.name) hlive results hlen
    rw [List.mapM_map] at hmap
    obtain ⟨c, hrun, hrows, hcols, rfl⟩ := Matrix.ofFnM_of_places
      (f := fun k l => node (.primitive op.name) input.toList
        (op.block (input.map Handle.value) b k l).toList (b.get k l)) hmap
    rw [hvalues] at htracked
    refine ⟨c, s', ?_, hrows, hcols, htracked⟩
    rw [JointOp.onTape, run_bind, hb]
    exact hrun

def nearlyFull : Recorder ℚ := ⟨(Tape.limitedTo 2).push .input [] 2, []⟩

def onlyNode : Handle ℚ := ⟨2, some 0, 0⟩

def negation : JointOp ℚ where
  name := "negation"
  value a := .ok (a.map Neg.neg)
  partials _ _ k l i j := if k = i ∧ l = j then -1 else 0

theorem live_nearlyFull {c : ℚ} : ∀ x ∈ [onlyNode, .constant c], nearlyFull.tape.Live x := by
  refine List.forall_mem_cons.mpr ⟨fun i hi => ?_, List.forall_mem_singleton.mpr ?_⟩
  · cases hi
    exact ⟨rfl, Nat.zero_lt_one⟩
  · exact Tape.live_constant _ c

theorem outputs_tracked_nearlyFull :
    Primitive.divide.onTape [onlyNode, .constant 0] nearlyFull =
        (Primitive.refuse "divide" "y" 0 "a nonzero number", nearlyFull) ∧
      (∀ x ∈ [onlyNode, .constant 3], nearlyFull.tape.Live x) ∧
      ∃ c s', negation.onTape (Matrix.row [onlyNode, .constant 3]) nearlyFull = (.ok c, s') ∧
        c.toList = [⟨-2, some 1, 0⟩, .constant (-3)] ∧
        s'.tape.size = 2 ∧ s'.tape.exhausted = true := by
  obtain ⟨hprimitive, hjoint⟩ := outputs_tracked nearlyFull
  obtain ⟨herror, -⟩ := hprimitive Primitive.divide [onlyNode, .constant 0] rfl
  obtain ⟨-, hvalue⟩ := hjoint negation (Matrix.row [onlyNode, .constant 3])
  obtain ⟨c, s', hrun, -, -, htracked⟩ := hvalue _ rfl live_nearlyFull
  obtain ⟨houtputs, hfilled⟩ := htracked.filled ⟨onlyNode, List.mem_cons_self, rfl⟩
  refine ⟨herror _ ?_, live_nearlyFull, c, s', hrun, ?_, ?_, ?_⟩
  · cbv
  · rw [houtputs]
    cbv
  · rw [hfilled.size]
    decide +kernel
  · rw [hfilled.exhausted]
    decide +kernel

end Recording

end Autodiff
