import Mathlib.Order.Basic
import Autodiff.Proofs.Tape.Epoch

set_option autoImplicit false

namespace Autodiff

variable {F : Type}

namespace Tape

structure Initial (t t' : Tape F) : Prop where
  nodes : t.nodes.toList <+: t'.nodes.toList
  operands : t.operands.toList <+: t'.operands.toList
  partials : t.partials.toList <+: t'.partials.toList

theorem Initial.refl (t : Tape F) : t.Initial t :=
  ⟨List.prefix_refl _, List.prefix_refl _, List.prefix_refl _⟩

theorem Initial.trans {t t' t'' : Tape F} (h : t.Initial t') (h' : t'.Initial t'') :
    t.Initial t'' :=
  ⟨h.nodes.trans h'.nodes, h.operands.trans h'.operands, h.partials.trans h'.partials⟩

theorem Initial.size_le {t t' : Tape F} (h : t.Initial t') : t.size ≤ t'.size :=
  h.nodes.length_le

theorem Initial.size_operands_le {t t' : Tape F} (h : t.Initial t') :
    t.operands.size ≤ t'.operands.size :=
  h.operands.length_le

theorem Initial.addressable {t t' : Tape F} (h : t.Initial t') (haddr : t'.Addressable) :
    t.Addressable :=
  Nat.lt_of_le_of_lt h.size_operands_le haddr

theorem initial_push (t : Tape F) (kind : NodeKind) (es : List (ℕ × F)) (value : F) :
    t.Initial (t.push kind es value) where
  nodes := by
    change t.nodes.toList <+: (t.nodes.push _).toList
    rw [Array.toList_push]
    exact List.prefix_append _ _
  operands := by
    rw [operands_push]
    exact List.prefix_append _ _
  partials := by
    rw [partials_push]
    exact List.prefix_append _ _

/-- Nothing recorded is lost, and a refusal is not forgotten. -/
structure Grows (t t' : Tape F) : Prop extends Initial t t' where
  epoch : t'.epoch = t.epoch
  limit : t'.limit = t.limit
  exhausted : t.exhausted = true → t'.exhausted = true

theorem Grows.refl (t : Tape F) : t.Grows t := ⟨.refl t, rfl, rfl, id⟩

theorem Grows.trans {t t' t'' : Tape F} (h : t.Grows t') (h' : t'.Grows t'') : t.Grows t'' where
  toInitial := h.toInitial.trans h'.toInitial
  epoch := h'.epoch.trans h.epoch
  limit := h'.limit.trans h.limit
  exhausted hex := h'.exhausted (h.exhausted hex)

theorem Grows.size_le {t t' : Tape F} (h : t.Grows t') : t.size ≤ t'.size :=
  h.toInitial.size_le

theorem Grows.live {t t' : Tape F} (h : t.Grows t') {x : Handle F} (hx : t.Live x) :
    t'.Live x := by
  intro i hi
  obtain ⟨hepoch, hlt⟩ := hx i hi
  exact ⟨hepoch.trans h.epoch.symm, Nat.lt_of_lt_of_le hlt h.size_le⟩

theorem Grows.bound_eq {t t' : Tape F} (h : t.Grows t') : t'.bound = t.bound := by
  rw [bound, bound, h.limit]

theorem Grows.unspent {t t' : Tape F} (h : t.Grows t') (hex : t'.exhausted = false) :
    t.exhausted = false := by
  cases ht : t.exhausted with
  | false => rfl
  | true => exact (h.exhausted ht).symm.trans hex

theorem grows_extend (t : Tape F) (es : List (ℕ × F)) : t.Grows (t.extend es) where
  nodes := List.prefix_refl _
  operands := ⟨es.map Prod.fst, by simp [extend]⟩
  partials := ⟨es.map Prod.snd, by simp [extend]⟩
  epoch := rfl
  limit := rfl
  exhausted := id

theorem grows_push (t : Tape F) (kind : NodeKind) (es : List (ℕ × F)) (value : F) :
    t.Grows (t.push kind es value) :=
  ⟨initial_push t kind es value, rfl, rfl, id⟩

theorem live_push (t : Tape F) (kind : NodeKind) (es : List (ℕ × F)) (value : F) :
    (t.push kind es value).Live ⟨value, some t.size, t.epoch⟩ := by
  intro i hi
  obtain rfl : t.size = i := Option.some.inj hi
  refine ⟨rfl, ?_⟩
  rw [size_push]
  exact Nat.lt_succ_self _

/-- A tape between the beginning of an epoch and its sweep. -/
structure Open (t : Tape F) : Prop extends WellFormed t where
  fits : t.size ≤ t.bound
  full : t.exhausted = true → t.size = t.bound
  unswept : t.adjoints = #[]

theorem Open.unspent {t : Tape F} (h : t.Open) (hroom : t.isFull = false) :
    t.exhausted = false := by
  rw [← Bool.not_eq_true, isFull_iff] at hroom
  cases hex : t.exhausted with
  | false => rfl
  | true => exact absurd (Nat.le_of_eq (h.full hex).symm) hroom

theorem Open.push {t : Tape F} (h : t.Open) (hroom : t.isFull = false) (kind : NodeKind)
    {es : List (ℕ × F)} (hes : ∀ e ∈ es, e.1 < t.size) (value : F) :
    (t.push kind es value).Open where
  toWellFormed := h.toWellFormed.push hes
  fits := by
    have hlt : t.size < t.bound := by
      rw [← Bool.not_eq_true, isFull_iff] at hroom
      omega
    rw [size_push]
    exact hlt
  full hex := nomatch ((h.unspent hroom).symm.trans hex)
  unswept := h.unswept

theorem Open.of_pushInputs {t : Tape F} (h : t.WellFormed) (hun : t.adjoints = #[])
    (hex : t.exhausted = false) {x : List F} (hx : t.size + x.length ≤ t.bound) :
    (t.pushInputs x).Open where
  toWellFormed := h.pushInputs x
  fits := by
    rw [size_pushInputs, bound, limit_pushInputs]
    exact hx
  full hfull := by
    rw [exhausted_pushInputs, hex] at hfull
    cases hfull
  unswept := by
    rw [adjoints_pushInputs, hun]

end Tape

namespace Recorder

theorem grows_refused (s : Recorder F) : s.tape.Grows s.refused.tape :=
  ⟨⟨List.prefix_refl _, List.prefix_refl _, List.prefix_refl _⟩, rfl, rfl, fun _ => rfl⟩

theorem open_refused {s : Recorder F} (h : s.tape.Open) (hfull : s.tape.isFull = true) :
    s.refused.tape.Open where
  toWellFormed := h.toWellFormed.congr rfl rfl rfl
  fits := h.fits
  full _ := le_antisymm h.fits ((Tape.isFull_iff _).mp hfull)
  unswept := h.unswept

theorem open_pushed {s : Recorder F} (h : s.tape.Open) (hroom : s.tape.isFull = false)
    (kind : NodeKind) {args : List (Handle F)} (hargs : ∀ x ∈ args, s.tape.Live x)
    (partials : List F) (value : F) :
    (s.pushed kind (Tape.liveEdges (args.map Handle.node) partials) value).tape.Open :=
  h.push hroom kind (fun _ he => Tape.lt_of_mem_liveEdges hargs he) value

end Recorder

namespace Recording

variable {s : Recorder F} {x : List F}

theorem node_open (hopen : s.tape.Open) (kind : NodeKind) {args : List (Handle F)}
    {partials : List F} (value : F) (hlive : ∀ x ∈ args, s.tape.Live x)
    (hlen : args.length = partials.length) :
    ∃ y s', node kind args partials value s = (.ok y, s') ∧ y.value = value ∧ s'.tape.Live y ∧
      s.tape.Grows s'.tape ∧ s'.tape.Open := by
  rcases node_cases kind value hlive hlen with ⟨-, hrun⟩ | ⟨-, hfull, hrun⟩ | ⟨-, hroom, hrun⟩
  · exact ⟨_, _, hrun, rfl, Tape.live_constant _ _, .refl _, hopen⟩
  · exact ⟨_, _, hrun, rfl, Tape.live_constant _ _, Recorder.grows_refused s,
      Recorder.open_refused hopen hfull⟩
  · exact ⟨_, _, hrun, rfl, Tape.live_push _ _ _ _, Tape.grows_push _ _ _ _,
      Recorder.open_pushed hopen hroom kind hlive partials value⟩

theorem size_begun : (begun s x).tape.size = x.length := by
  change (s.tape.nextEpoch.pushInputs x).size = x.length
  rw [Tape.size_pushInputs, Tape.size_nextEpoch, Nat.zero_add]

theorem epoch_begun : (begun s x).tape.epoch = s.tape.epoch + 1 :=
  Tape.epoch_pushInputs _ _

theorem limit_begun : (begun s x).tape.limit = s.tape.limit :=
  Tape.limit_pushInputs _ _

theorem bound_begun : (begun s x).tape.bound = s.tape.bound := by
  rw [Tape.bound, Tape.bound, limit_begun]

theorem exhausted_begun : (begun s x).tape.exhausted = false :=
  Tape.exhausted_pushInputs _ _

theorem edges_begun {i : ℕ} (hi : i < x.length) : (begun s x).tape.edges i = [] := by
  refine Tape.edges_pushInputs (Tape.wellFormed_nextEpoch _) x (fun j hj => ?_) ?_
  · exact absurd hj (Nat.not_lt_zero j)
  · rw [Tape.size_pushInputs, Tape.size_nextEpoch, Nat.zero_add]
    exact hi

theorem open_begun (h : x.length ≤ s.tape.bound) : (begun s x).tape.Open := by
  refine Tape.Open.of_pushInputs (Tape.wellFormed_nextEpoch _) rfl rfl ?_
  rw [Tape.size_nextEpoch, Nat.zero_add]
  exact h

theorem open_refused_begun (h : s.tape.bound < x.length) :
    (begun s (x.take s.tape.bound)).refused.tape.Open := by
  have hlen : (x.take s.tape.bound).length = s.tape.bound := by
    rw [List.length_take]
    omega
  refine Recorder.open_refused (open_begun (Nat.le_of_eq hlen)) ((Tape.isFull_iff _).mpr ?_)
  rw [bound_begun, size_begun, hlen]

theorem live_inputs {i : ℕ} (hi : i < x.length) (value : F) :
    (begun s x).tape.Live ⟨value, some i, s.tape.epoch + 1⟩ := by
  intro j hj
  obtain rfl : i = j := Option.some.inj hj
  exact ⟨epoch_begun.symm, size_begun.symm ▸ hi⟩

theorem forall₂_begun {α : Type} {R : α → Handle F → Prop} {epoch : UInt32} {xs : List α}
    (hlen : xs.length = x.length)
    (h : ∀ i (hi : i < xs.length) (hi' : i < x.length), R xs[i] ⟨x[i], some i, epoch⟩) :
    List.Forall₂ R xs (Handle.inputs epoch 0 x) := by
  refine Handle.forall₂_inputs hlen fun i hi hi' => ?_
  rw [Nat.zero_add]
  exact h i hi hi'

theorem forall₂_begun_begun {R : Handle F → Handle F → Prop} {epoch epoch' : UInt32}
    (h : ∀ i (hi : i < x.length), R ⟨x[i], some i, epoch⟩ ⟨x[i], some i, epoch'⟩) :
    List.Forall₂ R (Handle.inputs epoch 0 x) (Handle.inputs epoch' 0 x) := by
  refine forall₂_begun (Handle.length_inputs _ _ _) fun i _ hi => ?_
  rw [Handle.getElem_inputs _ _ _ hi, Nat.zero_add]
  exact h i hi

end Recording

end Autodiff
