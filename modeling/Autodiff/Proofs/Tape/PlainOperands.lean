import Mathlib.Data.List.Basic
import Autodiff.Tape.Operators
import Autodiff.Proofs.Tape.Kinds

set_option autoImplicit false

namespace Autodiff

variable {F : Type}

namespace Recording

variable {args : List (Handle F)} {partials : List F}

def tracked (args : List (Handle F)) (partials : List F) : List (Handle F × F) :=
  (args.zip partials).filter fun e => !e.1.isConstant

theorem tracked_cons (x : Handle F) (args : List (Handle F)) (p : F) (partials : List F) :
    tracked (x :: args) (p :: partials) =
      if x.isConstant then tracked args partials else (x, p) :: tracked args partials := by
  unfold tracked
  rw [List.zip_cons_cons, List.filter_cons]
  cases x.isConstant <;> simp

theorem liveEdges_eq (args : List (Handle F)) (partials : List F) :
    Tape.liveEdges (args.map Handle.node) partials =
      (tracked args partials).filterMap fun (x, p) => x.node.map (·, p) := by
  unfold Tape.liveEdges tracked
  rw [List.zip_map_left, List.filterMap_map, List.filterMap_filter]
  refine List.filterMap_congr fun ⟨x, p⟩ _ => ?_
  unfold Handle.isConstant
  cases hx : x.node <;> simp [hx]

theorem all_isConstant_eq (hlen : args.length = partials.length) :
    args.all Handle.isConstant = (tracked args partials).isEmpty := by
  induction args generalizing partials with
  | nil => rfl
  | cons x args ih =>
    obtain ⟨p, partials, rfl⟩ := List.exists_cons_of_length_eq_add_one hlen.symm
    rw [List.all_cons, ih (Nat.succ.inj hlen), tracked_cons]
    cases x.isConstant <;> rfl

theorem forM_requireLive_eq (t : Tape F) (hlen : args.length = partials.length) :
    args.forM t.requireLive = ((tracked args partials).map Prod.fst).forM t.requireLive := by
  induction args generalizing partials with
  | nil => rfl
  | cons x args ih =>
    obtain ⟨p, partials, rfl⟩ := List.exists_cons_of_length_eq_add_one hlen.symm
    have hcons : (x :: args).forM t.requireLive =
        (t.requireLive x >>= fun _ => args.forM t.requireLive) := rfl
    rw [hcons, ih (Nat.succ.inj hlen), tracked_cons]
    cases hx : x.isConstant with
    | false => rfl
    | true =>
      have hnone : x.node = none := Option.isNone_iff_eq_none.mp hx
      have hlive : t.requireLive x = .ok () := by rw [Tape.requireLive, hnone]
      rw [hlive]
      rfl

theorem node_congr {args' : List (Handle F)} {partials' : List F}
    (hlen : args.length = partials.length) (hlen' : args'.length = partials'.length)
    (h : tracked args partials = tracked args' partials') (kind : NodeKind) (value : F) :
    node kind args partials value = node kind args' partials' value := by
  have hall : args.all Handle.isConstant = args'.all Handle.isConstant := by
    rw [all_isConstant_eq hlen, all_isConstant_eq hlen', h]
  have hedges : Tape.liveEdges (args.map Handle.node) partials =
      Tape.liveEdges (args'.map Handle.node) partials' := by
    rw [liveEdges_eq, liveEdges_eq, h]
  have hchecks (t : Tape F) : args.forM t.requireLive = args'.forM t.requireLive := by
    rw [forM_requireLive_eq t hlen, forM_requireLive_eq t hlen', h]
  have happend : append? kind (args.map Handle.node) partials value =
      append? kind (args'.map Handle.node) partials' value := by
    unfold append?
    rw [if_neg (by simp [hlen]), if_neg (by simp [hlen']), hedges]
  unfold node
  simp only [forM_ofOutcome, hchecks, hall, happend]

variable {x y : Handle F} {p q : F}

theorem node_constant_right (h : y.isConstant = true) (kind : NodeKind) (value : F) :
    node kind [x, y] [p, q] value = node kind [x] [p] value := by
  refine node_congr rfl rfl ?_ kind value
  rw [tracked_cons, tracked_cons, tracked_cons, h]
  rfl

theorem node_constant_left (h : y.isConstant = true) (kind : NodeKind) (value : F) :
    node kind [y, x] [q, p] value = node kind [x] [p] value := by
  refine node_congr rfl rfl ?_ kind value
  rw [tracked_cons, h]
  rfl

end Recording

namespace Handle

open Recording (relabelled node_relabelled node_constant_left node_constant_right)

variable [Arith F] {x y : Handle F}

theorem addPlain_eq (h : y.isConstant = true) :
    x.addPlain y.value = (x.add y).relabelled .affine :=
  ((node_relabelled .add .affine rfl _).trans (node_constant_right h .affine _)).symm

theorem plainAdd_eq (hadd : ∀ a b : F, a + b = b + a) (h : y.isConstant = true) :
    plainAdd y.value x = (y.add x).relabelled .affine := by
  refine Eq.trans ?_ ((node_relabelled .add .affine rfl _).trans
    (node_constant_left h .affine _)).symm
  rw [hadd]
  rfl

theorem subPlain_eq (h : y.isConstant = true) :
    x.subPlain y.value = (x.sub y).relabelled .affine :=
  ((node_relabelled .sub .affine rfl _).trans (node_constant_right h .affine _)).symm

theorem plainSub_eq (h : y.isConstant = true) :
    plainSub y.value x = (y.sub x).relabelled .affine :=
  ((node_relabelled .sub .affine rfl _).trans (node_constant_left h .affine _)).symm

theorem mulPlain_eq (h : y.isConstant = true) :
    x.mulPlain y.value = (x.mul y).relabelled .affine :=
  ((node_relabelled .mul .affine rfl _).trans (node_constant_right h .affine _)).symm

theorem plainMul_eq (hmul : ∀ a b : F, a * b = b * a) (h : y.isConstant = true) :
    plainMul y.value x = (y.mul x).relabelled .affine := by
  refine Eq.trans ?_ ((node_relabelled .mul .affine rfl _).trans
    (node_constant_left h .affine _)).symm
  rw [hmul]
  rfl

variable [Functions F]

theorem divPlain_eq (h : y.isConstant = true) :
    x.divPlain y.value = (x.div y).relabelled .affine :=
  ((node_relabelled .div .affine rfl _).trans (node_constant_right h .affine _)).symm

theorem plainDiv_eq (h : y.isConstant = true) :
    plainDiv y.value x = (y.div x).relabelled .affine :=
  ((node_relabelled .div .affine rfl _).trans (node_constant_left h .affine _)).symm

end Handle

end Autodiff
