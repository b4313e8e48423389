import Mathlib
import Autodiff.Gradient.Basic
import Autodiff.Proofs.Number.Exact
import Autodiff.Proofs.Program.Lockstep

set_option autoImplicit false

namespace Autodiff

open Finset (range)
open Interpretation (plain forward)

variable {F : Type} [Field F]

theorem Vector.foldl_products {n : ℕ} {α : Type} (g : α → F) (a : Vector F n) (b : Vector α n) :
    (Vector.zip a b).foldl (fun acc (p, d) => acc + p * g d) 0 = dot a.toList (b.toList.map g) := by
  rw [← Vector.foldl_toList, Vector.toList_zip, Autodiff.foldl_products, zero_add]

variable [Functions F]

/-- Dual numbers by one rule: the tangent is the sum of partials times tangents. -/
def tangentRule : NodeRule F (Dual F) (Outcome F) :=
  fun _ args partials y => .ok ⟨y, dot partials (args.map Dual.tangent)⟩

theorem nodal_forward [ExactField F] : Nodal (forward (F := F)) tangentRule where
  gt _ _ := rfl
  add x y := by
    refine congrArg Except.ok (Dual.ext rfl ?_)
    change x.tangent + y.tangent = dot [1, 1] [x.tangent, y.tangent]
    rw [dot_cons, dot_cons, dot_nil]
    ring
  sub x y := by
    refine congrArg Except.ok (Dual.ext rfl ?_)
    change x.tangent - y.tangent = dot [1, -1] [x.tangent, y.tangent]
    rw [dot_cons, dot_cons, dot_nil]
    ring
  mul x y := by
    refine congrArg Except.ok (Dual.ext rfl ?_)
    change x.tangent * y.value + x.value * y.tangent = dot [y.value, x.value] [x.tangent, y.tangent]
    rw [dot_cons, dot_cons, dot_nil]
    ring
  div x y := by
    refine congrArg Except.ok (Dual.ext rfl ?_)
    change (x.tangent - x.value / y.value * y.tangent) / y.value =
      dot [Functions.unary .reciprocal y.value, -(x.value / y.value) / y.value]
        [x.tangent, y.tangent]
    rw [dot_cons, dot_cons, dot_nil, ExactField.reciprocal]
    ring
  neg x := by
    refine congrArg Except.ok (Dual.ext rfl ?_)
    change -x.tangent = dot [-1] [x.tangent]
    rw [dot_cons, dot_nil]
    ring
  apply p xs := by
    have htangent : ∀ (ps : Vector F p.arity) (ds : Vector (Dual F) p.arity),
        Primitive.tangent ps ds = dot ps.toList (ds.toList.map Dual.tangent) :=
      fun ps ds => Vector.foldl_products Dual.tangent ps ds
    change Primitive.onDuals p xs = _
    unfold Primitive.onDuals
    simp only [htangent]
    rfl
  applyJoint op a := by
    have htangent : ∀ block : Matrix F,
        JointOp.tangent block a = dot block.toList (a.toList.map Dual.tangent) := by
      intro block
      exact (Autodiff.foldl_products Dual.tangent _ _ 0).trans (zero_add _)
    have hcopy : ∀ b : Matrix F, Matrix.ofFnM b.rows b.cols (fun k l =>
        tangentRule (.primitive op.name) a.toList
          (op.block (a.map (forward (F := F)).value) b k l).toList (b.get k l)) =
        pure (.ofFn b.rows b.cols fun k l =>
          ⟨b.get k l, JointOp.tangent (op.block (a.map Dual.value) b k l) a⟩) := by
      intro b
      simp only [htangent]
      exact Matrix.ofFnM_pure _ _ _
    simp only [hcopy]
    rfl

structure Jet (F : Type) where
  value : F
  slope : ℕ → F

def slopeRule : NodeRule F (Jet F) (Outcome F) :=
  fun _ args partials y => .ok ⟨y, fun j => dot partials (args.map fun g => g.slope j)⟩

/-- Forward mode in all directions at once. -/
def Interpretation.slopes : Interpretation F (Jet F) (Outcome F) :=
  slopeRule.interpretation (fun c => ⟨c, fun _ => 0⟩) Jet.value fun r => r

def Jet.along (n : ℕ) (v : ℕ → F) (g : Jet F) : Dual F :=
  ⟨g.value, ∑ j ∈ range n, g.slope j * v j⟩

omit [Functions F] in
theorem along_constant (n : ℕ) (v : ℕ → F) (c : F) :
    Jet.along n v ⟨c, fun _ => 0⟩ = Dual.constant c := by
  have hsum : ∑ j ∈ range n, 0 * v j = 0 := Finset.sum_eq_zero fun j _ => zero_mul (v j)
  exact Dual.ext rfl hsum

omit [Functions F] in
theorem dot_along (n : ℕ) (v : ℕ → F) (a : List F) (gs : List (Jet F)) :
    dot a (gs.map fun g => (g.along n v).tangent) =
      ∑ j ∈ range n, dot a (gs.map fun g => g.slope j) * v j := by
  induction a generalizing gs with
  | nil => simp
  | cons x a ih =>
    cases gs with
    | nil => exact (Finset.sum_eq_zero fun _ _ => zero_mul _).symm
    | cons g gs =>
      simp only [List.map_cons, dot_cons, ih, add_mul, Finset.sum_add_distrib]
      simp only [Jet.along, Finset.mul_sum, mul_assoc]

/-- Any direction of forward mode is read off the gradients. -/
theorem Simulation.slopesForward [ExactField F] (n : ℕ) (v : ℕ → F) :
    Simulation (Interpretation.slopes (F := F)) forward Worlds.stateless
      fun _ g d => g.along n v = d :=
  .ofNodal (NodeRule.nodal _ _ _ _) nodal_forward
    (fun _ _ _ _ _ h => h) (fun h => congrArg Dual.value h)
    (fun _ c => along_constant n v c)
    (fun _ _ => rfl) (fun _ _ => rfl) fun {_ gs ds} kind partials y h _ => by
      have hds : gs.map (Jet.along n v) = ds := by
        rw [← List.forall₂_eq_eq_eq, List.forall₂_map_left_iff]
        exact h
      refine Worlds.agree_pure (Dual.ext rfl ?_)
      rw [← hds, List.map_map]
      exact (dot_along n v partials gs).symm

def Dual.inputs (x : List F) (v : ℕ → F) : List (Dual F) := x.mapIdx fun k x => ⟨x, v k⟩

def Jet.inputs (x : List F) : List (Jet F) :=
  x.mapIdx fun k x => ⟨x, fun j => if k = j then 1 else 0⟩

omit [Functions F] in
theorem along_unit (g : Jet F) {n j : ℕ} (hj : j < n) :
    (g.along n fun k => if k = j then 1 else 0).tangent = g.slope j := by
  simp [Jet.along, hj]

omit [Field F] [Functions F] in
theorem map_value_inputs (x : List F) (v : ℕ → F) : (Dual.inputs x v).map Dual.value = x := by
  unfold Dual.inputs
  exact List.ext_getElem (by simp) fun k _ _ => by simp

omit [Functions F] in
theorem map_along_inputs (x : List F) (v : ℕ → F) :
    (Jet.inputs x).map (Jet.along x.length v) = Dual.inputs x v := by
  unfold Jet.inputs Dual.inputs
  refine List.ext_getElem (by simp) fun k hk _ => ?_
  have hk : k < x.length := by simpa using hk
  simp [Jet.along, hk]

omit [Functions F] in
theorem zipWith_eq_inputs {x v : List F} (h : v.length = x.length) :
    List.zipWith Dual.mk x v = Dual.inputs x (v.getD · 0) := by
  unfold Dual.inputs
  refine List.ext_getElem (by simp [h]) fun k hk _ => ?_
  have hv : k < v.length := by
    rw [List.length_zipWith] at hk
    omega
  simp [hv]

omit [Functions F] in
theorem constant_eq_inputs (x : List F) : x.map Dual.constant = Dual.inputs x fun _ => 0 := by
  unfold Dual.inputs
  exact List.ext_getElem (by simp) fun k _ _ => by simp [Dual.constant]

omit [Functions F] in
theorem seededAt_eq_inputs (x : List F) (j : ℕ) :
    Forward.seededAt x j = Dual.inputs x fun k => if k = j then 1 else 0 := by
  unfold Forward.seededAt Dual.inputs
  refine List.ext_getElem (by simp) fun k _ _ => ?_
  by_cases hk : k = j <;> simp [hk, Dual.seed, Dual.constant]

namespace Program

variable {p : Program F} {x ys : List F} {gs : List (Jet F)}

theorem run_forward_rel [ExactField F] (p : Program F) (x : List F) (v : ℕ → F) :
    Outcome.Rel (List.Forall₂ fun g d => g.along x.length v = d)
      (p.run Interpretation.slopes (Jet.inputs x)) (p.run forward (Dual.inputs x v)) := by
  refine ((Simulation.slopesForward x.length v).run (w := ()) p ?_).outcome
  rw [← map_along_inputs]
  exact List.forall₂_map_right_iff.mpr (List.forall₂_same.mpr fun _ _ => rfl)

theorem run_forward_of_slopes [ExactField F]
    (h : p.run Interpretation.slopes (Jet.inputs x) = .ok gs) (v : ℕ → F) :
    p.run forward (Dual.inputs x v) = .ok (gs.map (Jet.along x.length v)) := by
  obtain ⟨ds, hds, hrel⟩ := (h ▸ run_forward_rel p x v).ok_left
  have heq : gs.map (Jet.along x.length v) = ds := by
    rw [← List.forall₂_eq_eq_eq, List.forall₂_map_left_iff]
    exact hrel
  rw [hds, heq]

theorem slopes_of_values [ExactField F] (h : p.values x = .ok ys) :
    ∃ gs, p.run Interpretation.slopes (Jet.inputs x) = .ok gs ∧ gs.map Jet.value = ys := by
  have hinputs : List.Forall₂ (fun x d => x = d.value) x (Dual.inputs x fun _ => 0) := by
    rw [← List.forall₂_map_right_iff (f := Dual.value) (R := Eq), map_value_inputs]
    exact List.forall₂_same.mpr fun _ _ => rfl
  have hplain := (Simulation.plainForward.run (w := ()) p hinputs).outcome
  change p.run plain x = .ok ys at h
  rw [h] at hplain
  obtain ⟨ds, hds, hvalues⟩ := hplain.ok_left
  obtain ⟨gs, hgs, hrel⟩ := (hds ▸ run_forward_rel p x fun _ => 0).ok_right
  refine ⟨gs, hgs, ?_⟩
  have hmap : gs.map Jet.value = ds.map Dual.value :=
    map_eq_of_forall₂ hrel fun _ _ hgd => congrArg Dual.value hgd
  rw [hmap, ← List.forall₂_eq_eq_eq, List.forall₂_map_left_iff]
  exact hvalues.flip.imp fun _ _ hxy => hxy.symm

theorem jvp_of_slopes [ExactField F] {v : List F} (hv : v.length = x.length)
    (h : p.run Interpretation.slopes (Jet.inputs x) = .ok gs) :
    p.jvp x v = .ok (gs.map Jet.value,
      gs.map fun g => ∑ j ∈ range x.length, g.slope j * v.getD j 0) := by
  unfold Program.jvp Forward.jvp
  rw [if_neg (not_not.mpr hv.symm), zipWith_eq_inputs hv, run_forward_of_slopes h]
  change Except.ok (_, _) = Except.ok (_, _)
  rw [List.map_map, List.map_map]
  rfl

theorem jacobian_of_slopes [ExactField F]
    (h : p.run Interpretation.slopes (Jet.inputs x) = .ok gs) :
    p.jacobian x = .ok (gs.map Jet.value, gs.map fun g => (List.range x.length).map g.slope) := by
  have hvalues : p.run forward (x.map Dual.constant) =
      .ok (gs.map (Jet.along x.length fun _ => 0)) := by
    rw [constant_eq_inputs]
    exact run_forward_of_slopes h _
  have hcolumn : ∀ j, p.run forward (Forward.seededAt x j) =
      .ok (gs.map (Jet.along x.length fun k => if k = j then 1 else 0)) := by
    intro j
    rw [seededAt_eq_inputs]
    exact run_forward_of_slopes h _
  have hcolumns : ((List.range x.length).mapM fun j => do
      return (← p.run forward (Forward.seededAt x j)).map Dual.tangent : Outcome F _) =
      .ok ((List.range x.length).map fun j =>
        (gs.map (Jet.along x.length fun k => if k = j then 1 else 0)).map Dual.tangent) := by
    simp only [hcolumn]
    exact List.mapM_pure
  unfold Program.jacobian Forward.jacobian
  rw [hvalues]
  change (_ : Outcome F _) >>= _ = _
  rw [hcolumns]
  refine congrArg Except.ok (Prod.ext ?_ ?_)
  · exact List.map_map
  · refine List.ext_getElem (by simp) fun i hi _ => ?_
    have hi : i < gs.length := by simpa using hi
    rw [List.getElem_map, List.getElem_map, List.getElem_range, List.map_map]
    refine List.map_congr_left fun j hj => ?_
    simp only [Function.comp_apply, List.map_map]
    rw [List.getD_eq_getElem?_getD, List.getElem?_map, List.getElem?_eq_getElem hi]
    exact along_unit _ (List.mem_range.mp hj)

end Program

end Autodiff
