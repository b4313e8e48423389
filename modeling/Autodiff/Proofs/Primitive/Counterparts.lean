import Mathlib
import Autodiff.Dual.Functions
import Autodiff.Primitive.Catalog
import Autodiff.Proofs.Number.Real

set_option autoImplicit false

namespace Autodiff

open Functions (unary binary lt gt)

/-- Signs are exact, and an exponent less by one divides the power of a positive base by it. -/
class ExactPartials (F : Type) [Field F] [LinearOrder F] [Functions F] : Prop
    extends ExactOrderedField F where
  sign_pos : ∀ x : F, 0 < x → unary .sign x = 1
  sign_neg : ∀ x : F, x < 0 → unary .sign x = -1
  pow_sub_one : ∀ a b : F, 0 < a → binary .pow a (b - 1) = binary .pow a b / a

instance : ExactPartials ℝ where
  sign_pos _ h := if_pos h.le
  sign_neg _ h := if_neg h.not_ge
  pow_sub_one _ b h := Real.rpow_sub_one h.ne' b

namespace Primitive

variable {F : Type}

/-- What the primitive computes from these dual numbers has a counterpart among their own
functions. -/
inductive Counterpart [Arith F] [Functions F] :
    Primitive F → List (Dual F) → Dual F → Prop where
  | exp (d : Dual F) : Counterpart exp [d] (unary .exp d)
  | log (d : Dual F) : Counterpart log [d] (unary .ln d)
  | log1p (d : Dual F) : Counterpart log1p [d] (unary .ln1p d)
  | sqrt (d : Dual F) : Counterpart sqrt [d] (unary .sqrt d)
  | sinh (d : Dual F) : Counterpart sinh [d] (unary .sinh d)
  | cosh (d : Dual F) : Counterpart cosh [d] (unary .cosh d)
  | tanh (d : Dual F) : Counterpart tanh [d] (unary .tanh d)
  | square (d : Dual F) : Counterpart square [d] (d * d)
  | abs (d : Dual F) : Counterpart abs [d] (unary .abs d)
  | pow (d e : Dual F) : Counterpart pow [d, e] (binary .pow d e)
  | divide (d e : Dual F) : Counterpart divide [d, e] (d / e)

theorem guarded_eq_ok_iff {c : Bool} {op operand requirement : String} {x a v : F} :
    (if c then refuse op operand x requirement else .ok a : Outcome F F) = .ok v ↔
      c = false ∧ a = v := by
  cases c with
  | false => exact ⟨fun h => ⟨rfl, Except.ok.inj h⟩, fun h => congrArg Except.ok h.2⟩
  | true => exact ⟨nofun, nofun⟩

theorem operands_of_eval {α : Type} {f : α → F} {p : Primitive F} {args : List α} {v : F}
    (heval : p.eval (args.map f) = .ok v) :
    ∃ vs : Vector α p.arity, vs.toList = args ∧ p.operands args = .ok vs ∧
      p.value (vs.map f) = .ok v ∧
      p.gradient (args.map f) v = .ok (p.partials (vs.map f) v).toList := by
  unfold eval operands at heval
  by_cases h : args.length = p.arity
  · have hmap : (args.map f).length = p.arity := by rw [List.length_map, h]
    have hvalues : (⟨(args.map f).toArray, hmap⟩ : Vector F p.arity) =
        Vector.map f ⟨args.toArray, h⟩ := by simp
    rw [dif_pos hmap, hvalues] at heval
    refine ⟨⟨args.toArray, h⟩, rfl, dif_pos h, heval, ?_⟩
    rw [gradient, operands, dif_pos hmap, hvalues]
    rfl
  · rw [dif_neg (by rw [List.length_map]; exact h)] at heval
    cases heval

section Values

variable [Arith F]

theorem onDuals_of_eval {p : Primitive F} {ds : List (Dual F)} {v : F}
    (heval : p.eval (ds.map Dual.value) = .ok v) :
    ∃ partials, p.gradient (ds.map Dual.value) v = .ok partials ∧
      p.onDuals ds =
        .ok ⟨v, (partials.zip ds).foldl (fun acc (p, d) => acc + p * d.tangent) 0⟩ := by
  obtain ⟨vs, rfl, hoperands, hvalue, hgradient⟩ := operands_of_eval heval
  refine ⟨_, hgradient, ?_⟩
  rw [onDuals, hoperands]
  change (p.value (vs.map Dual.value) >>= _) = _
  rw [hvalue]
  change Except.ok (Dual.mk v (tangent _ vs)) = _
  rw [tangent, ← Vector.foldl_toList, Vector.toList_zip]

variable [Functions F] {p : Primitive F} {ds : List (Dual F)} {d : Dual F}

theorem Counterpart.value_eq (h : Counterpart p ds d) {v : F}
    (heval : p.eval (ds.map Dual.value) = .ok v) : v = d.value := by
  cases h with
  | exp | sinh | cosh | tanh | square => exact (Except.ok.inj heval).symm
  | log | log1p | sqrt | abs | pow | divide => exact (guarded_eq_ok_iff.mp heval).2.symm

theorem abs_flat {d : Dual F} (hzero : Functions.eq d.value 0 = true) (hpos : gt d.value 0 = false)
    (hneg : lt d.value 0 = false) (hnumber : isNaN d.value = false) :
    abs.onDuals [d] = .ok ⟨unary .abs d.value, 0 + 0 * d.tangent⟩ ∧
      unary .abs d = ⟨unary .abs d.value, 0 * d.tangent⟩ := by
  have heval : abs.eval ([d].map Dual.value) = .ok (unary .abs d.value) :=
    guarded_eq_ok_iff.mpr ⟨hnumber, rfl⟩
  have hslope : (if gt d.value 0 then 1 else if lt d.value 0 then -1 else 0 : F) = 0 := by
    rw [hpos, hneg]
    rfl
  have hgradient : abs.gradient [d.value] (unary .abs d.value) = .ok [0] :=
    congrArg (fun slope => Except.ok [slope]) hslope
  obtain ⟨partials, hpartials, hrun⟩ := onDuals_of_eval heval
  obtain rfl : partials = [0] := Except.ok.inj (hpartials.symm.trans hgradient)
  exact ⟨hrun, Dual.ext rfl (congrArg (· * d.tangent) (if_pos hzero))⟩

end Values

section Exact

variable {K : Type} [Field K]

theorem onDuals_unary {p : Primitive K} {d r : Dual K} {a : K}
    (heval : p.eval [d.value] = .ok r.value)
    (hgradient : p.gradient [d.value] r.value = .ok [a]) (htangent : a * d.tangent = r.tangent) :
    p.onDuals [d] = .ok r := by
  have heval : p.eval ([d].map Dual.value) = .ok r.value := heval
  obtain ⟨partials, hpartials, hrun⟩ := onDuals_of_eval heval
  obtain rfl : partials = [a] := Except.ok.inj (hpartials.symm.trans hgradient)
  rw [hrun]
  exact congrArg Except.ok (Dual.ext rfl ((zero_add _).trans htangent))

theorem onDuals_binary {p : Primitive K} {d e r : Dual K} {a b : K}
    (heval : p.eval [d.value, e.value] = .ok r.value)
    (hgradient : p.gradient [d.value, e.value] r.value = .ok [a, b])
    (htangent : a * d.tangent + b * e.tangent = r.tangent) : p.onDuals [d, e] = .ok r := by
  have heval : p.eval ([d, e].map Dual.value) = .ok r.value := heval
  obtain ⟨partials, hpartials, hrun⟩ := onDuals_of_eval heval
  obtain rfl : partials = [a, b] := Except.ok.inj (hpartials.symm.trans hgradient)
  rw [hrun]
  refine congrArg Except.ok (Dual.ext rfl (Eq.trans ?_ htangent))
  exact congrArg (· + b * e.tangent) (zero_add (a * d.tangent))

variable [LinearOrder K] [Functions K] [ExactPartials K]

theorem abs_slope (x y : K) :
    (if gt x 0 then 1 else if lt x 0 then -1 else 0 : K) = UnaryFn.derivative .abs x y := by
  unfold UnaryFn.derivative gt
  rcases lt_trichotomy x 0 with hneg | rfl | hpos
  · have heq : Functions.eq x 0 = false := by
      rw [← Bool.not_eq_true, ExactField.eq_iff]
      exact hneg.ne
    have hgt : lt 0 x = false := by
      rw [← Bool.not_eq_true, ExactOrderedField.lt_iff]
      exact hneg.not_gt
    simp [heq, hgt, (ExactOrderedField.lt_iff x 0).mpr hneg, ExactPartials.sign_neg x hneg]
  · have heq : Functions.eq (0 : K) 0 = true := (ExactField.eq_iff _ _).mpr rfl
    have hlt : lt (0 : K) 0 = false := by
      rw [← Bool.not_eq_true, ExactOrderedField.lt_iff]
      exact lt_irrefl 0
    simp [heq, hlt]
  · have heq : Functions.eq x 0 = false := by
      rw [← Bool.not_eq_true, ExactField.eq_iff]
      exact hpos.ne'
    simp [heq, (ExactOrderedField.lt_iff 0 x).mpr hpos, ExactPartials.sign_pos x hpos]

/-- An exponent with tangent zero is no exception, as its term is zero. -/
theorem pow_slope {d e : Dual K} (hpos : 0 < d.value) :
    e.value * binary .pow d.value e.value / d.value * d.tangent +
        binary .pow d.value e.value * unary .ln d.value * e.tangent =
      (binary .pow d e).tangent := by
  have hlower : e.value * binary .pow d.value (e.value - 1) =
      e.value * binary .pow d.value e.value / d.value := by
    rw [ExactPartials.pow_sub_one _ _ hpos, mul_div_assoc]
  change _ = if Functions.eq e.tangent 0 then
      e.value * binary .pow d.value (e.value - 1) * d.tangent
    else e.value * binary .pow d.value (e.value - 1) * d.tangent +
      binary .pow d.value e.value * unary .ln d.value * e.tangent
  rw [hlower]
  -- A tangent that is left out of the exponent is zero, and so is its term.
  split
  next hzero => rw [(ExactField.eq_iff _ _).mp hzero, mul_zero, add_zero]
  next => rfl

theorem lt_of_guard_le {x r : K} (h : (isNaN x || Functions.le x r) = false) : r < x := by
  have hle : Functions.le x r = false := (Bool.or_eq_false_iff.mp h).2
  rw [← Bool.not_eq_true, ExactOrderedField.le_iff] at hle
  exact lt_of_not_ge hle

theorem Counterpart.onDuals_eq {p : Primitive K} {ds : List (Dual K)} {d : Dual K}
    (h : Counterpart p ds d) {v : K} (heval : p.eval (ds.map Dual.value) = .ok v) :
    p.onDuals ds = .ok d := by
  obtain rfl := h.value_eq heval
  cases h with
  | exp d => exact onDuals_unary heval rfl rfl
  | log d => exact onDuals_unary heval rfl rfl
  | log1p d =>
    have hslope : unary .reciprocal (1 + d.value) = unary .reciprocal (d.value + 1) := by
      rw [add_comm]
    exact onDuals_unary heval rfl (congrArg (· * d.tangent) hslope)
  | sqrt d =>
    have hslope (y : K) : 1 / (y + y) = unary .reciprocal (y + y) := by
      rw [ExactField.reciprocal, one_div]
    exact onDuals_unary heval rfl (congrArg (· * d.tangent) (hslope _))
  | sinh d => exact onDuals_unary heval rfl rfl
  | cosh d => exact onDuals_unary heval rfl rfl
  | tanh d => exact onDuals_unary heval rfl rfl
  | square d =>
    have htangent : (d.value + d.value) * d.tangent =
        d.tangent * d.value + d.value * d.tangent := by ring
    exact onDuals_unary heval rfl htangent
  | abs d => exact onDuals_unary heval rfl (congrArg (· * d.tangent) (abs_slope d.value _))
  | pow d e =>
    have hpos : 0 < d.value := lt_of_guard_le (guarded_eq_ok_iff.mp heval).1
    exact onDuals_binary heval rfl (pow_slope hpos)
  | divide d e =>
    have htangent : unary .reciprocal e.value * d.tangent +
        -(d.value / e.value) / e.value * e.tangent =
          (d.tangent - d.value / e.value * e.tangent) / e.value := by
      rw [ExactField.reciprocal]
      ring
    exact onDuals_binary heval rfl htangent

end Exact

end Primitive

end Autodiff
