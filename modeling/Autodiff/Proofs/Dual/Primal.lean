import Mathlib
import Autodiff.Dual.Nested
import Autodiff.Number.Double
import Autodiff.Proofs.Dual.Taylor

set_option autoImplicit false

namespace Autodiff

open Functions (unary binary)

/-- What dual numbers take for a function of two numbers: the function itself, or a comparison. -/
def BinaryFn.compared {A : Type} [Arith A] [Functions A] (f : BinaryFn) (x y : A) : A :=
  match f with
  | .max => if Functions.lt x y then y else x
  | .min => if Functions.lt y x then y else x
  | .excess => if Functions.lt y x then x - y else 0
  | .log => unary .ln x / unary .ln y
  | f => binary f x y

/-- No undefined operand that the comparison treats differently. -/
def BinaryFn.Comparable {F : Type} [Functions F] (f : BinaryFn) (x y : F) : Prop :=
  match f with
  | .max | .min => Functions.test .nan x = true → x = y
  | .excess => Functions.test .nan x = false ∧ Functions.test .nan y = false
  | _ => True

theorem BinaryFn.compared_eq {F : Type} [MachineFloat F] {f : BinaryFn} {x y : F}
    (h : f.Comparable x y) : f.compared x y = binary f x y := by
  cases f with
  | max | min =>
    change _ = if MachineFloat.isNaN x then y else _
    split
    next hnan =>
      obtain rfl : x = y := h hnan
      exact ite_self x
    next => rfl
  | excess =>
    obtain ⟨hx, hy⟩ := h
    exact ((if_neg (Bool.eq_false_iff.mp hx)).trans (if_neg (Bool.eq_false_iff.mp hy))).symm
  | rem | pow | log | atan2 | hypot => rfl

namespace Dual

variable {A : Type} [Arith A] [Functions A]

theorem value_unary (f : UnaryFn) (x : Dual A) :
    (Functions.unary f x).value = Functions.unary f x.value := by
  cases f <;> rfl

theorem binary_eq_compared (f : BinaryFn) (x y : Dual A) :
    Functions.binary f x y = f.compared x y := by
  cases f <;> rfl

theorem value_compared (f : BinaryFn) (x y : Dual A) :
    (f.compared x y).value = f.compared x.value y.value := by
  cases f with
  | max | min | excess => exact apply_ite Dual.value _ _ _
  | rem | pow | log | atan2 | hypot => rfl

end Dual

namespace Nested

variable {F α : Type} {k : ℕ}

/-! ### Operations on every level -/

theorem primal_of_value {c : (k : ℕ) → Nested F k} (h : ∀ k, Dual.value (c (k + 1)) = c k) :
    (c k).primal = c 0 := by
  induction k with
  | zero => rfl
  | succ k ih => exact (congrArg primal (h k)).trans ih

theorem primal_of_value₁ {f : (k : ℕ) → Nested F k → Nested F k}
    (h : ∀ k x, Dual.value (f (k + 1) x) = f k (Dual.value x)) (x : Nested F k) :
    (f k x).primal = f 0 x.primal := by
  induction k with
  | zero => rfl
  | succ k ih => exact (congrArg primal (h k x)).trans (ih (Dual.value x))

theorem primal_of_value₂ {f : (k : ℕ) → Nested F k → Nested F k → Nested F k}
    (h : ∀ k x y, Dual.value (f (k + 1) x y) = f k (Dual.value x) (Dual.value y))
    (x y : Nested F k) : (f k x y).primal = f 0 x.primal y.primal := by
  induction k with
  | zero => rfl
  | succ k ih => exact (congrArg primal (h k x y)).trans (ih (Dual.value x) (Dual.value y))

theorem ask_of_value {f : (k : ℕ) → Nested F k → α} (h : ∀ k x, f (k + 1) x = f k (Dual.value x))
    (x : Nested F k) : f k x = f 0 x.primal := by
  induction k with
  | zero => rfl
  | succ k ih => exact (h k x).trans (ih (Dual.value x))

theorem ask_of_value₂ {f : (k : ℕ) → Nested F k → Nested F k → α}
    (h : ∀ k x y, f (k + 1) x y = f k (Dual.value x) (Dual.value y)) (x y : Nested F k) :
    f k x y = f 0 x.primal y.primal := by
  induction k with
  | zero => rfl
  | succ k ih => exact (h k x y).trans (ih (Dual.value x) (Dual.value y))

/-! ### Arithmetic -/

variable [Arith F]

@[simp]
theorem primal_zero : (0 : Nested F k).primal = 0 :=
  primal_of_value (c := fun _ => 0) fun _ => rfl

@[simp]
theorem primal_one : (1 : Nested F k).primal = 1 :=
  primal_of_value (c := fun _ => 1) fun _ => rfl

@[simp]
theorem primal_intCast (m : ℤ) : (m : Nested F k).primal = m :=
  primal_of_value (c := fun k => (m : Nested F k)) fun _ => rfl

@[simp]
theorem primal_constant (c : F) : (constant c : Nested F k).primal = c :=
  primal_of_value (c := fun _ => constant c) fun _ => rfl

@[simp]
theorem primal_add (x y : Nested F k) : (x + y).primal = x.primal + y.primal :=
  primal_of_value₂ (f := fun _ x y => x + y) (fun _ _ _ => rfl) x y

@[simp]
theorem primal_sub (x y : Nested F k) : (x - y).primal = x.primal - y.primal :=
  primal_of_value₂ (f := fun _ x y => x - y) (fun _ _ _ => rfl) x y

@[simp]
theorem primal_mul (x y : Nested F k) : (x * y).primal = x.primal * y.primal :=
  primal_of_value₂ (f := fun _ x y => x * y) (fun _ _ _ => rfl) x y

@[simp]
theorem primal_div (x y : Nested F k) : (x / y).primal = x.primal / y.primal :=
  primal_of_value₂ (f := fun _ x y => x / y) (fun _ _ _ => rfl) x y

@[simp]
theorem primal_neg (x : Nested F k) : (-x).primal = -x.primal :=
  primal_of_value₁ (f := fun _ x => -x) (fun _ _ => rfl) x

/-! ### Functions -/

variable [Functions F]

@[simp]
theorem primal_named (c : Constant) :
    (Functions.constant c : Nested F k).primal = Functions.constant c :=
  primal_of_value (c := fun _ => Functions.constant c) fun _ => rfl

@[simp]
theorem primal_unary (f : UnaryFn) (x : Nested F k) : (unary f x).primal = unary f x.primal :=
  primal_of_value₁ (f := fun _ => unary f) (fun _ x => Dual.value_unary f x) x

theorem primal_compared (f : BinaryFn) (x y : Nested F k) :
    (f.compared x y).primal = f.compared x.primal y.primal :=
  primal_of_value₂ (f := fun k (x y : Nested F k) => f.compared x y)
    (fun _ x y => Dual.value_compared f x y) x y

theorem primal_binary_succ (f : BinaryFn) (x y : Nested F (k + 1)) :
    (binary f x y).primal = f.compared x.primal y.primal :=
  (congrArg primal (Dual.binary_eq_compared f x y)).trans (primal_compared f x y)

theorem primal_binary {F : Type} [MachineFloat F] {f : BinaryFn} {x y : Nested F k}
    (h : f.Comparable x.primal y.primal) : (binary f x y).primal = binary f x.primal y.primal := by
  cases k with
  | zero => rfl
  | succ k => rw [primal_binary_succ, BinaryFn.compared_eq h]

@[simp]
theorem primal_powInt (x : Nested F k) (m : ℤ) :
    (Functions.powInt x m).primal = Functions.powInt x.primal m :=
  primal_of_value₁ (f := fun _ x => Functions.powInt x m) (fun _ _ => rfl) x

@[simp]
theorem primal_mulAdd (x y z : Nested F k) :
    (Functions.mulAdd x y z).primal = Functions.mulAdd x.primal y.primal z.primal := by
  induction k with
  | zero => rfl
  | succ k ih => exact ih (Dual.value x) (Dual.value y) (Dual.value z)

theorem map_primal_powInt (x : Nested F k) {m : ℤ} (h : 0 ≤ m ∨ k - 2 ^ 31 ≤ m) :
    (powInt x m).map primal = powInt (k := 0) x.primal m := by
  have hfits : exponentFits k m = exponentFits 0 m := by
    rw [Bool.eq_iff_iff, exponentFits_iff, exponentFits_iff]
    omega
  unfold powInt
  rw [hfits]
  split
  · exact congrArg Except.ok (primal_powInt x m)
  · rfl

/-! ### Questions -/

theorem lt_primal (x y : Nested F k) : Functions.lt x y = Functions.lt x.primal y.primal :=
  ask_of_value₂ (f := fun _ => Functions.lt) (fun _ _ _ => rfl) x y

theorem le_primal (x y : Nested F k) : Functions.le x y = Functions.le x.primal y.primal :=
  ask_of_value₂ (f := fun _ => Functions.le) (fun _ _ _ => rfl) x y

theorem eq_primal (x y : Nested F k) : Functions.eq x y = Functions.eq x.primal y.primal :=
  ask_of_value₂ (f := fun _ => Functions.eq) (fun _ _ _ => rfl) x y

theorem test_primal (t : Test) (x : Nested F k) :
    Functions.test t x = Functions.test t x.primal :=
  ask_of_value (f := fun _ => Functions.test t) (fun _ _ => rfl) x

theorem compare?_primal (x y : Nested F k) :
    Functions.compare? x y = Functions.compare? x.primal y.primal := by
  rw [Functions.compare?, lt_primal, eq_primal, lt_primal, ← Functions.compare?]

/-! ### Conversions -/

variable [Representation F]

theorem kind_primal (x : Nested F k) :
    Representation.kind x = Representation.kind x.primal :=
  ask_of_value (f := fun _ => Representation.kind) (fun _ _ => rfl) x

theorem decode_primal (x : Nested F k) :
    Representation.decode x = Representation.decode x.primal :=
  ask_of_value (f := fun _ => Representation.decode) (fun _ _ => rfl) x

theorem truncated?_primal (x : Nested F k) :
    Representation.truncated? x = Representation.truncated? x.primal :=
  ask_of_value (f := fun _ => Representation.truncated?) (fun _ _ => rfl) x

theorem toIntWithin?_primal (low high : ℤ) (x : Nested F k) :
    Representation.toIntWithin? low high x = Representation.toIntWithin? low high x.primal := by
  rw [Representation.toIntWithin?, truncated?_primal, ← Representation.toIntWithin?]

theorem toDouble_primal (x : Nested F k) :
    Representation.toDouble x = Representation.toDouble x.primal :=
  ask_of_value (f := fun _ => Representation.toDouble) (fun _ _ => rfl) x

@[simp]
theorem primal_ofDouble (d : Float) :
    (Representation.ofDouble d : Nested F k).primal = Representation.ofDouble d :=
  primal_of_value (c := fun _ => Representation.ofDouble d) fun _ => rfl

theorem map_primal_read? (text : String) :
    (Representation.read? text : Option (Nested F k)).map primal = Representation.read? text := by
  induction k with
  | zero => exact Option.map_id'
  | succ k ih =>
    refine (Option.map_map _ _ _).trans (Eq.trans ?_ ih)
    rfl

end Nested

/-! ### Calculations -/

inductive Query where
  | less
  | atMost
  | equal
  | test (t : Test)
  | kind (c : FloatKind)

def Query.ask {A : Type} [Functions A] [Representation A] (q : Query) (x y : A) : Bool :=
  match q with
  | less => Functions.lt x y
  | atMost => Functions.le x y
  | equal => Functions.eq x y
  | test t => Functions.test t x
  | kind c => Representation.kind x = c

/-- Calculations with `n` numbers by the operations of a number type. `double` and `within` convert
to double precision and to an integer, and back. -/
inductive Calculation (F : Type) (n : ℕ) where
  | input (i : Fin n)
  | plain (c : F)
  | named (c : Constant)
  | integer (m : ℤ)
  | add (a b : Calculation F n)
  | sub (a b : Calculation F n)
  | mul (a b : Calculation F n)
  | div (a b : Calculation F n)
  | neg (a : Calculation F n)
  | unary (f : UnaryFn) (a : Calculation F n)
  | binary (f : BinaryFn) (a b : Calculation F n)
  | powInt (a : Calculation F n) (m : ℤ)
  | mulAdd (a b c : Calculation F n)
  | double (a : Calculation F n)
  | within (low high : ℤ) (a : Calculation F n)
  | branch (q : Query) (a b yes no : Calculation F n)

namespace Calculation

variable {F : Type} {n k : ℕ}

section Run

variable [Arith F] [Functions F] [Representation F]

def run {k : ℕ} (x : Fin n → Nested F k) : Calculation F n → Option (Nested F k)
  | input i => return x i
  | plain c => return Nested.constant c
  | named c => return Functions.constant c
  | integer m => return m
  | add a b => return (← a.run x) + (← b.run x)
  | sub a b => return (← a.run x) - (← b.run x)
  | mul a b => return (← a.run x) * (← b.run x)
  | div a b => return (← a.run x) / (← b.run x)
  | neg a => return -(← a.run x)
  | unary f a => return Functions.unary f (← a.run x)
  | binary f a b => return Functions.binary f (← a.run x) (← b.run x)
  | powInt a m => do (Nested.powInt (← a.run x) m).toOption
  | mulAdd a b c => return Functions.mulAdd (← a.run x) (← b.run x) (← c.run x)
  | double a => return Representation.ofDouble (Representation.toDouble (← a.run x))
  | within low high a => do
    Option.map (Int.cast : ℤ → Nested F k) (Representation.toIntWithin? low high (← a.run x))
  | branch q a b yes no => do if q.ask (← a.run x) (← b.run x) then yes.run x else no.run x

def onPlain (x : Fin n → F) (e : Calculation F n) : Option F := e.run (k := 0) x

/-- On the plain numbers `x`, no comparison meets an undefined operand in place of a maximum, minimum
or excess, and exponents of powers stay `k` above the least one unless they are nonnegative. -/
def Regular (k : ℕ) (x : Fin n → F) : Calculation F n → Prop
  | input _ | plain _ | named _ | integer _ => True
  | neg a | unary _ a | double a | within _ _ a => a.Regular k x
  | add a b | sub a b | mul a b | div a b => a.Regular k x ∧ b.Regular k x
  | mulAdd a b c => a.Regular k x ∧ b.Regular k x ∧ c.Regular k x
  | powInt a m => a.Regular k x ∧ (0 ≤ m ∨ k - 2 ^ 31 ≤ m)
  | binary f a b => a.Regular k x ∧ b.Regular k x ∧
    ∀ u ∈ a.onPlain x, ∀ v ∈ b.onPlain x, f.Comparable u v
  | branch q a b yes no => a.Regular k x ∧ b.Regular k x ∧
    ∀ u ∈ a.onPlain x, ∀ v ∈ b.onPlain x, if q.ask u v then yes.Regular k x else no.Regular k x

omit [Arith F] [Functions F] [Representation F] in
theorem map_primal_bind {u : Option (Nested F k)} {v : Option F} (h : u.map Nested.primal = v)
    {f : Nested F k → Option (Nested F k)} {g : F → Option F}
    (hfg : ∀ y : Nested F k, y.primal ∈ v → (f y).map Nested.primal = g y.primal) :
    (u >>= f).map Nested.primal = v >>= g := by
  subst h
  cases u with
  | none => rfl
  | some y => exact hfg y rfl

theorem ask_primal (q : Query) (x y : Nested F k) : q.ask x y = q.ask x.primal y.primal := by
  cases q with
  | less => exact Nested.lt_primal x y
  | atMost => exact Nested.le_primal x y
  | equal => exact Nested.eq_primal x y
  | test t => exact Nested.test_primal t x
  | kind c => exact congrArg (fun d => decide (d = c)) (Nested.kind_primal x)

end Run

variable [MachineFloat F]

theorem map_primal_run {e : Calculation F n} {x : Fin n → Nested F k}
    (h : e.Regular k fun i => (x i).primal) :
    (e.run x).map Nested.primal = e.onPlain fun i => (x i).primal := by
  induction e with
  | input i => rfl
  | plain c => exact congrArg some (Nested.primal_constant c)
  | named c => exact congrArg some (Nested.primal_named c)
  | integer m => exact congrArg some (Nested.primal_intCast m)
  | add a b iha ihb =>
    refine map_primal_bind (iha h.1) fun u _ => map_primal_bind (ihb h.2) fun v _ => ?_
    exact congrArg some (Nested.primal_add u v)
  | sub a b iha ihb =>
    refine map_primal_bind (iha h.1) fun u _ => map_primal_bind (ihb h.2) fun v _ => ?_
    exact congrArg some (Nested.primal_sub u v)
  | mul a b iha ihb =>
    refine map_primal_bind (iha h.1) fun u _ => map_primal_bind (ihb h.2) fun v _ => ?_
    exact congrArg some (Nested.primal_mul u v)
  | div a b iha ihb =>
    refine map_primal_bind (iha h.1) fun u _ => map_primal_bind (ihb h.2) fun v _ => ?_
    exact congrArg some (Nested.primal_div u v)
  | neg a iha => exact map_primal_bind (iha h) fun u _ => congrArg some (Nested.primal_neg u)
  | unary f a iha =>
    exact map_primal_bind (iha h) fun u _ => congrArg some (Nested.primal_unary f u)
  | binary f a b iha ihb =>
    obtain ⟨ha, hb, hf⟩ := h
    refine map_primal_bind (iha ha) fun u hu => map_primal_bind (ihb hb) fun v hv => ?_
    exact congrArg some (Nested.primal_binary (hf _ hu _ hv))
  | powInt a m iha =>
    refine map_primal_bind (iha h.1) fun u _ => ?_
    refine Eq.trans ?_ (congrArg Except.toOption (Nested.map_primal_powInt u h.2))
    cases Nested.powInt u m <;> rfl
  | mulAdd a b c iha ihb ihc =>
    refine map_primal_bind (iha h.1) fun u _ => map_primal_bind (ihb h.2.1) fun v _ =>
      map_primal_bind (ihc h.2.2) fun w _ => ?_
    exact congrArg some (Nested.primal_mulAdd u v w)
  | double a iha =>
    refine map_primal_bind (iha h) fun u _ => congrArg some ?_
    rw [Nested.primal_ofDouble, Nested.toDouble_primal]
    rfl
  | within low high a iha =>
    refine map_primal_bind (iha h) fun u _ => ?_
    rw [Nested.toIntWithin?_primal, Option.map_map]
    exact congrArg (Option.map · _) (funext Nested.primal_intCast)
  | branch q a b yes no iha ihb ihyes ihno =>
    obtain ⟨ha, hb, hbranch⟩ := h
    refine map_primal_bind (iha ha) fun u hu => map_primal_bind (ihb hb) fun v hv => ?_
    have hside := hbranch _ hu _ hv
    rw [ask_primal]
    by_cases hq : q.ask u.primal v.primal = true
    · rw [if_pos hq] at hside ⊢
      exact (ihyes hside).trans (if_pos hq).symm
    · rw [if_neg hq] at hside ⊢
      exact (ihno hside).trans (if_neg hq).symm

end Calculation

/-- At depth `k` everything a number type offers does to innermost values what it does to plain
numbers. -/
structure PrimalFaithful (F : Type) [MachineFloat F] (k : ℕ) : Prop where
  zero : (0 : Nested F k).primal = 0
  one : (1 : Nested F k).primal = 1
  integer : ∀ m : ℤ, (m : Nested F k).primal = m
  plain : ∀ c : F, (Nested.constant c : Nested F k).primal = c
  named : ∀ c, (Functions.constant c : Nested F k).primal = Functions.constant c
  add : ∀ x y : Nested F k, (x + y).primal = x.primal + y.primal
  sub : ∀ x y : Nested F k, (x - y).primal = x.primal - y.primal
  mul : ∀ x y : Nested F k, (x * y).primal = x.primal * y.primal
  div : ∀ x y : Nested F k, (x / y).primal = x.primal / y.primal
  neg : ∀ x : Nested F k, (-x).primal = -x.primal
  unary : ∀ f (x : Nested F k), (unary f x).primal = unary f x.primal
  sinCos : ∀ x : Nested F k,
    (Functions.sinCos x).map Nested.primal Nested.primal = Functions.sinCos x.primal
  binary : ∀ (f : BinaryFn) (x y : Nested F k), f.Comparable x.primal y.primal →
    (binary f x y).primal = binary f x.primal y.primal
  compared : k ≠ 0 → ∀ (f : BinaryFn) (x y : Nested F k),
    (Functions.binary f x y).primal = f.compared x.primal y.primal
  powInt : ∀ (x : Nested F k) (m : ℤ), m < 2 ^ 31 → (0 ≤ m ∨ k - 2 ^ 31 ≤ m) →
    ∃ y, Nested.powInt x m = .ok y ∧ y.primal = Functions.powInt x.primal m
  mulAdd : ∀ x y z : Nested F k,
    (Functions.mulAdd x y z).primal = Functions.mulAdd x.primal y.primal z.primal
  lt : ∀ x y : Nested F k, Functions.lt x y = Functions.lt x.primal y.primal
  le : ∀ x y : Nested F k, Functions.le x y = Functions.le x.primal y.primal
  eq : ∀ x y : Nested F k, Functions.eq x y = Functions.eq x.primal y.primal
  isZero : ∀ x : Nested F k, Functions.eq x 0 = Functions.eq x.primal 0
  isOne : ∀ x : Nested F k, Functions.eq x 1 = Functions.eq x.primal 1
  compare? : ∀ x y : Nested F k,
    Functions.compare? x y = Functions.compare? x.primal y.primal
  test : ∀ t (x : Nested F k), Functions.test t x = Functions.test t x.primal
  kind : ∀ x : Nested F k, Representation.kind x = Representation.kind x.primal
  decode : ∀ x : Nested F k, Representation.decode x = Representation.decode x.primal
  toIntWithin? : ∀ low high (x : Nested F k),
    Representation.toIntWithin? low high x = Representation.toIntWithin? low high x.primal
  toDouble : ∀ x : Nested F k, Representation.toDouble x = Representation.toDouble x.primal
  ofDouble : ∀ d, (Representation.ofDouble d : Nested F k).primal = Representation.ofDouble d
  read? : ∀ text,
    (Representation.read? text : Option (Nested F k)).map Nested.primal = Representation.read? text
  run : ∀ {n : ℕ} (e : Calculation F n) (x : Fin n → Nested F k),
    (e.Regular k fun i => (x i).primal) →
    (e.run x).map Nested.primal = e.onPlain fun i => (x i).primal

theorem primalFaithful (F : Type) [MachineFloat F] (k : ℕ) : PrimalFaithful F k where
  zero := Nested.primal_zero
  one := Nested.primal_one
  integer := Nested.primal_intCast
  plain := Nested.primal_constant
  named := Nested.primal_named
  add := Nested.primal_add
  sub := Nested.primal_sub
  mul := Nested.primal_mul
  div := Nested.primal_div
  neg := Nested.primal_neg
  unary := Nested.primal_unary
  sinCos x := Prod.ext (Nested.primal_unary .sin x) (Nested.primal_unary .cos x)
  binary _ _ _ := Nested.primal_binary
  compared h f x y := by
    obtain ⟨k, rfl⟩ := Nat.exists_eq_succ_of_ne_zero h
    exact Nested.primal_binary_succ f x y
  powInt x m hm h :=
    ⟨_, if_pos (Nested.exponentFits_iff.mpr ⟨hm, h⟩), Nested.primal_powInt x m⟩
  mulAdd := Nested.primal_mulAdd
  lt := Nested.lt_primal
  le := Nested.le_primal
  eq := Nested.eq_primal
  isZero x := by rw [Nested.eq_primal, Nested.primal_zero]
  isOne x := by rw [Nested.eq_primal, Nested.primal_one]
  compare? := Nested.compare?_primal
  test := Nested.test_primal
  kind := Nested.kind_primal
  decode := Nested.decode_primal
  toIntWithin? := Nested.toIntWithin?_primal
  toDouble := Nested.toDouble_primal
  ofDouble := Nested.primal_ofDouble
  read? := Nested.map_primal_read?
  run _ _ := Calculation.map_primal_run

/-- Forgetting tangents commutes with every operation at every depth. At the first level a plain
operand acts on the value alone, and an assignment leaves the result of its operator. -/
theorem tangents_forgotten (F : Type) [MachineFloat F] :
    (∀ k, PrimalFaithful F k) ∧
      (∀ (x : Dual F) (c : F),
        (x.addPlain c).value = x.value + c ∧ (Dual.plainAdd c x).value = x.value + c ∧
        (x.subPlain c).value = x.value - c ∧ (Dual.plainSub c x).value = c - x.value ∧
        (x.mulPlain c).value = x.value * c ∧ (Dual.plainMul c x).value = x.value * c ∧
        (x.divPlain c).value = x.value / c ∧ (Dual.plainDiv c x).value = c / x.value) ∧
      ∀ {k : ℕ} (op : Nested F (k + 1) → Nested F (k + 1) → Nested F (k + 1))
        (x y : Nested F (k + 1)), ((Dual.assign op y).run x).2 = op x y :=
  ⟨primalFaithful F, fun _ _ => ⟨rfl, rfl, rfl, rfl, rfl, rfl, rfl, rfl⟩, fun _ _ _ => rfl⟩

def Double.undefined : Float := Functions.constant .nan

def clipped : Calculation Float 1 :=
  .branch (.test .infinite) (.input (Fin.last 0)) (.input (Fin.last 0)) (.integer 1)
    (.binary .max (.input (Fin.last 0)) (.integer 1))

def spoiledTwo : Nested Float 2 :=
  (⟨⟨1 + 1, Double.undefined⟩, Dual.constant Double.undefined⟩ : Dual (Dual Float))

theorem tangents_forgotten_spoiledTwo :
    (clipped.run fun _ => spoiledTwo).map Nested.primal = some (1 + 1) := by
  have hfinite : (Query.test .infinite).ask (1 + 1 : Float) (1 + 1) = false := by decide +kernel
  have hdefined : Functions.test .nan (1 + 1 : Float) = false := by decide +kernel
  have hregular : clipped.Regular 2 fun _ => spoiledTwo.primal := by
    refine ⟨trivial, trivial, fun u hu v hv => ?_⟩
    obtain rfl := Option.some.inj hu
    obtain rfl := Option.some.inj hv
    refine (if_neg (Bool.eq_false_iff.mp hfinite)).mpr ⟨trivial, trivial, fun w hw _ _ hnan => ?_⟩
    obtain rfl := Option.some.inj hw
    exact absurd hnan (Bool.eq_false_iff.mp hdefined)
  refine (((tangents_forgotten Float).1 2).run clipped (fun _ => spoiledTwo) hregular).trans ?_
  decide +kernel

/-- The comparison keeps an undefined first operand, which the maximum of machine floats drops, and
takes an undefined excess for zero. -/
theorem undefined_kept :
    (binary .max (Dual.constant Double.undefined) 1).value = Double.undefined ∧
      binary .max Double.undefined 1 = 1 ∧ Double.undefined ≠ 1 ∧
      (binary .excess (Dual.constant Double.undefined) 1).value = 0 ∧
      Functions.test .nan (binary .excess Double.undefined 1) = true := by
  decide +kernel

end Autodiff
