import Autodiff.Number.Functions

/-!
# Dual numbers

`⟨value, tangent⟩` stands for `value + tangent ε` with `ε² = 0`. The components may be dual numbers
again, which carries derivatives of higher order.
-/

set_option autoImplicit false

namespace Autodiff

@[ext]
structure Dual (α : Type) where
  value : α
  tangent : α
deriving DecidableEq

namespace Dual

variable {α : Type}

def constant [Zero α] (x : α) : Dual α := ⟨x, 0⟩

def seed [One α] (x : α) : Dual α := ⟨x, 1⟩

def map [Mul α] (x : Dual α) (value derivative : α) : Dual α := ⟨value, derivative * x.tangent⟩

instance [Zero α] : Inhabited (Dual α) := ⟨constant 0⟩

variable [Arith α]

def add (x y : Dual α) : Dual α := ⟨x.value + y.value, x.tangent + y.tangent⟩

def sub (x y : Dual α) : Dual α := ⟨x.value - y.value, x.tangent - y.tangent⟩

def mul (x y : Dual α) : Dual α :=
  ⟨x.value * y.value, x.tangent * y.value + x.value * y.tangent⟩

/-- Unchecked: a zero divisor gives infinite or undefined components. -/
def div (x y : Dual α) : Dual α :=
  let q := x.value / y.value
  ⟨q, (x.tangent - q * y.tangent) / y.value⟩

def neg (x : Dual α) : Dual α := ⟨-x.value, -x.tangent⟩

instance : Arith (Dual α) where
  zero := constant 0
  one := constant 1
  add := add
  sub := sub
  mul := mul
  div := div
  neg := neg
  intCast n := constant (n : α)

@[simp]
theorem value_zero : (0 : Dual α).value = 0 := rfl

@[simp]
theorem tangent_zero : (0 : Dual α).tangent = 0 := rfl

@[simp]
theorem value_one : (1 : Dual α).value = 1 := rfl

@[simp]
theorem tangent_one : (1 : Dual α).tangent = 0 := rfl

@[simp]
theorem value_intCast (n : Int) : (n : Dual α).value = n := rfl

@[simp]
theorem tangent_intCast (n : Int) : (n : Dual α).tangent = 0 := rfl

@[simp]
theorem value_add (x y : Dual α) : (x + y).value = x.value + y.value := rfl

@[simp]
theorem tangent_add (x y : Dual α) : (x + y).tangent = x.tangent + y.tangent := rfl

@[simp]
theorem value_sub (x y : Dual α) : (x - y).value = x.value - y.value := rfl

@[simp]
theorem tangent_sub (x y : Dual α) : (x - y).tangent = x.tangent - y.tangent := rfl

@[simp]
theorem value_mul (x y : Dual α) : (x * y).value = x.value * y.value := rfl

@[simp]
theorem tangent_mul (x y : Dual α) :
    (x * y).tangent = x.tangent * y.value + x.value * y.tangent := rfl

@[simp]
theorem value_div (x y : Dual α) : (x / y).value = x.value / y.value := rfl

@[simp]
theorem tangent_div (x y : Dual α) :
    (x / y).tangent = (x.tangent - x.value / y.value * y.tangent) / y.value := rfl

@[simp]
theorem value_neg (x : Dual α) : (-x).value = -x.value := rfl

@[simp]
theorem tangent_neg (x : Dual α) : (-x).tangent = -x.tangent := rfl

def assign (op : Dual α → Dual α → Dual α) (y : Dual α) : StateM (Dual α) Unit := modify (op · y)

def addPlain (x : Dual α) (c : α) : Dual α := ⟨x.value + c, x.tangent⟩

def subPlain (x : Dual α) (c : α) : Dual α := ⟨x.value - c, x.tangent⟩

def mulPlain (x : Dual α) (c : α) : Dual α := ⟨x.value * c, x.tangent * c⟩

def divPlain (x : Dual α) (c : α) : Dual α := ⟨x.value / c, x.tangent / c⟩

/-- `c + x`, computed as `x + c`. -/
def plainAdd (c : α) (x : Dual α) : Dual α := x.addPlain c

def plainSub (c : α) (x : Dual α) : Dual α := ⟨c - x.value, -x.tangent⟩

def plainMul (c : α) (x : Dual α) : Dual α := x.mulPlain c

def plainDiv (c : α) (x : Dual α) : Dual α :=
  let q := c / x.value
  ⟨q, -q * x.tangent / x.value⟩

end Dual

end Autodiff
