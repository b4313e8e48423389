import Autodiff.Dual.Functions
import Autodiff.Failure

set_option autoImplicit false

namespace Autodiff

/-- Dual numbers of depth `k`; those of depth zero are the plain numbers. -/
def Nested (α : Type) : Nat → Type
  | 0 => α
  | k + 1 => Dual (Nested α k)

namespace Nested

variable {α : Type}

instance instArith [Arith α] : (k : Nat) → Arith (Nested α k)
  | 0 => inferInstanceAs (Arith α)
  | k + 1 =>
    have := instArith k
    inferInstanceAs (Arith (Dual (Nested α k)))

instance instFunctions [Arith α] [Functions α] : (k : Nat) → Functions (Nested α k)
  | 0 => inferInstanceAs (Functions α)
  | k + 1 =>
    have := instFunctions k
    inferInstanceAs (Functions (Dual (Nested α k)))

instance instRepresentation [Arith α] [Functions α] [Representation α] :
    (k : Nat) → Representation (Nested α k)
  | 0 => inferInstanceAs (Representation α)
  | k + 1 =>
    have := instRepresentation k
    inferInstanceAs (Representation (Dual (Nested α k)))

def primal : {k : Nat} → Nested α k → α
  | 0, x => x
  | _ + 1, x => primal (Dual.value x)

def constant [Arith α] : {k : Nat} → α → Nested α k
  | 0, c => c
  | k + 1, c => Dual.constant (constant c : Nested α k)

/-- Whether all exponents of a power at depth `k` have 32 bits. Next to the power itself every level
takes that with the exponent lowered by one, except from zero. -/
def exponentFits : Nat → Int → Bool
  | 0, n => Int32.minValue.toInt ≤ n && n ≤ Int32.maxValue.toInt
  | k + 1, n => exponentFits k n && (n == 0 || exponentFits k (n - 1))

def powInt [Arith α] [Functions α] {k : Nat} (x : Nested α k) (n : Int) :
    Except Fault (Nested α k) :=
  if exponentFits k n then .ok (Functions.powInt x n) else .error .overflow

end Nested

end Autodiff
