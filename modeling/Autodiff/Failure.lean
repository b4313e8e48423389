import Autodiff.Number.Double

set_option autoImplicit false

namespace Autodiff

inductive Quoted (F : Type) where
  | operand (value : F)
  | datum (value : Int)

inductive EvalError (F : Type) where
  | domain (op operand : String) (value : Quoted F) (requirement : String)
  | sizeMismatch (op lhsName : String) (lhs : Nat) (rhsName : String) (rhs : Nat)
  | notSquare (op : String) (rows cols : Nat)
  | notSymmetric (op : String) (row col : Nat) (upper lower : F)
  | notPositiveDefinite (op : String) (pivot : Nat) (value : F)
  | exhausted (capacity : Nat)

inductive Fault where
  | arity (name : String) (expected got : Nat)
  | partialCount (kind : String)
  | operandOrder (kind : String) (operand node : Nat)
  | staleVariable (node : Nat) (epoch current : UInt32)
  | noActiveTape
  | parameterCount
  | directionLength
  | tangentLength
  | weightLength
  | dataLength (length rows cols : Nat)
  | thinning
  | outOfRange
  | shape
  | divisionByZero
  | overflow
deriving DecidableEq

/-- A size, a count or a number of an iteration: it has to be a machine word. -/
def machineWord (n : Nat) : Except Fault Nat :=
  if n < UInt64.size then .ok n else .error .overflow

theorem machineWord_of_lt {n : Nat} (h : n < UInt64.size) : machineWord n = .ok n := if_pos h

theorem machineWord_of_not_lt {n : Nat} (h : ¬ n < UInt64.size) :
    machineWord n = .error .overflow := if_neg h

inductive Failure (F : Type) where
  | error (cause : EvalError F)
  | fault (cause : Fault)

abbrev Outcome (F : Type) := Except (Failure F)

namespace EvalError

variable {F : Type}

/-- Whether the input alone is at fault, so that a caller may go on with another one. -/
def isRejection : EvalError F → Bool
  | .exhausted _ => false
  | _ => true

def operation? : EvalError F → Option String
  | .domain op _ _ _ => some op
  | .sizeMismatch op _ _ _ _ => some op
  | .notSquare op _ _ => some op
  | .notSymmetric op _ _ _ _ => some op
  | .notPositiveDefinite op _ _ => some op
  | .exhausted _ => none

variable [Representation F]

def quote (x : F) : String := Representation.text (Representation.toDouble x)

def message : EvalError F → String
  | .domain op operand value requirement =>
    let value := match value with
      | .operand x => quote x
      | .datum n => toString n
    op ++ ": " ++ operand ++ " = " ++ value ++ " is not " ++ requirement
  | .sizeMismatch op lhsName lhs rhsName rhs =>
    op ++ ": " ++ lhsName ++ " (" ++ toString lhs ++ ") does not match " ++ rhsName ++
      " (" ++ toString rhs ++ ")"
  | .notSquare op rows cols =>
    op ++ ": expected a square matrix, got " ++ toString rows ++ "x" ++ toString cols
  | .notSymmetric op row col upper lower =>
    let entry (i j : Nat) (x : F) :=
      "m[" ++ toString i ++ "," ++ toString j ++ "] = " ++ quote x
    op ++ ": matrix is not symmetric: " ++ entry row col upper ++ " but " ++ entry col row lower
  | .notPositiveDefinite op pivot value =>
    op ++ ": matrix is not positive definite: pivot " ++ toString pivot ++ " is " ++ quote value
  | .exhausted capacity => "arena exhausted: node limit of " ++ toString capacity ++ " reached"

end EvalError

def Fault.message? : Fault → Option String
  | .arity name expected got =>
    some (name ++ ": expected " ++ toString expected ++ " operands, got " ++ toString got)
  | .partialCount kind => some (kind ++ ": operand and partial counts differ")
  | .operandOrder kind operand node =>
    some (kind ++ ": operand " ++ toString operand ++ " is not older than node " ++ toString node)
  | .staleVariable node epoch current =>
    some ("stale variable: node " ++ toString node ++ " from epoch " ++ toString epoch.toNat ++
      " used in epoch " ++ toString current.toNat)
  | .noActiveTape =>
    some "No active arena. Use adcore::grad(), a GradientEvaluator, or an ArenaGuard."
  | .parameterCount => some "parameter count must match model dimension"
  | .directionLength => some "params and direction must have the same length"
  | .tangentLength => some "x and v must have the same length"
  | .weightLength => some "output length must match weight vector length"
  | .dataLength length rows cols =>
    some ("data length " ++ toString length ++ " does not fit a " ++ toString rows ++ "x" ++
      toString cols ++ " matrix")
  | .thinning => some "num_thin must be positive when saving"
  | .outOfRange => none
  | .shape => none
  | .divisionByZero => none
  | .overflow => none

end Autodiff
