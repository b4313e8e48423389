import Autodiff.Failure

set_option autoImplicit false

namespace Autodiff

/-- `exhausted` is the first refusal of an epoch, `swept` and `rejected` end an evaluation, and
`writing` precedes the two rows of a kept state. -/
inductive Event (F : Type) where
  | exhausted (capacity : Nat) (epoch : UInt32)
  | swept (nodes : Nat) (epoch : UInt32)
  | rejected (cause : EvalError F) (number : Nat)
  | writing (iteration : Nat)
  | progress (line : String)

inductive Level where
  | trace | debug | info | warn
deriving DecidableEq

def Level.label : Level → String
  | .trace => "TRACE"
  | .debug => "DEBUG"
  | .info => "INFO"
  | .warn => "WARN"

inductive FieldValue where
  | number (n : Nat)
  | text (s : String)
deriving DecidableEq

namespace Event

variable {F : Type}

def level : Event F → Level
  | .exhausted _ _ => .warn
  | .swept _ _ => .trace
  | .rejected _ _ => .debug
  | .writing _ => .trace
  | .progress _ => .info

def message : Event F → String
  | .exhausted _ _ => "arena exhausted"
  | .swept _ _ => "reverse sweep complete"
  | .rejected _ _ => "evaluation rejected"
  | .writing _ => "writing sample"
  | .progress line => line

def fields [Representation F] : Event F → List (String × FieldValue)
  | .exhausted capacity epoch => [("capacity", .number capacity), ("epoch", .number epoch.toNat)]
  | .swept nodes epoch => [("nodes", .number nodes), ("epoch", .number epoch.toNat)]
  | .rejected cause number => [("error", .text cause.message), ("eval", .number number)]
  | .writing iteration => [("iteration", .number iteration)]
  | .progress _ => []

end Event

end Autodiff
