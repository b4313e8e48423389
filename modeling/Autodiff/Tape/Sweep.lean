import Autodiff.Number.Functions
import Autodiff.Tape.Basic

/-!
# The reverse sweep

Nodes are visited from the newest to the oldest, so each has received every contribution of later
nodes before it passes its adjoint on to its operands.
-/

set_option autoImplicit false

namespace Autodiff.Tape

variable {F : Type} [Arith F]

def clearAdjoints (t : Tape F) : Tape F :=
  { t with adjoints := Array.replicate t.nodes.size 0 }

def addSeed (adjoints : Array F) (seed : Handle F × F) : Array F :=
  match seed.1.node with
  | none => adjoints
  | some i => adjoints.modify i (· + seed.2)

variable [Functions F]

/-- Passes the adjoint of node `i` on to its operands; a zero adjoint passes nothing. -/
def propagate (t : Tape F) (adjoints : Array F) (i : Nat) : Array F :=
  let a := adjoints.getD i 0
  if Functions.eq a 0 then adjoints
  else (t.edges i).foldl (fun adjoints (k, p) => adjoints.modify k (· + p * a)) adjoints

def sweep (t : Tape F) (adjoints : Array F) : Array F :=
  (List.range t.nodes.size).reverse.foldl t.propagate adjoints

end Autodiff.Tape
