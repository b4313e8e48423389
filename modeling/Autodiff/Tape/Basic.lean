import Autodiff.Failure

/-!
# The tape

A tape holds the nodes of one epoch in the order of their creation. The operands and partials of all
nodes lie in two flat stacks of equal height; a node keeps only the end of its span, which begins
where the span of the node before it ends.
-/

set_option autoImplicit false

namespace Autodiff

inductive NodeKind where
  | input | add | sub | mul | div | neg | rem | affine
  | primitive (name : String)
deriving DecidableEq

def NodeKind.label : NodeKind → String
  | .input => "Input"
  | .add => "Add"
  | .sub => "Sub"
  | .mul => "Mul"
  | .div => "Div"
  | .neg => "Neg"
  | .rem => "Rem"
  | .affine => "Affine"
  | .primitive name => name

def NodeKind.ofLabel (label : String) : NodeKind :=
  match [NodeKind.input, .add, .sub, .mul, .div, .neg, .rem, .affine].find? (·.label = label) with
  | some kind => kind
  | none => .primitive label

/-- A handle on a number: its value and, unless it is a constant, the node that holds it together
with the epoch in which the node was recorded. -/
structure Handle (F : Type) where
  value : F
  node : Option Nat
  epoch : UInt32

namespace Handle

variable {F : Type}

def constant (x : F) : Handle F := ⟨x, none, 0⟩

def isConstant (x : Handle F) : Bool := x.node.isNone

def noNode : UInt32 := 0xFFFFFFFF

def ofNode (x : F) (index epoch : UInt32) : Handle F :=
  ⟨x, if index = noNode then none else some index.toNat, epoch⟩

instance [Zero F] : Inhabited (Handle F) := ⟨constant 0⟩

end Handle

/-- `stop` is where the node's span of operands ends, cut to a word: it is wrong from `2 ^ 32`
operands on. -/
structure Node (F : Type) where
  kind : NodeKind
  value : F
  stop : UInt32

structure NodeEntry (F : Type) where
  kind : NodeKind
  value : F
  adjoint : F
  operands : List Nat
  partials : List F

/-- `adjoints` holds the result of the latest sweep, if any. `exhausted` remembers that a recording
was refused in this epoch. -/
structure Tape (F : Type) where
  nodes : Array (Node F) := #[]
  operands : Array Nat := #[]
  partials : Array F := #[]
  adjoints : Array F := #[]
  epoch : UInt32 := 0
  limit : Option Nat := none
  exhausted : Bool := false

namespace Tape

variable {F : Type}

def empty : Tape F := {}

def limitedTo (limit : Nat) : Tape F := { limit := some limit }

def size (t : Tape F) : Nat := t.nodes.size

def isEmpty (t : Tape F) : Bool := t.nodes.isEmpty

def capacity (t : Tape F) : Nat := t.limit.getD t.nodes.size

/-- Node indices stay below the word that marks constants. -/
def isFull (t : Tape F) : Bool :=
  t.limit.any (· ≤ t.nodes.size) || Handle.noNode.toNat ≤ t.nodes.size

def nextEpoch (t : Tape F) : Tape F := { limit := t.limit, epoch := t.epoch + 1 }

def spanStop (t : Tape F) (i : Nat) : Nat := (t.nodes[i]?).elim 0 fun node => node.stop.toNat

def spanStart (t : Tape F) (i : Nat) : Nat :=
  match i with
  | 0 => 0
  | i + 1 => t.spanStop i

/-- What the stacks hold between the ends of the span of node `i`, which is nothing if they are in
the wrong order. -/
def edges (t : Tape F) (i : Nat) : List (Nat × F) :=
  (t.operands.extract (t.spanStart i) (t.spanStop i)).toList.zip
    (t.partials.extract (t.spanStart i) (t.spanStop i)).toList

def adjointAt [Zero F] (t : Tape F) (i : Nat) : F := t.adjoints.getD i 0

def readNode? [Zero F] (t : Tape F) (i : Nat) : Option (NodeEntry F) :=
  if t.spanStop i < t.spanStart i then none
  else (t.nodes[i]?).map fun node =>
    { kind := node.kind
      value := node.value
      adjoint := t.adjointAt i
      operands := (t.edges i).map Prod.fst
      partials := (t.edges i).map Prod.snd }

def readNodes? [Zero F] (t : Tape F) : Option (List (NodeEntry F)) :=
  (List.range t.nodes.size).mapM t.readNode?

def extend (t : Tape F) (edges : List (Nat × F)) : Tape F :=
  { t with
    operands := t.operands ++ (edges.map Prod.fst).toArray
    partials := t.partials ++ (edges.map Prod.snd).toArray }

def push (t : Tape F) (kind : NodeKind) (edges : List (Nat × F)) (value : F) : Tape F :=
  let t := t.extend edges
  { t with nodes := t.nodes.push ⟨kind, value, t.operands.size.toUInt32⟩ }

@[simp]
theorem size_push (t : Tape F) (kind : NodeKind) (edges : List (Nat × F)) (value : F) :
    (t.push kind edges value).size = t.size + 1 :=
  Array.size_push _

@[simp]
theorem operands_push (t : Tape F) (kind : NodeKind) (edges : List (Nat × F)) (value : F) :
    (t.push kind edges value).operands.toList = t.operands.toList ++ edges.map Prod.fst := by
  simp [push, extend]

@[simp]
theorem partials_push (t : Tape F) (kind : NodeKind) (edges : List (Nat × F)) (value : F) :
    (t.push kind edges value).partials.toList = t.partials.toList ++ edges.map Prod.snd := by
  simp [push, extend]

@[simp]
theorem exhausted_push (t : Tape F) (kind : NodeKind) (edges : List (Nat × F)) (value : F) :
    (t.push kind edges value).exhausted = t.exhausted := rfl

@[simp]
theorem size_nextEpoch (t : Tape F) : t.nextEpoch.size = 0 := rfl

@[simp]
theorem epoch_nextEpoch (t : Tape F) : t.nextEpoch.epoch = t.epoch + 1 := rfl

@[simp]
theorem limit_nextEpoch (t : Tape F) : t.nextEpoch.limit = t.limit := rfl

def liveEdges (operands : List (Option Nat)) (partials : List F) : List (Nat × F) :=
  (operands.zip partials).filterMap fun (operand, p) => operand.map (·, p)

/-- A handle is live in the epoch of its node while that node exists. -/
def requireLive (t : Tape F) (x : Handle F) : Outcome F Unit :=
  match x.node with
  | none => .ok ()
  | some i =>
    if x.epoch = t.epoch ∧ i < t.nodes.size then .ok ()
    else .error (.fault (.staleVariable i x.epoch t.epoch))

def valueOf (t : Tape F) (x : Handle F) : Outcome F F := do
  t.requireLive x
  return match x.node with
    | none => x.value
    | some i => (t.nodes[i]?).elim x.value Node.value

def adjointOf [Zero F] (t : Tape F) (x : Handle F) : Outcome F F := do
  t.requireLive x
  return x.node.elim 0 t.adjointAt

def summary (t : Tape F) : String :=
  let limit := match t.limit with
    | none => "None"
    | some n => "Some(" ++ toString n ++ ")"
  "Arena \x7b nodes: " ++ toString t.nodes.size ++ ", operands: " ++ toString t.operands.size ++
    ", epoch: " ++ toString t.epoch.toNat ++ ", limit: " ++ limit ++ ", exhausted: " ++
    (if t.exhausted then "true" else "false") ++ " \x7d"

end Tape

end Autodiff
