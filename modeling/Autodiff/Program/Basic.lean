import Autodiff.Program.Interpretation

set_option autoImplicit false

namespace Autodiff

inductive Slot (S : Type) where
  | scalar (x : S)
  | matrix (a : Matrix S)

/-- Operands are slot numbers. `value i` is the number in slot `i` as a constant, and `larger i j`
copies slot `i` if it is greater than slot `j` and slot `j` otherwise. -/
inductive Step (F : Type) where
  | const (c : F)
  | zero
  | value (i : Nat)
  | add (i j : Nat)
  | sub (i j : Nat)
  | mul (i j : Nat)
  | div (i j : Nat)
  | neg (i : Nat)
  | larger (i j : Nat)
  | apply (p : Primitive F) (args : List Nat)
  | applyJoint (op : JointOp F) (a : Nat)
  | entry (a i j : Nat)
  | sumSquares (a : Nat)
  | sum (a : Nat)
  | matrix (rows cols : Nat) (entries : List Nat)
  | constMatrix (rows cols : Nat) (entries : List F)
  | column (entries : List Nat)
  | row (entries : List Nat)
  | identity (n : Nat)
  | zeros (rows cols : Nat)
  | values (a : Nat)
  | transpose (a : Nat)
  | multiply (a b : Nat)
  | hcat (a b : Nat)
  | vcat (a b : Nat)
  | entrywise (p : Primitive F) (a : Nat)

/-- Without a list of outputs the last slot is the output. -/
structure Program (F : Type) where
  steps : List (Step F)
  outputs : Option (List Nat) := none

variable {F S : Type}

abbrev Slots (S : Type) := Array (Slot S)

namespace Slots

def scalar (slots : Slots S) (i : Nat) : Outcome F S :=
  match slots[i]? with
  | some (.scalar x) => .ok x
  | _ => .error (.fault .outOfRange)

def scalars (slots : Slots S) (is : List Nat) : Outcome F (List S) := is.mapM slots.scalar

def matrix (slots : Slots S) (i : Nat) : Outcome F (Matrix S) :=
  match slots[i]? with
  | some (.matrix a) => .ok a
  | _ => .error (.fault .outOfRange)

def flatten (slots : Slots S) (i : Nat) : Outcome F (List S) :=
  match slots[i]? with
  | some (.scalar x) => .ok [x]
  | some (.matrix a) => .ok a.toList
  | none => .error (.fault .outOfRange)

end Slots

variable {m : Type → Type} [Monad m] [Arith F]

def Step.run (I : Interpretation F S m) (slots : Slots S) : Step F → m (Slot S)
  | .const c => return .scalar (I.const c)
  | .zero => return .scalar I.zero
  | .value i => do return .scalar (I.const (I.value (← I.ofOutcome (slots.scalar i))))
  | .add i j => binary I.add i j
  | .sub i j => binary I.sub i j
  | .mul i j => binary I.mul i j
  | .div i j => binary I.div i j
  | .neg i => do return .scalar (← I.neg (← I.ofOutcome (slots.scalar i)))
  | .larger i j => binary (fun x y => pure (if I.gt x y then x else y)) i j
  | .apply p args => do return .scalar (← I.apply p (← I.ofOutcome (slots.scalars args)))
  | .applyJoint op a => do return .matrix (← I.applyJoint op (← I.ofOutcome (slots.matrix a)))
  | .entry a i j => do
    let a ← I.ofOutcome (slots.matrix a)
    return .scalar (← I.ofOutcome (a.entry i j))
  | .sumSquares a => do return .scalar (← Matrix.sumSquares I (← I.ofOutcome (slots.matrix a)))
  | .sum a => do return .scalar (← Matrix.sum I (← I.ofOutcome (slots.matrix a)))
  | .matrix rows cols entries => do
    let xs ← I.ofOutcome (slots.scalars entries)
    return .matrix (← I.ofOutcome (Matrix.ofList rows cols xs))
  | .constMatrix rows cols entries => do
    return .matrix (Matrix.constant I (← I.ofOutcome (Matrix.ofList rows cols entries)))
  | .column entries => do return .matrix (.column (← I.ofOutcome (slots.scalars entries)))
  | .row entries => do return .matrix (.row (← I.ofOutcome (slots.scalars entries)))
  | .identity n => do
    return .matrix (Matrix.constant I (← I.ofOutcome (Matrix.checkedIdentity n)))
  | .zeros rows cols => do
    return .matrix (Matrix.constant I (← I.ofOutcome (Matrix.checkedZeros rows cols)))
  | .values a => do
    let a ← I.ofOutcome (slots.matrix a)
    return .matrix (Matrix.constant I (a.values I))
  | .transpose a => do return .matrix (← I.ofOutcome (slots.matrix a)).transpose
  | .multiply a b => joint (Matrix.checkedMultiply I) a b
  | .hcat a b => joint (fun a b => I.ofOutcome (a.hcat b)) a b
  | .vcat a b => joint (fun a b => I.ofOutcome (a.vcat b)) a b
  | .entrywise p a => do
    return .matrix (← Matrix.entrywise I p (← I.ofOutcome (slots.matrix a)))
where
  /-- An operation on two scalar slots. -/
  binary (f : S → S → m S) (i j : Nat) : m (Slot S) := do
    let x ← I.ofOutcome (slots.scalar i)
    let y ← I.ofOutcome (slots.scalar j)
    return .scalar (← f x y)
  /-- An operation on two matrix slots. -/
  joint (f : Matrix S → Matrix S → m (Matrix S)) (a b : Nat) : m (Slot S) := do
    let a ← I.ofOutcome (slots.matrix a)
    let b ← I.ofOutcome (slots.matrix b)
    return .matrix (← f a b)

namespace Program

def slots (I : Interpretation F S m) (p : Program F) (inputs : List S) : m (Slots S) :=
  p.steps.foldlM (fun slots step => do return slots.push (← step.run I slots))
    (inputs.map Slot.scalar).toArray

def run (I : Interpretation F S m) (p : Program F) (inputs : List S) : m (List S) := do
  let slots ← p.slots I inputs
  let outputs := p.outputs.getD [slots.size - 1]
  return (← I.ofOutcome (outputs.mapM slots.flatten)).flatten

def runScalar (I : Interpretation F S m) (p : Program F) (inputs : List S) : m S := do
  match ← p.run I inputs with
  | y :: _ => return y
  | [] => I.ofOutcome (.error (.fault .outOfRange))

end Program

end Autodiff
