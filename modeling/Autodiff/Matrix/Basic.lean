import Autodiff.Failure

set_option autoImplicit false

namespace Autodiff

structure Matrix (α : Type) where
  rows : Nat
  cols : Nat
  data : Vector α (rows * cols)

namespace Matrix

variable {α β : Type}

/-- The dimensions of a matrix and the number of its entries are machine words. -/
def Fits (rows cols : Nat) : Prop :=
  rows < UInt64.size ∧ cols < UInt64.size ∧ rows * cols < UInt64.size

instance (rows cols : Nat) : Decidable (Fits rows cols) :=
  inferInstanceAs (Decidable (_ ∧ _ ∧ _))

/-- A shape that does not fit is a fault before any entry is made. -/
def requireFits {F : Type} (rows cols : Nat) : Outcome F Unit :=
  if Fits rows cols then .ok () else .error (.fault .overflow)

theorem requireFits_of_fits {F : Type} {rows cols : Nat} (h : Fits rows cols) :
    (requireFits rows cols : Outcome F Unit) = .ok () := if_pos h

theorem requireFits_of_not_fits {F : Type} {rows cols : Nat} (h : ¬ Fits rows cols) :
    (requireFits rows cols : Outcome F Unit) = .error (.fault .overflow) := if_neg h

theorem flat_lt {rows cols i j : Nat} (hi : i < rows) (hj : j < cols) :
    i * cols + j < rows * cols :=
  calc
    i * cols + j < i * cols + cols := Nat.add_lt_add_left hj _
    _ = (i + 1) * cols := (Nat.succ_mul i cols).symm
    _ ≤ rows * cols := Nat.mul_le_mul_right cols hi

theorem flat_div {cols i j : Nat} (hj : j < cols) : (i * cols + j) / cols = i := by
  rw [Nat.mul_comm, Nat.mul_add_div (Nat.zero_lt_of_lt hj), Nat.div_eq_of_lt hj, Nat.add_zero]

theorem flat_mod {cols i j : Nat} (hj : j < cols) : (i * cols + j) % cols = j := by
  rw [Nat.mul_comm, Nat.mul_add_mod, Nat.mod_eq_of_lt hj]

theorem cols_pos_of_lt {rows cols k : Nat} (h : k < rows * cols) : 0 < cols :=
  Nat.pos_of_mul_pos_left (Nat.zero_lt_of_lt h)

def rowOf {rows cols : Nat} (k : Fin (rows * cols)) : Fin rows :=
  ⟨k / cols, (Nat.div_lt_iff_lt_mul (cols_pos_of_lt k.isLt)).2 k.isLt⟩

def colOf {rows cols : Nat} (k : Fin (rows * cols)) : Fin cols :=
  ⟨k % cols, Nat.mod_lt _ (cols_pos_of_lt k.isLt)⟩

def get (m : Matrix α) (i : Fin m.rows) (j : Fin m.cols) : α :=
  have h := flat_lt i.isLt j.isLt
  m.data[i.val * m.cols + j.val]

def get? (m : Matrix α) (i j : Nat) : Option α :=
  if h : i < m.rows ∧ j < m.cols then some (m.get ⟨i, h.1⟩ ⟨j, h.2⟩) else none

def entry {F : Type} (m : Matrix α) (i j : Nat) : Outcome F α :=
  match m.get? i j with
  | some x => .ok x
  | none => .error (.fault .outOfRange)

/-- An entry, or zero outside the shape. -/
def peek [Zero α] (m : Matrix α) (i j : Nat) : α := (m.get? i j).getD 0

def poke (m : Matrix α) (i j : Nat) (x : α) : Matrix α :=
  if h : i < m.rows ∧ j < m.cols then
    { m with data := m.data.set (i * m.cols + j) x (flat_lt h.1 h.2) }
  else m

def set {F : Type} (m : Matrix α) (i j : Nat) (x : α) : Outcome F (Matrix α) :=
  if i < m.rows ∧ j < m.cols then .ok (m.poke i j x) else .error (.fault .outOfRange)

/-- Fills a shape that fits. An operation that makes a new shape checks it by `requireFits` first. -/
def ofFn (rows cols : Nat) (f : Fin rows → Fin cols → α) : Matrix α :=
  ⟨rows, cols, .ofFn fun k => f (rowOf k) (colOf k)⟩

/-- The effects of `f` happen row by row. -/
def ofFnM {m : Type → Type} [Monad m] (rows cols : Nat) (f : Fin rows → Fin cols → m α) :
    m (Matrix α) := do
  let data ← Vector.ofFnM fun k => f (rowOf k) (colOf k)
  return ⟨rows, cols, data⟩

def ofList {F : Type} (rows cols : Nat) (entries : List α) : Outcome F (Matrix α) := do
  requireFits rows cols
  if h : entries.length = rows * cols then .ok ⟨rows, cols, ⟨entries.toArray, h⟩⟩
  else .error (.fault (.dataLength entries.length rows cols))

def column (entries : List α) : Matrix α :=
  ⟨entries.length, 1, ⟨entries.toArray, (Nat.mul_one _).symm⟩⟩

def row (entries : List α) : Matrix α :=
  ⟨1, entries.length, ⟨entries.toArray, (Nat.one_mul _).symm⟩⟩

def toList (m : Matrix α) : List α := m.data.toList

def size (m : Matrix α) : Nat := m.data.toArray.size

def isEmpty (m : Matrix α) : Bool := m.size == 0

def isSquare (m : Matrix α) : Bool := m.rows == m.cols

def map (f : α → β) (m : Matrix α) : Matrix β := ⟨m.rows, m.cols, m.data.map f⟩

def mapM {m : Type → Type} [Monad m] (f : α → m β) (a : Matrix α) : m (Matrix β) := do
  let data ← a.data.mapM f
  return ⟨a.rows, a.cols, data⟩

def transpose (m : Matrix α) : Matrix α := ofFn m.cols m.rows fun i j => m.get j i

def zeros [Zero α] (rows cols : Nat) : Matrix α := ofFn rows cols fun _ _ => 0

def identity [Zero α] [One α] (n : Nat) : Matrix α :=
  ofFn n n fun i j => if i = j then 1 else 0

def checkedZeros {F : Type} [Zero α] (rows cols : Nat) : Outcome F (Matrix α) := do
  requireFits rows cols
  return zeros rows cols

def checkedIdentity {F : Type} [Zero α] [One α] (n : Nat) : Outcome F (Matrix α) := do
  requireFits n n
  return identity n

def equals (eq : α → α → Bool) (a b : Matrix α) : Bool :=
  a.rows == b.rows && a.cols == b.cols && (a.toList.zip b.toList).all fun (x, y) => eq x y

@[simp]
theorem get_ofFn (rows cols : Nat) (f : Fin rows → Fin cols → α) (i : Fin rows) (j : Fin cols) :
    (ofFn rows cols f).get i j = f i j := by
  simp [get, ofFn, rowOf, colOf, flat_div j.isLt, flat_mod j.isLt]

@[simp]
theorem get_transpose (m : Matrix α) (i : Fin m.cols) (j : Fin m.rows) :
    m.transpose.get i j = m.get j i :=
  get_ofFn _ _ _ i j

@[simp]
theorem get_zeros [Zero α] (rows cols : Nat) (i : Fin rows) (j : Fin cols) :
    (zeros rows cols : Matrix α).get i j = 0 :=
  get_ofFn _ _ _ i j

@[simp]
theorem get_identity [Zero α] [One α] (n : Nat) (i j : Fin n) :
    (identity n : Matrix α).get i j = if i = j then 1 else 0 :=
  get_ofFn _ _ _ i j

@[simp]
theorem length_toList (m : Matrix α) : m.toList.length = m.rows * m.cols :=
  Vector.length_toList

theorem get?_eq_some (m : Matrix α) (i : Fin m.rows) (j : Fin m.cols) :
    m.get? i j = some (m.get i j) :=
  dif_pos ⟨i.isLt, j.isLt⟩

@[simp]
theorem get_map (f : α → β) (m : Matrix α) (i : Fin m.rows) (j : Fin m.cols) :
    (m.map f).get i j = f (m.get i j) := by
  simp [get, map]

end Matrix

end Autodiff
