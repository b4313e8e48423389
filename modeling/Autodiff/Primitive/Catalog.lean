import Autodiff.Primitive.Basic

set_option autoImplicit false

namespace Autodiff.Primitive

open Functions (unary binary constant lt le ge gt)

variable {F : Type}

def ofUnary (name : String) (value : F → Outcome F F) (derivative : F → F → F) :
    Primitive F where
  name := name
  arity := 1
  value xs := value xs[0]
  partials xs y := #v[derivative xs[0] y]

def refuse {α : Type} (op operand : String) (x : F) (requirement : String) :
    Outcome F α :=
  .error (.error (.domain op operand (.operand x) requirement))

variable [Arith F] [Functions F]

def isNaN (x : F) : Bool := Functions.test .nan x

def exp : Primitive F :=
  .ofUnary "exp" (fun x => .ok (unary .exp x)) fun _ y => y

def log : Primitive F :=
  .ofUnary "log"
    (fun x => if isNaN x || le x 0 then refuse "log" "x" x "positive" else .ok (unary .ln x))
    fun x _ => unary .reciprocal x

def log1p : Primitive F :=
  .ofUnary "log1p"
    (fun x => if isNaN x || le x (-1) then refuse "log1p" "x" x "greater than -1"
      else .ok (unary .ln1p x))
    fun x _ => unary .reciprocal (1 + x)

/-- Zero is refused because the derivative is unbounded there. -/
def sqrt : Primitive F :=
  .ofUnary "sqrt"
    (fun x => if isNaN x || le x 0 then refuse "sqrt" "x" x "positive" else .ok (unary .sqrt x))
    fun _ y => 1 / (y + y)

def sinh : Primitive F :=
  .ofUnary "sinh" (fun x => .ok (unary .sinh x)) fun x _ => unary .cosh x

def cosh : Primitive F :=
  .ofUnary "cosh" (fun x => .ok (unary .cosh x)) fun x _ => unary .sinh x

def tanh : Primitive F :=
  .ofUnary "tanh" (fun x => .ok (unary .tanh x)) fun _ y => 1 - y * y

def square : Primitive F :=
  .ofUnary "square" (fun x => .ok (x * x)) fun x _ => x + x

/-- `1 / (1 + exp (-x))`, with the sign of `x` deciding which exponential is small. -/
def logistic : Primitive F :=
  .ofUnary "inv_logit"
    (fun x =>
      if ge x 0 then .ok (1 / (1 + unary .exp (-x)))
      else .ok (unary .exp x / (1 + unary .exp x)))
    fun _ y => y * (1 - y)

def abs : Primitive F :=
  .ofUnary "fabs"
    (fun x => if isNaN x then refuse "fabs" "x" x "a number" else .ok (unary .abs x))
    fun x _ => if gt x 0 then 1 else if lt x 0 then -1 else 0

def pow : Primitive F where
  name := "pow"
  arity := 2
  value xs :=
    if isNaN xs[0] || le xs[0] 0 then refuse "pow" "base" xs[0] "positive"
    else .ok (binary .pow xs[0] xs[1])
  partials xs y := #v[xs[1] * y / xs[0], y * unary .ln xs[0]]

def divide : Primitive F where
  name := "divide"
  arity := 2
  value xs :=
    if Functions.eq xs[1] 0 || isNaN xs[1] then refuse "divide" "y" xs[1] "a nonzero number"
    else .ok (xs[0] / xs[1])
  partials xs y := #v[unary .reciprocal xs[1], -y / xs[1]]

/-- Logarithm of the sum of exponentials, computed around the largest operand `m`. -/
def logSumExpValue (xs : List F) : Outcome F F :=
  match xs.find? isNaN with
  | some x => refuse "log_sum_exp" "x" x "a number"
  | none =>
    -- Around the largest operand no exponential overflows.
    let m := xs.foldl (binary .max) (constant .negInfinity)
    if Functions.eq m (constant .negInfinity) then .ok m
    else if Functions.test .infinite m then refuse "log_sum_exp" "max(x)" m "finite"
    else .ok (m + unary .ln (xs.foldl (fun acc x => acc + unary .exp (x - m)) 0))

/-- The result is flat in all operands when all of them are `-inf`. -/
def logSumExp (len : Nat) : Primitive F where
  name := "log_sum_exp"
  arity := len
  value xs := logSumExpValue xs.toList
  partials xs y :=
    if Functions.eq y (constant .negInfinity) then Vector.replicate len 0
    else xs.map fun x => unary .exp (x - y)

def logLoss (outcome : Int) : Primitive F :=
  .ofUnary "binary_log_loss"
    (fun p =>
      if outcome = 0 then
        if isNaN p || ge p 1 then refuse "binary_log_loss" "y_hat" p "less than 1"
        else .ok (-unary .ln1p (-p))
      else if outcome = 1 then
        if isNaN p || le p 0 then refuse "binary_log_loss" "y_hat" p "positive"
        else .ok (-unary .ln p)
      else .error (.error (.domain "binary_log_loss" "y" (.datum outcome) "0 or 1")))
    fun p _ => if outcome ≠ 0 then -unary .reciprocal p else unary .reciprocal (1 - p)

def normalLogDensity : Primitive F where
  name := "normal_lpdf"
  arity := 3
  value xs :=
    let y := xs[0]
    let mu := xs[1]
    let sigma := xs[2]
    if isNaN sigma || le sigma 0 || Functions.test .infinite sigma then
      refuse "normal_lpdf" "sigma" sigma "positive and finite"
    else if !Functions.test .finite y then refuse "normal_lpdf" "y" y "finite"
    else if !Functions.test .finite mu then refuse "normal_lpdf" "mu" mu "finite"
    else
      let z := (y - mu) / sigma
      let half : F := 1 / (1 + 1)
      .ok (-half * z * z - unary .ln sigma - unary .ln (unary .sqrt (constant .tau)))
  partials xs _ :=
    let inv := unary .reciprocal xs[2]
    let z := (xs[0] - xs[1]) * inv
    #v[-z * inv, z * inv, (z * z - 1) * inv]

def softplus : Primitive F :=
  .ofUnary "softplus" (fun x => .ok (unary .ln1p (unary .exp x)))
    fun x _ => 1 / (1 + unary .exp (-x))

def product3 : Primitive F where
  name := "product3"
  arity := 3
  value xs := .ok (xs[0] * xs[1] * xs[2])
  partials xs _ := #v[xs[1] * xs[2], xs[0] * xs[2], xs[0] * xs[1]]

end Autodiff.Primitive
