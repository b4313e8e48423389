import Autodiff.Failure

set_option autoImplicit false

namespace Autodiff

/-- Iterations run from `start + 1` to `finish`; those up to `warmup` are labelled warmup, and a
`refresh` of zero keeps silent. -/
structure Progress where
  start : Nat
  warmup : Nat
  finish : Nat
  refresh : Nat
deriving DecidableEq

namespace Progress

def hasLine (p : Progress) (iteration : Nat) : Bool :=
  p.refresh ≠ 0 && p.start < iteration &&
    (iteration - p.start == 1 || iteration == p.finish || (iteration - p.start) % p.refresh == 0)

/-- Completed part in whole percent, rounded down. A hundredfold that is no machine word is a
fault. -/
def percent (p : Progress) (iteration : Nat) : Except Fault Nat :=
  if p.finish = 0 then .ok 100 else (machineWord (100 * iteration)).map (· / p.finish)

def decimal (n : Nat) : List Char := Nat.toDigits 10 n

def padLeft (width : Nat) (text : List Char) : List Char :=
  List.replicate (width - text.length) ' ' ++ text

def lineAt (p : Progress) (iteration percent : Nat) : String :=
  let number := padLeft (decimal p.finish).length (decimal iteration)
  let phase := if iteration ≤ p.warmup then "Warmup" else "Sampling"
  "Iteration: " ++ String.ofList number ++ " / " ++ String.ofList (decimal p.finish) ++ " [" ++
    String.ofList (padLeft 3 (decimal percent)) ++ "%]  (" ++ phase ++ ")"

def line (p : Progress) (iteration : Nat) : Except Fault String :=
  (p.percent iteration).map (p.lineAt iteration)

def lines (p : Progress) (iteration : Nat) : Except Fault (List String) :=
  if p.hasLine iteration then (p.line iteration).map fun text => [text] else .ok []

end Progress

end Autodiff
