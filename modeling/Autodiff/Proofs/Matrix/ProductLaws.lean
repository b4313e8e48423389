import Mathlib
import Autodiff.Proofs.Matrix.Construction
import Autodiff.Proofs.Matrix.Product

set_option autoImplicit false

namespace Autodiff.Matrix

open Finset (range mem_range)
open Interpretation (plain)

section Entries

variable {F : Type} [CommRing F] {a a₁ a₂ b b₁ b₂ : Matrix F}

def trace (m : Matrix F) : F := ∑ i ∈ range m.rows, m.peek i i

end Entries

section Laws

variable {F : Type} [CommRing F] [Div F] [Functions F] {a b c : Matrix F}

end Laws

end Autodiff.Matrix
