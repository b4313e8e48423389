import Autodiff.Chain.Kernels
import Autodiff.Chain.Run
import Autodiff.Decimal.Scientific
import Autodiff.Dual.Functions
import Autodiff.Gradient.Batch
import Autodiff.Matrix.ColumnMajor
import Autodiff.Number.Single
import Autodiff.Primitive.Catalog
import Autodiff.Tape.Session
import Autodiff.Proofs.Program.Simulation
import Autodiff.Proofs.Tape.Growth
import Autodiff.Proofs.Tape.Sweep
import Autodiff.Proofs.Tape.Lifetime
import Autodiff.Proofs.Program.Nodal
import Autodiff.Proofs.Program.Lockstep
import Autodiff.Proofs.Number.Exact
import Autodiff.Proofs.Tape.Tangents
import Autodiff.Proofs.Dual.Linear
import Autodiff.Proofs.Dual.Taylor
import Autodiff.Proofs.Dual.Exponent
import Autodiff.Proofs.Dual.Swap
import Autodiff.Proofs.Program.Carried
import Autodiff.Proofs.Gradient.Duality
import Autodiff.Proofs.Program.Truncation
import Autodiff.Proofs.Gradient.Limit
import Autodiff.Proofs.Matrix.Definite
import Autodiff.Proofs.Matrix.Elimination
import Autodiff.Proofs.Matrix.Substitution
import Autodiff.Proofs.Matrix.Inverse
import Autodiff.Proofs.Matrix.Product
import Autodiff.Proofs.Matrix.DualInverse
import Autodiff.Proofs.Program.Redating
import Autodiff.Proofs.Gradient.History
import Autodiff.Proofs.Program.Trace
import Autodiff.Proofs.Program.Activity
import Autodiff.Proofs.Gradient.Trace
import Autodiff.Proofs.Program.Insertion
import Autodiff.Proofs.Tape.Embedding
import Autodiff.Proofs.Program.Embedding
import Autodiff.Proofs.Gradient.DeadCode
import Autodiff.Proofs.Chain.Streams
import Autodiff.Proofs.Chain.Tables
import Autodiff.Proofs.Chain.Ending
import Autodiff.Proofs.Chain.Schema
import Autodiff.Proofs.Gradient.Schedules
import Autodiff.Proofs.Tape.Adjoints
import Autodiff.Proofs.Tape.Activation
import Autodiff.Proofs.Tape.Deeds
import Autodiff.Proofs.Tape.Foreign
import Autodiff.Proofs.Matrix.LowerTriangle
import Autodiff.Proofs.Tape.Outputs
import Autodiff.Proofs.Dual.ChainRule
import Autodiff.Proofs.Primitive.Derivatives
import Autodiff.Proofs.Chain.Splitting
import Autodiff.Proofs.Number.Extended
import Autodiff.Proofs.Primitive.LogSumExp
import Autodiff.Proofs.Dual.Primal
import Autodiff.Proofs.Tape.Kinds
import Autodiff.Proofs.Tape.PlainOperands
import Autodiff.Proofs.Gradient.PlainOperands
import Autodiff.Proofs.Matrix.Construction
import Autodiff.Proofs.Matrix.ProductLaws
import Autodiff.Proofs.Matrix.ColumnMajor
import Autodiff.Proofs.Chain.Progress
import Autodiff.Proofs.Primitive.Counterparts
import Autodiff.Proofs.Tape.Akin
import Autodiff.Proofs.Program.Akin
import Autodiff.Proofs.Gradient.NativeSteps
