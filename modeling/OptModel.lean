import OptModel.Assignment
import OptModel.Backends
import OptModel.Binary64.Basic
import OptModel.Binary64.Hypot
import OptModel.CommandLine
import OptModel.Config
import OptModel.Decimal.Basic
import OptModel.Decimal.Literal
import OptModel.Decimal.Shortest
import OptModel.Decimal.Text
import OptModel.Dispatch
import OptModel.Engine.Basic
import OptModel.Engine.Scripted
import OptModel.Exact.BranchAndBound
import OptModel.Exact.Tableau
import OptModel.Expression
import OptModel.Family
import OptModel.Fault
import OptModel.Json.Codec
import OptModel.Json.Fault
import OptModel.Json.Record
import OptModel.Json.Scan
import OptModel.LinearForm.Basic
import OptModel.Main
import OptModel.Model.Basic
import OptModel.Model.Flaw
import OptModel.Model.Json
import OptModel.Outcome
import OptModel.Program
import OptModel.Proofs.Binary64.Bits
import OptModel.Proofs.Binary64.Nearest
import OptModel.Proofs.Binary64.Order
import OptModel.Proofs.Binary64.Quotient
import OptModel.Proofs.Binary64.Special
import OptModel.Proofs.Binary64.Sums
import OptModel.Proofs.CommandLine
import OptModel.Proofs.Comparison
import OptModel.Proofs.Decimal.ReadBack
import OptModel.Proofs.Dispatch.Conversation
import OptModel.Proofs.Dispatch.Presence
import OptModel.Proofs.Dispatch.Printed
import OptModel.Proofs.Dispatch.Reported
import OptModel.Proofs.Except
import OptModel.Proofs.Expression.Grammar
import OptModel.Proofs.Expression.Mentioned
import OptModel.Proofs.Expression.Renaming
import OptModel.Proofs.Expression.Terms
import OptModel.Proofs.Expression.Worth
import OptModel.Proofs.Expression.Written
import OptModel.Proofs.Extended
import OptModel.Proofs.Family.Agreement
import OptModel.Proofs.Family.Bounds
import OptModel.Proofs.Family.Coefficients
import OptModel.Proofs.Family.Exact
import OptModel.Proofs.Family.Meaning
import OptModel.Proofs.Family.Stage
import OptModel.Proofs.Flaws
import OptModel.Proofs.Halfspaces
import OptModel.Proofs.Json.Codecs
import OptModel.Proofs.Json.Failures
import OptModel.Proofs.Json.Grammar
import OptModel.Proofs.Json.Numbers
import OptModel.Proofs.Json.Records
import OptModel.Proofs.Json.Yields
import OptModel.Proofs.LinearForm
import OptModel.Proofs.Lists
import OptModel.Proofs.Program.Measured
import OptModel.Proofs.Program.Overlooked
import OptModel.Proofs.Program.Satisfied
import OptModel.Proofs.Program.Violations
import OptModel.Proofs.RoundTrip
import OptModel.Proofs.Routing.Accepted
import OptModel.Proofs.Routing.Buildable
import OptModel.Proofs.Routing.Compiled
import OptModel.Proofs.Routing.Complete
import OptModel.Proofs.Routing.Cover
import OptModel.Proofs.Routing.Extraction
import OptModel.Proofs.Routing.Inequalities
import OptModel.Proofs.Routing.Legs
import OptModel.Proofs.Routing.Names
import OptModel.Proofs.Routing.Rounds
import OptModel.Proofs.Routing.Sound
import OptModel.Proofs.Routing.Walks
import OptModel.Proofs.Solver.History
import OptModel.Proofs.Solver.Problem
import OptModel.Proofs.Solver.Rays
import OptModel.Proofs.Solver.Unbounded
import OptModel.Proofs.Text.Pieces
import OptModel.Proofs.WellFormed
import OptModel.Result
import OptModel.Routing.Compile
import OptModel.Routing.Plan
import OptModel.Routing.Tours
import OptModel.Scalar
import OptModel.Solver.Basic
import OptModel.Solver.Problem
import OptModel.Text.Blank
import OptModel.Text.Invisible
import OptModel.Text.Quoted
import OptModel.Vocabulary
import OptModel.Proofs.LinearForm.Reachable
import OptModel.Proofs.Solver.Readings
