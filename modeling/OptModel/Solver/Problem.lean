import OptModel.Program

/-!
# Problems for an optimiser

What is handed to an optimiser: columns that are real or integer between bounds, rows and an
objective given by their nonzero coefficients. A binary column is an integer column between zero and
one.

## Main definitions

* `Problem` — what an optimiser is handed
* `Verdict` — what it answers
* `Program.problem` — the problem of a program
* `Program.relaxation` — the same with every column real
-/

namespace OptModel

/-- A column of a problem. -/
structure Problem.Column (R : Type) where
  isInteger : Bool
  lower : R
  upper : R

/-- A row of a problem, with its nonzero coefficients. -/
structure Problem.Row (R : Type) where
  terms : List (Nat × R)
  sense : RowSense
  rhs : R

/-- What an optimiser is handed. -/
structure Problem (R : Type) where
  columns : List (Problem.Column R)
  rows : List (Problem.Row R)
  objective : List (Nat × R)
  direction : Direction

/-- What an optimiser answers. -/
inductive Verdict (R : Type) where
  /-- There is an optimum, at these values of the columns. -/
  | optimal (value : Nat → R)
  | infeasible
  | unbounded
  /-- The optimiser could not decide. -/
  | failed

/-- Whether the answer is that there is no optimum because every value can be improved on. -/
def Verdict.isUnbounded {R : Type} : Verdict R → Bool
  | unbounded => true
  | _ => false

namespace Program

variable {R : Type} [Scalar R]

/-- The column of a problem for a column of a program. -/
def problemColumn (column : Column R) : Problem.Column R :=
  match column.kind with
  | .binary => ⟨true, Scalar.zero, Scalar.one⟩
  | .integer => ⟨true, column.lower, column.upper⟩
  | .continuous => ⟨false, column.lower, column.upper⟩

/-- The rows of a problem for those of a program, one for one. -/
def problemRows (program : Program R) : List (Problem.Row R) :=
  program.rows.map fun row => ⟨row.form.nonzero, row.sense, row.rhs⟩

/-- The problem of a program. -/
def problem (program : Program R) : Problem R where
  columns := program.columns.map problemColumn
  rows := program.problemRows
  objective := program.objective.nonzero
  direction := program.direction

/-- The problem of a program with every column real, between the bounds it was added with. -/
def relaxation (program : Program R) : Problem R where
  columns := program.columns.map fun c => ⟨false, c.lower, c.upper⟩
  rows := program.problemRows
  objective := program.objective.nonzero
  direction := program.direction

end Program

end OptModel
