import OptModel.Engine.Basic

/-!
# Programs

A program is what a solver has been told so far: its columns, its rows and its objective. Nothing is
solved before it is complete.

## Main definitions

* `Column`, `ProgramRow`, `Program` — the program
* `Program.tell` — one directive more
* `Program.objectiveCoefficients`, `Program.objectiveAt` — two readings of the objective
* `Program.maxViolation` — how far values are from satisfying the program
* `Program.isFeasible` — whether they satisfy it up to `feasibilityTolerance`
-/

namespace OptModel

/-- A column of a program. -/
structure Column (R : Type) where
  name : String
  kind : VariableKind
  lower : R
  upper : R

/-- A row of a program. -/
structure ProgramRow (R : Type) where
  form : LinearForm Nat R
  sense : RowSense
  rhs : R

/-- What a solver has been told. -/
structure Program (R : Type) where
  columns : List (Column R) := []
  rows : List (ProgramRow R) := []
  objective : LinearForm Nat R := .empty
  direction : Direction := .minimize
  /-- In milliseconds. -/
  timeLimit : Option Nat := none

namespace Program

variable {R : Type}

/-- The program with nothing in it. -/
def empty : Program R := {}

instance : Inhabited (Program R) := ⟨empty⟩

/-- The program with one column more, and the number of that column. -/
def addColumn (program : Program R) (column : Column R) : Nat × Program R :=
  (program.columns.length, { program with columns := program.columns ++ [column] })

/-- The program with one row more. -/
def addRow (program : Program R) (row : ProgramRow R) : Program R :=
  { program with rows := program.rows ++ [row] }

/-- The program with another objective. -/
def setObjective (program : Program R) (form : LinearForm Nat R) (direction : Direction) :
    Program R :=
  { program with objective := form, direction := direction }

/-- The time limit in seconds. -/
def timeLimitSeconds? (program : Program R) : Option Float :=
  program.timeLimit.map fun millis => Binary64.ofNat millis / 1000.0

/-- Whether some column takes integers only. -/
def isInteger (program : Program R) : Bool :=
  program.columns.any fun c => c.kind != .continuous

variable [Scalar R]

/-- The column that a directive adds. -/
def columnOf? : Directive R → Option (Column R)
  | .realColumn name lower upper => some ⟨name, .continuous, lower, upper⟩
  | .integerColumn name lower upper => some ⟨name, .integer, lower, upper⟩
  | .binaryColumn name => some ⟨name, .binary, Scalar.zero, Scalar.one⟩
  | _ => none

/-- The program after a directive. Options other than the time limit leave no trace. -/
def tell (program : Program R) (directive : Directive R) : Program R :=
  match directive with
  | .row form sense rhs => program.addRow ⟨form, sense, rhs⟩
  | .objective form direction => program.setObjective form direction
  | .timeLimit millis => { program with timeLimit := some millis }
  | .threads _ | .randomSeed _ | .gapTolerance _ => program
  | column =>
    match columnOf? column with
    | some c => (program.addColumn c).2
    | none => program

/-- Whether some column that takes integers only has no bound on one side. -/
def hasOpenIntegerColumn (program : Program R) : Bool :=
  program.columns.any fun c =>
    c.kind != .continuous && !(Scalar.isFinite c.lower && Scalar.isFinite c.upper)

/-! ### The objective -/

/-- The coefficient of every column in the objective. -/
def objectiveCoefficients (program : Program R) : List R :=
  (List.range program.columns.length).map fun i =>
    program.objective.terms.foldl (fun sum t => if t.1 = i then sum + t.2 else sum) Scalar.zero

/-- The value of a column, zero beyond the end of the list. -/
def valueOf (values : List R) (i : Nat) : R := values.getD i Scalar.zero

/-- The objective at `values`. It is never a negative zero. -/
def objectiveAt (program : Program R) (values : List R) : R :=
  program.objective.evaluate (valueOf values) + Scalar.zero

/-! ### Feasibility -/

/-- How far `lhs` is from comparing with `rhs` as `sense` says. Zero and less is not at all. -/
def rowViolation (sense : RowSense) (lhs rhs : R) : R :=
  match sense with
  | .equal => Scalar.magnitude (lhs - rhs)
  | .atMost => lhs - rhs
  | .atLeast => rhs - lhs

/-- The larger of `worst` and the violations of one column, its bounds first. -/
def columnViolation (worst : R) (column : Column R) (value : R) : R :=
  let worst := Scalar.larger (Scalar.larger worst (column.lower - value)) (value - column.upper)
  if column.kind = .continuous then worst
  else Scalar.larger worst (Scalar.magnitude (value - Scalar.nearestInteger value))

/-- The largest violation of a bound, of integrality or of a row at `values`. It is infinite when
there is not one finite value per column. -/
def maxViolation (program : Program R) (values : List R) : R :=
  if values.length ≠ program.columns.length || !values.all Scalar.isFinite then Scalar.infinity
  else
    let columns := (program.columns.zip values).foldl
      (fun worst cv => columnViolation worst cv.1 cv.2) Scalar.zero
    program.rows.foldl (fun worst row =>
      Scalar.larger worst (rowViolation row.sense (row.form.evaluate (valueOf values)) row.rhs))
      columns

/-- Whether `values` satisfy the program up to `tolerance`. -/
def isFeasibleWithin (program : Program R) (tolerance : R) (values : List R) : Bool :=
  Scalar.atMost (program.maxViolation values) tolerance

/-- The tolerance with which values are checked. -/
def feasibilityTolerance : Float := 1e-6

/-- Whether `values` satisfy the program up to `feasibilityTolerance`. -/
def isFeasible (program : Program Float) (values : List Float) : Bool :=
  program.isFeasibleWithin feasibilityTolerance values

end Program

end OptModel
