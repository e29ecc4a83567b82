import OptModel.Solver.Problem

/-!
# The built-in solver

A solver over an optimiser, which is any function from problems to verdicts. It keeps the program it
has been told and the values of the last optimum.

An integer column without a bound is a matter of its own: the optimiser takes such a column to range
over thirty-two bit integers and would never call it unbounded. So when there is one, the relaxation
decides first whether the program is unbounded.

## Main definitions

* `Optimizer` — from problems to verdicts
* `Solver` — backend, program, values and gap
* `Solver.solve` — one solve
* `Engine.builtIn` — the engine of these solvers
-/

namespace OptModel

/-- Decides problems. -/
abbrev Optimizer := Problem Float → Verdict Float

/-- A solver with what it has been told and what it has found. -/
structure Solver where
  backend : Backend
  program : Program Float := .empty
  /-- The values of the columns at the last optimum, if the last solve found one. -/
  values : List Float := []
  gap : Option Float := none

namespace Solver

/-- The solver after a directive. What has been found stays. -/
def tell (solver : Solver) (directive : Directive Float) : Solver :=
  { solver with program := solver.program.tell directive }

/-- The value of a column: zero unless the last solve found an optimum and the column was there. -/
def value (solver : Solver) (column : Nat) : Float := Program.valueOf solver.values column

/-- The current objective at the values that can be read. -/
def objectiveValue (solver : Solver) : Float := solver.program.objectiveAt solver.values

/-- The solver with nothing found. -/
def forget (solver : Solver) : Solver := { solver with values := [], gap := none }

/-- The status and the solver after a verdict on its program. The optimiser never stops early, so an
optimum of a program with integer columns has no gap. -/
def absorb (solver : Solver) : Verdict Float → Engine.Status × Solver
  | .optimal value =>
    (.optimal,
      { solver with
        values := (List.range solver.program.columns.length).map value
        gap := if solver.program.isInteger then some 0.0 else none })
  | .infeasible => (.infeasible, solver.forget)
  | .unbounded => (.unbounded, solver.forget)
  | .failed => (.abnormal, solver.forget)

/-- Whether the relaxation settles that a program with an open integer column is unbounded. -/
def isUnboundedByRelaxation (optimizer : Optimizer) (program : Program Float) : Bool :=
  program.hasOpenIntegerColumn && (optimizer program.relaxation).isUnbounded

/-- Solve what the solver has been told. -/
def solve (optimizer : Optimizer) (solver : Solver) : Engine.Status × Solver :=
  if isUnboundedByRelaxation optimizer solver.program then (.unbounded, solver.forget)
  else solver.absorb (optimizer solver.program.problem)

end Solver

/-- The engine called `name` whose solvers use `optimizer`, for the backends that `serve` finds
one for. -/
def Engine.builtIn (name : String) (serve : Backend → Except String Backend)
    (optimizer : Optimizer) : Engine where
  name := name
  Session := OptModel.Solver
  create backend := (serve backend).map fun served => { backend := served }
  backend := Solver.backend
  columnCount solver := solver.program.columns.length
  tell := Solver.tell
  solve solver :=
    let (status, solver) := solver.solve optimizer
    (.status status, solver)
  value := Solver.value
  objectiveValue := Solver.objectiveValue
  gap := Solver.gap

end OptModel
