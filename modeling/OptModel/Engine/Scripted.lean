import OptModel.Engine.Basic

/-!
# Scripted engines

An engine that solves nothing and answers as its script says. It keeps the last objective it was
told, so that the objective value fits the scripted values.

## Main definitions

* `Script` — the answers
* `Engine.scripted` — the engine of a script
-/

namespace OptModel

/-- The answers of a scripted engine. -/
structure Script where
  status : Engine.Status := .notSolved
  gap : Option Float := none
  /-- The values of the columns. Further columns have the value zero. -/
  values : List Float := []
  infinity : Float := Binary64.infinity
  /-- No solvers are made. -/
  refuses : Bool := false
  /-- If solving crashes: what is left behind, given the number of columns. -/
  crash : Option (Nat → Option String) := none

/-- What a scripted solver remembers. -/
structure Script.Session where
  backend : Backend
  columns : Nat := 0
  objective : LinearForm Nat Float := .empty

/-- The scripted value of a column. -/
def Script.value (script : Script) (column : Nat) : Float := script.values.getD column 0.0

/-- The engine that answers by a script. -/
def Engine.scripted (script : Script) : Engine where
  name := "scripted"
  infinity := script.infinity
  Session := Script.Session
  create backend :=
    if script.refuses then .error (backend.display ++ " is scripted away")
    else .ok { backend := backend }
  backend := Script.Session.backend
  columnCount := Script.Session.columns
  tell solver
    | .realColumn .. | .integerColumn .. | .binaryColumn _ =>
      { solver with columns := solver.columns + 1 }
    | .objective form _ => { solver with objective := form }
    | _ => solver
  solve solver :=
    match script.crash with
    | some leaves => (.crashed (leaves solver.columns), solver)
    | none => (.status script.status, solver)
  value _ column := script.value column
  objectiveValue solver := solver.objective.evaluate script.value
  gap _ := script.gap

end OptModel
