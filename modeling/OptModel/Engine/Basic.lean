import OptModel.LinearForm.Basic
import OptModel.Vocabulary

/-!
# Engines

An engine makes solvers. A solver takes directives, which add columns and rows and set options, is
asked to solve, and afterwards tells values, an objective and a gap. Columns are numbered from zero
in the order in which they are added, and the linear forms in directives refer to these numbers.

Everything an engine does is part of the model: a solver that is refused is a reason, a solver that
crashes while solving is an answer. What an engine sees is a list of calls.

## Main definitions

* `Engine.Status` — how a solver says that it ended
* `Directive` — what a solver is told
* `Call` — what an engine sees
* `Engine` — an engine
-/

namespace OptModel

/-- How a solver ended. -/
inductive Engine.Status where
  | optimal
  /-- There is a solution, not proven optimal. -/
  | feasible
  | infeasible
  | unbounded
  /-- The solver stopped for a reason of its own. -/
  | abnormal
  | modelInvalid
  | notSolved
  deriving Repr, DecidableEq, Inhabited

instance : Vocabulary Engine.Status where
  all := [.optimal, .feasible, .infeasible, .unbounded, .abnormal, .modelInvalid, .notSolved]
  word
    | .optimal => "OPTIMAL"
    | .feasible => "FEASIBLE"
    | .infeasible => "INFEASIBLE"
    | .unbounded => "UNBOUNDED"
    | .abnormal => "ABNORMAL"
    | .modelInvalid => "MODEL_INVALID"
    | .notSolved => "NOT_SOLVED"

/-- Whether there are values to be read. -/
def Engine.Status.hasSolution : Engine.Status → Bool
  | optimal | feasible => true
  | _ => false

/-- What a solver is told before it solves. -/
inductive Directive (R : Type) where
  | realColumn (name : String) (lower upper : R)
  | integerColumn (name : String) (lower upper : R)
  /-- A column that is zero or one. -/
  | binaryColumn (name : String)
  | row (form : LinearForm Nat R) (sense : RowSense) (rhs : R)
  | objective (form : LinearForm Nat R) (direction : Direction)
  | timeLimit (millis : Nat)
  | threads (n : UInt32)
  | randomSeed (n : UInt64)
  | gapTolerance (gap : Float)

/-- What an engine sees, one entry per call. Reading values is not a call. -/
inductive Call where
  | create (backend : Backend)
  | tell (directive : Directive Float)
  | solve

/-- What comes of asking a solver to solve. -/
inductive Engine.Answer where
  | status (status : Engine.Status)
  /-- The solver crashed, with a text unless it left something else behind. -/
  | crashed (text : Option String)

/-- An engine. Its solvers are values of type `Session`. -/
structure Engine where
  name : String
  /-- The bound that means no bound. -/
  infinity : Float := Binary64.infinity
  Session : Type
  /-- A fresh solver, or the reason why there is none. -/
  create : Backend → Except String Session
  /-- The backend that serves a solver. -/
  backend : Session → Backend
  /-- How many columns there are, which is the number that the next one gets. -/
  columnCount : Session → Nat
  tell : Session → Directive Float → Session
  solve : Session → Engine.Answer × Session
  /-- The value of a column after solving. -/
  value : Session → Nat → Float
  objectiveValue : Session → Float
  gap : Session → Option Float

end OptModel
