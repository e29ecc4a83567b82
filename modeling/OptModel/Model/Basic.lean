import OptModel.Scalar
import OptModel.Binary64.Hypot
import OptModel.Vocabulary

/-!
# Models

A model is a declarative description of an optimisation problem: variables with bounds, rows that
compare an expression with a number, and an objective, all over a type of scalars; or, for a vehicle
routing problem, locations, vehicles, a depot and distances.

## Main definitions

* `Variable`, `Row`, `Objective`, `Location` — the parts of a model
* `Model` — the description
* `Variable.lower`, `Variable.upper` — bounds, infinite when they are not declared
* `Variable.hasFiniteDomain` — whether a variable ranges over finitely many integers
* `Location.distance` — the length of the way between two locations
-/

namespace OptModel

/-- A decision variable. -/
structure Variable (R : Type) where
  name : String
  kind : VariableKind := .continuous
  lowerBound : Option R := none
  upperBound : Option R := none
  /-- A value to start from. No family makes use of it. -/
  initialValue : Option R := none
  deriving Inhabited

/-- The comparison of an expression with a number. -/
structure Row (R : Type) where
  name : String := ""
  expression : String
  sense : RowSense
  rhs : R

/-- What is minimised or maximised. -/
structure Objective where
  name : String := ""
  sense : Direction := .minimize
  expression : String := ""
  deriving Repr, DecidableEq, Inhabited

/-- A place to be visited. -/
structure Location where
  name : Option String := none
  x : Float
  y : Float

/-- The description of an optimisation problem. -/
structure Model (R : Type) where
  name : String := ""
  type : ProblemType
  vars : List (Variable R) := []
  rows : List (Row R) := []
  objective : Objective := {}
  locations : List Location := []
  vehicles : Option UInt64 := none
  depot : Option UInt64 := none
  distances : Option (List (List Float)) := none

namespace Variable

variable {R : Type} [Scalar R]

/-- The lower bound, minus infinity when there is none. -/
def lower (v : Variable R) : R := v.lowerBound.getD (-Scalar.infinity)

/-- The upper bound, infinity when there is none. -/
def upper (v : Variable R) : R := v.upperBound.getD Scalar.infinity

omit [Scalar R] in
/-- Whether only integers are allowed. -/
def isInteger (v : Variable R) : Bool := v.kind != .continuous

/-- Whether the variable ranges over finitely many integers. The declared bounds of a binary
variable do not matter. -/
def hasFiniteDomain (v : Variable R) : Bool :=
  match v.kind with
  | .binary => true
  | .integer => Scalar.isFinite v.lower && Scalar.isFinite v.upper
  | .continuous => false

end Variable

/-- The length of the straight way from `a` to `b`. -/
def Location.distance (a b : Location) : Float := Binary64.hypot (a.x - b.x) (a.y - b.y)

/-- Whether `lhs` compares with `rhs` as `sense` says, within `tolerance`. -/
def RowSense.holds {R : Type} [Scalar R] (sense : RowSense) (lhs rhs tolerance : R) : Bool :=
  match sense with
  | .equal => Scalar.atMost (Scalar.magnitude (lhs - rhs)) tolerance
  | .atMost => Scalar.atMost lhs (rhs + tolerance)
  | .atLeast => Scalar.atMost (rhs - tolerance) lhs

/-- How many variables of a model take integers only. -/
def Model.integerCount {R : Type} (model : Model R) : Nat :=
  (model.vars.filter Variable.isInteger).length

end OptModel
