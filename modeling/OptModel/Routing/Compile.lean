import OptModel.Routing.Plan
import OptModel.Expression

/-!
# Routing as a mixed-integer program

A plan over `n` locations is written as an ordinary model:

* a binary `x_i_j` for every ordered pair of locations, one when a vehicle drives from `i` to `j`;
* a continuous `u_i` in `[1, n - 1]` for every customer, its place in the visiting order;
* rows that enter and leave every customer once;
* at most as many departures from the depot as there are vehicles, and as many returns;
* for customers `i ≠ j` the row `u_i - u_j + (n - 1) · x_i_j ≤ n - 2`: the order increases along
  every arc between customers, so no tour avoids the depot;
* the total distance driven as the objective.

## Main definitions

* `Plan.arcName`, `Plan.orderName` — the names of the variables
* `Plan.compile` — the model
-/

namespace OptModel.Plan

/-- The name of the arc from `i` to `j`. -/
def arcName (i j : Nat) : String := s!"x_{i}_{j}"

/-- The name of the place of `i` in the visiting order. -/
def orderName (i : Nat) : String := s!"u_{i}"

/-- The ordered pairs of different locations, row by row. -/
def arcs (plan : Plan) : List (Nat × Nat) :=
  (List.range plan.size).flatMap fun i => (plan.others i).map fun j => (i, j)

/-- The number `n - 1`, the last place in the visiting order. -/
def lastPlace (plan : Plan) : Float := Binary64.ofNat (plan.size - 1)

/-- The variables: an arc for every pair, and an order for every customer. -/
def compiledVariables (plan : Plan) : List (Variable Float) :=
  (plan.arcs.map fun (i, j) => { name := arcName i j, kind := .binary }) ++
    plan.customers.map fun i =>
      { name := orderName i, lowerBound := some 1.0, upperBound := some plan.lastPlace }

/-- A customer is entered once. -/
def enterRow (plan : Plan) (j : Nat) : Row Float where
  name := s!"enter_{j}"
  expression := Expression.sum ((plan.others j).map fun i => arcName i j)
  sense := .equal
  rhs := 1.0

/-- A customer is left once. -/
def leaveRow (plan : Plan) (i : Nat) : Row Float where
  name := s!"leave_{i}"
  expression := Expression.sum ((plan.others i).map fun j => arcName i j)
  sense := .equal
  rhs := 1.0

/-- The arcs out of the depot. -/
def departures (plan : Plan) : List String :=
  plan.customers.map fun j => arcName plan.depot j

/-- The arcs into the depot, taken away. -/
def returns (plan : Plan) : List String :=
  plan.customers.map fun i => "-1*" ++ arcName i plan.depot

/-- No more departures than vehicles. -/
def fleetRow (plan : Plan) : Row Float where
  name := "fleet_size"
  expression := Expression.sum plan.departures
  sense := .atMost
  rhs := Binary64.ofNat plan.vehicles

/-- As many returns as departures. -/
def balanceRow (plan : Plan) : Row Float where
  name := "depot_balance"
  expression := Expression.sum (plan.departures ++ plan.returns)
  sense := .equal
  rhs := 0.0

/-- Driving from `i` to `j` puts `j` after `i`. -/
def orderRow (plan : Plan) (i j : Nat) : Row Float where
  name := s!"order_{i}_{j}"
  expression := Expression.sum
    [orderName i, "-1*" ++ orderName j, Expression.term plan.lastPlace (arcName i j)]
  sense := .atMost
  rhs := plan.lastPlace - 1.0

/-- The rows: entering, leaving, the depot, and the order. -/
def compiledRows (plan : Plan) : List (Row Float) :=
  plan.customers.map plan.enterRow ++ plan.customers.map plan.leaveRow ++
    [plan.fleetRow, plan.balanceRow] ++
    plan.customers.flatMap fun i => (plan.customers.filter (· ≠ i)).map fun j => plan.orderRow i j

/-- The total distance. -/
def compiledObjective (plan : Plan) : Objective where
  sense := .minimize
  expression := Expression.sum
    (plan.arcs.map fun (i, j) => Expression.term (plan.distance i j) (arcName i j))

/-- The plan as a mixed-integer model. -/
def compile (plan : Plan) : Model Float where
  name := "vehicle_routing"
  type := .mixedIntegerProgramming
  vars := plan.compiledVariables
  rows := plan.compiledRows
  objective := plan.compiledObjective

end OptModel.Plan
