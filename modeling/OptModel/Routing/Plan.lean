import OptModel.Model.Basic
import OptModel.Decimal.Text

/-!
# Routing plans

What is left of a routing model once its payload has been checked: a depot, a number of vehicles and
a square table of distances. The distances are those of the model's matrix if there is one and the
straight ones between its locations otherwise.

## Main definitions

* `Plan` — depot, vehicles and distances
* `Plan.ofModel` — the plan of a routing model, or its first flaw
* `Plan.customers` — the locations other than the depot
-/

namespace OptModel

/-- A routing problem with its distances settled. Locations are numbered from zero. -/
structure Plan where
  depot : Nat
  vehicles : Nat
  distances : List (List Float)

namespace Plan

/-- Why a model has no plan. -/
inductive Flaw where
  | vehiclesMissing
  | depotMissing
  | noVehicle
  | rowCount (rows locations : Nat)
  | rowLength (row length expected : Nat)
  | badDistance (row : Nat) (distance : Float)
  | noLocation
  | depotOutside (depot locations : Nat)

/-- The text of a flaw. -/
def Flaw.message : Flaw → String
  | vehiclesMissing => "vehicle routing requires 'vehicles'"
  | depotMissing => "vehicle routing requires 'depot'"
  | noVehicle => "vehicle routing requires at least one vehicle"
  | rowCount rows locations =>
    s!"distanceMatrix has {rows} rows but there are {locations} locations"
  | rowLength row length expected =>
    s!"distanceMatrix row {row} has {length} entries, expected {expected}"
  | badDistance row distance =>
    s!"distanceMatrix row {row} contains invalid distance " ++ plainText distance
  | noLocation => "vehicle routing requires at least one location"
  | depotOutside depot locations => s!"depot {depot} is not one of the {locations} locations"

/-- Whether a number can be a distance: finite and not negative. -/
def isDistance (x : Float) : Bool := x.isFinite && !(x < 0.0)

/-- What is wrong with the row at `position` of a matrix of `n` rows. -/
def rowFlaw? (n position : Nat) (row : List Float) : Option Flaw :=
  if row.length ≠ n then some (.rowLength position row.length n)
  else (row.find? fun x => !isDistance x).map (.badDistance position)

/-- What is wrong with the first bad row of a matrix. -/
def matrixFlaw? (matrix : List (List Float)) : Option Flaw :=
  matrix.zipIdx.findSome? fun (row, i) => rowFlaw? matrix.length i row

/-- The straight distances between locations. -/
def straight (locations : List Location) : List (List Float) :=
  locations.map fun a => locations.map fun b => a.distance b

/-- The distances of a model: its matrix, once checked, or the straight ones. -/
def distancesOf (model : Model Float) : Except Flaw (List (List Float)) :=
  match model.distances with
  | none => .ok (straight model.locations)
  | some matrix =>
    if !model.locations.isEmpty && model.locations.length != matrix.length then
      .error (.rowCount matrix.length model.locations.length)
    else
      match matrixFlaw? matrix with
      | some flaw => .error flaw
      | none => .ok matrix

theorem distancesOf_of_none {model : Model Float} (h : model.distances = none) :
    distancesOf model = .ok (straight model.locations) := by
  rw [distancesOf, h]

theorem distancesOf_of_some {model : Model Float} {matrix : List (List Float)}
    (h : model.distances = some matrix) :
    distancesOf model =
      if !model.locations.isEmpty && model.locations.length != matrix.length then
        .error (.rowCount matrix.length model.locations.length)
      else
        match matrixFlaw? matrix with
        | some flaw => .error flaw
        | none => .ok matrix := by
  rw [distancesOf, h]
/-- The plan of a routing model. -/
def ofModel (model : Model Float) : Except Flaw Plan := do
  let some vehicles := model.vehicles | .error .vehiclesMissing
  let some depot := model.depot | .error .depotMissing
  if vehicles = 0 then .error .noVehicle
  else
    let distances ← distancesOf model
    if distances.isEmpty then .error .noLocation
    else if distances.length ≤ depot.toNat then
      .error (.depotOutside depot.toNat distances.length)
    else .ok ⟨depot.toNat, vehicles.toNat, distances⟩

theorem ofModel_of_some {model : Model Float} {vehicles depot : UInt64}
    (hvehicles : model.vehicles = some vehicles) (hdepot : model.depot = some depot) :
    ofModel model =
      if vehicles = 0 then .error .noVehicle
      else distancesOf model >>= fun distances =>
        if distances.isEmpty then .error .noLocation
        else if distances.length ≤ depot.toNat then
          .error (.depotOutside depot.toNat distances.length)
        else .ok ⟨depot.toNat, vehicles.toNat, distances⟩ := by
  rw [ofModel, hvehicles, hdepot]

/-- How many locations there are, the depot included. -/
def size (plan : Plan) : Nat := plan.distances.length

/-- The locations other than `i`, in order. -/
def others (plan : Plan) (i : Nat) : List Nat := (List.range plan.size).filter (· ≠ i)

/-- The locations other than the depot, in order. -/
def customers (plan : Plan) : List Nat := plan.others plan.depot

/-- The length of the way from `i` to `j`. -/
def distance (plan : Plan) (i j : Nat) : Float := (plan.distances.getD i []).getD j 0.0

/-- The length of a way through `stops`, its legs added from the first. -/
def length (plan : Plan) (stops : List Nat) : Float :=
  (stops.zip stops.tail).foldl (fun sum leg => sum + plan.distance leg.1 leg.2) (-0.0)

end Plan

end OptModel
