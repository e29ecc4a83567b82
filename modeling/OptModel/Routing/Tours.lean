import OptModel.Routing.Compile
import OptModel.Result

/-!
# Tours

The tours are read back off the arcs that are driven. Every customer is followed by the lowest
location that an arc is driven to; from every arc that leaves the depot that chain is followed until
it returns. The tours have to visit as many customers as there are.

## Main definitions

* `Plan.successor?` — where a chain goes on
* `Plan.follow` — the chain from a customer to the depot
* `Plan.tours` — all tours, for a given choice of driven arcs
* `Plan.routes` — the tours that an assignment drives, as routes
-/

namespace OptModel.Plan

/-- Why no tours can be read off. -/
inductive TourFault where
  | stopsAt (location : Nat)
  | neverReturns
  | visitCount (visited customers : Nat)
  deriving Repr, DecidableEq

/-- The text of a fault. -/
def TourFault.message : TourFault → String
  | stopsAt location => s!"route stops at location {location}"
  | neverReturns => "route does not return to the depot"
  | visitCount visited customers => s!"routes visit {visited} of {customers} customers"

variable (plan : Plan) (driven : Nat → Nat → Bool)

/-- The lowest location that is driven to from `i`. -/
def successor? (i : Nat) : Option Nat := (plan.others i).find? fun j => driven i j

/-- The chain of successors from `i` until it reaches the depot, both included, in at most `budget`
steps. -/
def follow : Nat → Nat → Except TourFault (List Nat)
  | budget, i =>
    if i = plan.depot then .ok [i]
    else
      match plan.successor? driven i with
      | none => .error (.stopsAt i)
      | some next =>
        match budget with
        | 0 => .error .neverReturns
        | budget + 1 => (follow budget next).map (i :: ·)

/-- The tour whose first customer is `i`. A chain through all customers takes `size - 1` steps to
come back to the depot, so a longer one never does. -/
def tour (i : Nat) : Except TourFault (List Nat) :=
  (follow plan driven (plan.size - 1) i).map (plan.depot :: ·)

/-- The customers that the tours start with. -/
def firstStops : List Nat := plan.customers.filter fun j => driven plan.depot j

/-- How many stops lie between the ends of a tour. -/
def visits (tours : List (List Nat)) : Nat :=
  tours.foldl (fun total stops => total + (stops.length - 2)) 0

/-- The tours along the driven arcs, in the order of their first customers. -/
def tours : Except TourFault (List (List Nat)) := do
  let tours ← (plan.firstStops driven).mapM (plan.tour driven)
  if visits tours = plan.size - 1 then .ok tours
  else .error (.visitCount (visits tours) (plan.size - 1))

/-- Whether an assignment drives from `i` to `j`: the value of the arc is above one half. -/
def drives (values : Assignment) (i j : Nat) : Bool :=
  (values.value? (arcName i j)).any fun x => 0.5 < x

/-- The routes that an assignment drives, one vehicle per tour. -/
def routes (values : Assignment) : Except TourFault (List Route) :=
  (plan.tours (drives values)).map fun tours =>
    tours.zipIdx.map fun (stops, k) => .ofTour k stops (plan.length stops)

end OptModel.Plan
