import OptModel.Proofs.Routing.Walks

/-!
# What routes say

A route is a record of machine words and a double: the number of a vehicle, the stops of its tour,
and a distance. As long as the locations can be counted in machine words nothing is cut off, so the
words can be read as numbers again. The distance is that of the legs between the stops, one after
the other, and it is rounded wherever an addition of doubles is.

Nothing here mentions how routes come about. A list of routes is compared with sequences of
customers, and what it has to say about them is said of the records themselves.

## Main definitions

* `Route.Says` — the vehicle, the stops and the distance of a route
* `Plan.RoutesAlong` — routes through sequences of customers, one vehicle for each

## Main results

* `Plan.routesAlong_routesOf` — the routes that are made of tours say so
* `Plan.RoutesAlong.value_distance` — their distances, where nothing is rounded
-/

namespace OptModel

/-- What a route says: the tour of vehicle number `k` makes these stops, and its distance is that of
the legs between them, added up from the first. -/
structure Route.Says (route : Route) (plan : Plan) (k : ℕ) (stops : List ℕ) : Prop where
  vehicle_eq : route.vehicle.toNat = k
  stops_eq : route.stops.map UInt64.toNat = stops
  distance_eq : route.distance =
    ((Plan.legs stops).map fun leg => plan.distance leg.1 leg.2).foldl (· + ·) (-0.0)

namespace Plan

variable {plan : Plan}

/-- Routes through sequences of customers: one for each, in turn, by vehicles that are numbered from
zero. Every route leaves the depot, serves its customers in order, and returns. -/
def RoutesAlong (plan : Plan) (sequences : List (List ℕ)) (routes : List Route) : Prop :=
  List.Forall₂
    (fun entry route => route.Says plan entry.2 (plan.depot :: (entry.1 ++ [plan.depot])))
    sequences.zipIdx routes

/-- The routes of some tours, one vehicle for each in turn. -/
def routesOf (plan : Plan) (tours : List (List ℕ)) : List Route :=
  tours.zipIdx.map fun (stops, k) => .ofTour k stops (plan.length stops)

theorem routes_eq_ok_iff {values : Assignment} {routes : List Route} :
    plan.routes values = .ok routes ↔
      ∃ tours, plan.tours (drives values) = .ok tours ∧ plan.routesOf tours = routes := by
  rw [Plan.routes, Except.map_eq_ok_iff]
  rfl

/-- Numbers that are machine words are not cut off. -/
theorem says_ofTour {k : ℕ} {stops : List ℕ} (hk : k < UInt64.size)
    (hstops : ∀ x ∈ stops, x < UInt64.size) :
    (Route.ofTour k stops (plan.length stops)).Says plan k stops where
  vehicle_eq := UInt64.toNat_ofNat_of_lt hk
  stops_eq := by
    show (stops.map Nat.toUInt64).map UInt64.toNat = stops
    rw [List.map_map]
    exact (List.map_congr_left fun x hx => UInt64.toNat_ofNat_of_lt (hstops x hx)).trans
      (List.map_id _)
  distance_eq := List.foldl_map.symm

/-- **Routes that are made of tours say so**, if vehicles and locations can be counted in machine
words. -/
theorem routesAlong_routesOf {sequences : List (List ℕ)} (hdepot : plan.depot < plan.size)
    (hsize : plan.size ≤ UInt64.size) (hvehicles : sequences.length ≤ UInt64.size)
    (hcustomers : ∀ inner ∈ sequences, ∀ x ∈ inner, x < plan.size) :
    plan.RoutesAlong sequences (plan.routesOf (sequences.map plan.closed)) := by
  rw [RoutesAlong, routesOf, List.zipIdx_map, List.map_map, List.forall₂_map_right_iff,
    List.forall₂_same]
  rintro ⟨inner, k⟩ hentry
  have hk : k < UInt64.size := (List.snd_lt_of_mem_zipIdx hentry).trans_le hvehicles
  have hinner : inner ∈ sequences := List.fst_mem_of_mem_zipIdx hentry
  refine says_ofTour hk fun x hx => ?_
  rcases List.mem_cons.1 hx with rfl | hx
  · exact hdepot.trans_le hsize
  · rcases List.mem_append.1 hx with hx | hx
    · exact (hcustomers inner hinner x hx).trans_le hsize
    · exact List.mem_singleton.1 hx ▸ hdepot.trans_le hsize

/-- **Where nothing is rounded** the distance of a route is the length of the way. -/
theorem RoutesAlong.value_distance {sequences : List (List ℕ)} {routes : List Route}
    (h : plan.RoutesAlong sequences routes) :
    ∀ route ∈ routes, plan.LengthIsExact (route.stops.map UInt64.toNat) →
      Binary64.value route.distance = alongLegs plan.way (route.stops.map UInt64.toNat) := by
  intro route hroute hexact
  obtain ⟨entry, -, hsays⟩ := h.exists_of_mem_right hroute
  rw [← value_length hexact, hsays.distance_eq, ← hsays.stops_eq, List.foldl_map]
  rfl

end Plan

end OptModel
