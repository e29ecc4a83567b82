import OptModel.Proofs.Routing.Accepted
import OptModel.Proofs.Routing.Sound

/-!
# Which customers accepted routes serve

Routes are accepted when together they have as many stops as there are customers. Nothing is assumed
here of the values they are read off, which may be those of no solution at all. Then walks may come
together: two customers go on to the same one, or a walk goes on to a customer that another walk
starts with. From there on both walks are the same, so a customer is served twice, and another one
that nobody goes to makes up for it in the count.

This is the only way in which accepted routes can fail to serve every customer once. When no two
walks come together, a customer is served as often as the one place that walks come from, and so
once, all the way from the depot.

## Main definitions

* `Plan.Follows` — the arcs that walks go along
* `Plan.KeepsApart` — no two of them lead to the same customer
* `Plan.interiorStops` — what routes serve

## Main results

* `Plan.flatten_perm_iff` — walks serve every customer once just when they stay apart
* `Plan.routes_cover_iff` — the same of accepted routes
* `Plan.routes_merging` — accepted routes that serve a customer twice
-/

namespace OptModel.Plan

/-- Walks go along the arc from `i` to `j`: from the depot to every customer that is driven to, and
from a customer to the lowest location that is driven to. -/
def Follows (plan : Plan) (driven : ℕ → ℕ → Bool) (i j : ℕ) : Prop :=
  (i = plan.depot ∧ j ∈ plan.firstStops driven) ∨
    (i ∈ plan.customers ∧ plan.successor? driven i = some j)

/-- The stops of routes other than their ends, one route after the other. -/
def interiorStops (routes : List Route) : List UInt64 :=
  routes.flatMap fun route => route.stops.tail.dropLast

/-- Walks come to a customer from one place at most. -/
def KeepsApart (plan : Plan) (driven : ℕ → ℕ → Bool) : Prop :=
  ∀ j ∈ plan.customers, ∀ i i', plan.Follows driven i j → plan.Follows driven i' j → i = i'

variable {plan : Plan} {driven : ℕ → ℕ → Bool} {sequences : List (List ℕ)}

/-! ### All walks -/

/-- What goes on to a customer is the only place that walks come from. -/
theorem KeepsApart.eq_of_follows (h : plan.KeepsApart driven) {i j : ℕ} (hj : j ∈ plan.customers)
    (hi : i ∈ plan.customers) (hnext : plan.successor? driven i = some j) :
    j ∉ plan.firstStops driven ∧
      ∀ c ∈ plan.customers, plan.successor? driven c = some j → c = i := by
  have hfollows : plan.Follows driven i j := .inr ⟨hi, hnext⟩
  constructor
  · intro hfirst
    exact (mem_customers.1 hi).2 (h j hj i plan.depot hfollows (.inl ⟨rfl, hfirst⟩))
  · intro c hc hcj
    exact h j hj c i (.inr ⟨hc, hcj⟩) hfollows

section Walks

variable (hwalks : List.Forall₂ (Leads plan driven) (plan.firstStops driven) sequences)
include hwalks

theorem mem_customers_of_mem_flatten : ∀ c ∈ sequences.flatten, c ∈ plan.customers :=
  MakesRounds.mem_customers_of_leads hwalks

/-- A customer that walks start with is served once when they stay apart. -/
theorem KeepsApart.count_firstStop (h : plan.KeepsApart driven) {j : ℕ}
    (hfirst : j ∈ plan.firstStops driven) : sequences.flatten.count j = 1 := by
  have hj : j ∈ plan.customers := (List.mem_filter.1 hfirst).1
  have hnone : (sequences.flatten.countP fun c => plan.successor? driven c = some j) = 0 := by
    rw [List.countP_eq_zero]
    intro c hc hon
    exact (h.eq_of_follows hj (mem_customers_of_mem_flatten hwalks c hc)
      (of_decide_eq_true hon)).1 hfirst
  have hnodup : (plan.firstStops driven).Nodup := nodup_customers.filter _
  rw [count_flatten_eq hwalks (mem_customers.1 hj).2, hnone, hnodup.count, if_pos hfirst]

/-- Any other customer is served as often as the one that walks come from. -/
theorem KeepsApart.count_next (h : plan.KeepsApart driven) {i j : ℕ} (hj : j ∈ plan.customers)
    (hi : i ∈ plan.customers) (hnext : plan.successor? driven i = some j) :
    sequences.flatten.count j = sequences.flatten.count i := by
  obtain ⟨hfirst, hunique⟩ := h.eq_of_follows hj hi hnext
  rw [count_flatten_eq hwalks (mem_customers.1 hj).2, List.count_eq_zero_of_not_mem hfirst,
    Nat.zero_add, List.count]
  refine List.countP_congr fun c hc => ?_
  rw [decide_eq_true_iff, beq_iff_eq]
  constructor
  · exact hunique c (mem_customers_of_mem_flatten hwalks c hc)
  · rintro rfl
    exact hnext

/-- From a customer that is served once, a walk goes on to customers that are served once. The
induction is on the walk; at the depot it ends. -/
theorem KeepsApart.count_eq_one (h : plan.KeepsApart driven) {i : ℕ} {inner : List ℕ}
    (hwalk : Leads plan driven i inner) (hlt : i < plan.size)
    (hone : i ≠ plan.depot → sequences.flatten.count i = 1) :
    ∀ c ∈ inner, sequences.flatten.count c = 1 := by
  induction hwalk with
  | home => exact List.forall_mem_nil _
  | @step i j rest hi hnext _ ih =>
    have hjlt : j < plan.size := (mem_others.1 (successor?_eq_some hnext).1).1
    refine List.forall_mem_cons.2 ⟨hone hi, ih hjlt fun hj => ?_⟩
    rw [h.count_next hwalks (mem_customers.2 ⟨hjlt, hj⟩) (mem_customers.2 ⟨hlt, hi⟩) hnext]
    exact hone hi

theorem KeepsApart.nodup_flatten (h : plan.KeepsApart driven) : sequences.flatten.Nodup := by
  rw [List.nodup_iff_count_eq_one]
  intro c hc
  obtain ⟨inner, hinner, hmem⟩ := List.mem_flatten.1 hc
  obtain ⟨i, hi, hwalk⟩ := hwalks.exists_of_mem_right hinner
  have hcustomer := mem_customers.1 (List.mem_filter.1 hi).1
  exact h.count_eq_one hwalks hwalk hcustomer.1 (fun _ => h.count_firstStop hwalks hi) c hmem

/-- Walks that serve every customer once come to each from one place: a second place would be served
too, and add to the count. -/
theorem keepsApart_of_perm (hperm : sequences.flatten.Perm plan.customers) :
    plan.KeepsApart driven := by
  intro j hj i i' hi hi'
  have hcount := count_flatten_eq hwalks (mem_customers.1 hj).2
  rw [hperm.count_eq, List.count_eq_one_of_mem nodup_customers hj] at hcount
  have hon {c : ℕ} (hc : c ∈ plan.customers) (hnext : plan.successor? driven c = some j) :
      0 < sequences.flatten.countP fun c => plan.successor? driven c = some j :=
    List.countP_pos_iff.2 ⟨c, hperm.mem_iff.2 hc, decide_eq_true hnext⟩
  have hfirst (hj : j ∈ plan.firstStops driven) : 0 < (plan.firstStops driven).count j :=
    List.count_pos_iff.2 hj
  -- a walk that starts with `j` and one that goes on to it would make two
  rcases hi with ⟨hhome, hstart⟩ | ⟨hc, hnext⟩
  · rcases hi' with ⟨hhome', -⟩ | ⟨hc', hnext'⟩
    · exact hhome.trans hhome'.symm
    · have := hfirst hstart
      have := hon hc' hnext'
      omega
  · rcases hi' with ⟨-, hstart'⟩ | ⟨hc', hnext'⟩
    · have := hfirst hstart'
      have := hon hc hnext
      omega
    · have hone : (sequences.flatten.countP fun c => plan.successor? driven c = some j) = 1 := by
        have := hon hc hnext
        omega
      obtain ⟨p, -, -, hunique⟩ := List.exists_unique_of_countP_eq_one hone
      rw [hunique i (hperm.mem_iff.2 hc) (decide_eq_true hnext),
        hunique i' (hperm.mem_iff.2 hc') (decide_eq_true hnext')]

/-- **Walks with as many stops as there are customers** serve every customer once just when they
stay apart. -/
theorem flatten_perm_iff (hlength : sequences.flatten.length = plan.customers.length) :
    sequences.flatten.Perm plan.customers ↔ plan.KeepsApart driven := by
  constructor
  · exact keepsApart_of_perm hwalks
  · intro h
    have hsubperm := List.subperm_of_subset (h.nodup_flatten hwalks)
      (mem_customers_of_mem_flatten hwalks)
    exact hsubperm.perm_of_length_le hlength.ge

end Walks

/-! ### Accepted routes -/

theorem map_stops_routesOf (plan : Plan) (tours : List (List ℕ)) :
    (plan.routesOf tours).map Route.stops = tours.map (List.map Nat.toUInt64) := calc
  _ = (tours.zipIdx.map Prod.fst).map (List.map Nat.toUInt64) := by
    rw [routesOf, List.map_map, List.map_map]
    rfl
  _ = tours.map (List.map Nat.toUInt64) := by rw [List.zipIdx_map_fst]

/-- Between the ends of a tour is the walk that it was made from. -/
theorem interiorStops_routesOf (plan : Plan) (sequences : List (List ℕ)) :
    interiorStops (plan.routesOf (sequences.map plan.closed)) =
      sequences.flatten.map Nat.toUInt64 := by
  have hinner : ∀ inner : List ℕ,
      ((plan.closed inner).map Nat.toUInt64).tail.dropLast = inner.map Nat.toUInt64 := by
    intro inner
    rw [closed, List.map_cons, List.tail_cons, List.map_append, List.map_singleton,
      List.dropLast_concat]
  calc interiorStops (plan.routesOf (sequences.map plan.closed))
      = ((plan.routesOf (sequences.map plan.closed)).map Route.stops).flatMap
          fun stops => stops.tail.dropLast := by rw [List.flatMap_map, interiorStops]
    _ = sequences.flatMap fun inner => ((plan.closed inner).map Nat.toUInt64).tail.dropLast := by
        rw [map_stops_routesOf, List.flatMap_map, List.flatMap_map]
    _ = sequences.flatMap fun inner => inner.map Nat.toUInt64 := by simp only [hinner]
    _ = sequences.flatten.map Nat.toUInt64 := by rw [List.flatMap_def, List.map_flatten]

/-- **When accepted routes serve every customer once**, whatever they are read off: when walks stay
apart. They always serve customers only, as many as there are, and no route serves one twice. -/
theorem routes_cover_iff {model : Model Float} {values : Assignment} {routes : List Route}
    (hplan : ofModel model = .ok plan) (hroutes : plan.routes values = .ok routes) :
    ∃ sequences : List (List ℕ), routes = plan.routesOf (sequences.map plan.closed) ∧
      interiorStops routes = sequences.flatten.map Nat.toUInt64 ∧
      ((∀ c ∈ plan.customers, sequences.flatten.count c = 1) ↔
        plan.KeepsApart (drives values)) ∧
      sequences.flatten.length = plan.customers.length ∧
      (∀ c ∈ sequences.flatten, c ∈ plan.customers) ∧
      ∀ inner ∈ sequences, inner ≠ [] ∧ inner.Nodup := by
  obtain ⟨tours, htours, rfl⟩ := routes_eq_ok_iff.1 hroutes
  obtain ⟨sequences, hwalks, hlength, rfl⟩ := tours_eq_ok_iff.1 htours
  rw [← length_customers (depot_lt_of_ofModel hplan)] at hlength
  have hmem := mem_customers_of_mem_flatten hwalks
  have hperm : (∀ c ∈ plan.customers, sequences.flatten.count c = 1) ↔
      sequences.flatten.Perm plan.customers := by
    constructor
    · intro hone
      rw [List.perm_iff_count]
      intro c
      by_cases hc : c ∈ plan.customers
      · rw [hone c hc, List.count_eq_one_of_mem nodup_customers hc]
      · rw [List.count_eq_zero_of_not_mem hc, List.count_eq_zero_of_not_mem fun h => hc (hmem c h)]
    · intro h c hc
      rw [h.count_eq, List.count_eq_one_of_mem nodup_customers hc]
  refine ⟨sequences, rfl, interiorStops_routesOf plan sequences,
    hperm.trans (flatten_perm_iff hwalks hlength), hlength, hmem, ?_⟩
  intro inner hinner
  obtain ⟨i, hi, hwalk⟩ := hwalks.exists_of_mem_right hinner
  obtain ⟨rest, rfl⟩ := hwalk.eq_cons (mem_customers.1 (List.mem_filter.1 hi).1).2
  exact ⟨List.cons_ne_nil _ _, hwalk.nodup⟩

/-- A depot and three customers, with two vehicles. All locations are as far from each other. -/
def square : Model Float where
  type := .vehicleRouting
  vehicles := some 2
  depot := some 0
  distances := some [[0.0, 1.0, 1.0, 1.0], [1.0, 0.0, 1.0, 1.0], [1.0, 1.0, 0.0, 1.0],
    [1.0, 1.0, 1.0, 0.0]]

/-- The plan of `square`. -/
def squarePlan : Plan := ⟨0, 2, square.distances.getD []⟩

theorem ofModel_square : ofModel square = .ok squarePlan := by
  rfl

/-- The arcs of one round. -/
def aroundSquare : Assignment :=
  .ofList [("x_0_1", 1.0), ("x_1_2", 1.0), ("x_2_3", 1.0), ("x_3_0", 1.0)]

theorem routes_cover_square :
    squarePlan.routes aroundSquare = .ok [⟨0, [0, 1, 2, 3, 0], 4.0⟩] ∧
      ∃ sequences : List (List ℕ),
        [⟨0, [0, 1, 2, 3, 0], 4.0⟩] = squarePlan.routesOf (sequences.map squarePlan.closed) ∧
        ((∀ c ∈ squarePlan.customers, sequences.flatten.count c = 1) ↔
          squarePlan.KeepsApart (drives aroundSquare)) := by
  have hroutes : squarePlan.routes aroundSquare = .ok [⟨0, [0, 1, 2, 3, 0], 4.0⟩] := by
    rfl
  obtain ⟨sequences, hsequences, -, hcover, -⟩ := routes_cover_iff ofModel_square hroutes
  exact ⟨hroutes, sequences, hsequences, hcover⟩

/-- The arcs of two walks that come together at the first customer. -/
def merging : Assignment :=
  .ofList [("x_0_1", 1.0), ("x_0_2", 1.0), ("x_1_0", 1.0), ("x_2_1", 1.0)]

/-- The count does not see that the first customer is served twice and the third one not at all. -/
theorem routes_merging :
    ofModel square = .ok squarePlan ∧
      ∃ routes, squarePlan.routes merging = .ok routes ∧
        ¬ ∀ c ∈ squarePlan.customers, (interiorStops routes).count c.toUInt64 = 1 :=
  ⟨ofModel_square, [⟨0, [0, 1, 0], 2.0⟩, ⟨1, [0, 2, 1, 0], 3.0⟩], by rfl, by decide⟩

end OptModel.Plan
