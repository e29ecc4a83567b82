import OptModel.Proofs.Routing.Legs
import OptModel.Proofs.Routing.Sound

/-!
# Tours are solutions

Every way to split the customers into sequences, no more than there are vehicles, is a solution of
the program of the plan: one on the legs of the closed tours, zero on the other arcs, and for every
customer its place in its sequence. All rows hold exactly. What is read back from this solution are
the tours, in the order of their first customers.

That the tours come back is an instance of what holds of any solution: the driven arcs make rounds,
and a walk along the legs of a tour is the walk that is found from its first customer.

## Main definitions

* `Plan.solution` — the assignment of some tours

## Main results

* `Plan.Split.feasible` — the inequalities hold
* `Plan.Split.walks_perm` — the walks are the sequences
* `Plan.compile_complete` — the program is satisfied, and the tours are read back
-/

namespace OptModel

/-! ### Assignments of lists -/

namespace Assignment

theorem value?_ofList_append (values : List (String × Float)) (e : String × Float) (name : String) :
    (ofList (values ++ [e])).value? name =
      if name = e.1 then some e.2 else (ofList values).value? name := by
  rw [ofList, List.foldl_append, List.foldl_cons, List.foldl_nil, value?_insert]
  rfl

/-- Names that are given one value have it. -/
theorem value?_ofList {values : List (String × Float)} (h : (values.map Prod.fst).Nodup)
    {name : String} {x : Float} (hmem : (name, x) ∈ values) :
    (ofList values).value? name = some x := by
  induction values using List.reverseRecOn with
  | nil => exact absurd hmem List.not_mem_nil
  | append_singleton values e ih =>
    rw [List.map_append, List.nodup_append] at h
    obtain ⟨hvalues, -, hdisjoint⟩ := h
    rw [value?_ofList_append]
    rcases List.mem_append.1 hmem with hmem | hmem
    · have hne : name ≠ e.1 :=
        hdisjoint name (List.mem_map.2 ⟨_, hmem, rfl⟩) e.1 (by simp)
      rw [if_neg hne, ih hvalues hmem]
    · obtain rfl : (name, x) = e := List.mem_singleton.1 hmem
      exact if_pos rfl

end Assignment

namespace Plan

/-- The assignment of the tours through some sequences: one on their legs, zero on the other arcs,
and for every customer its place in its sequence. -/
def solution (plan : Plan) (sequences : List (List ℕ)) : Assignment :=
  .ofList <|
    (plan.arcs.map fun a => (arcName a.1 a.2, if a ∈ plan.legsOf sequences then 1.0 else 0.0)) ++
      plan.customers.map fun i => (orderName i, Binary64.ofNat (placeIn sequences i))

variable {plan : Plan} {sequences : List (List ℕ)}

theorem nodup_solution_names :
    (((plan.arcs.map fun a =>
        (arcName a.1 a.2, if a ∈ plan.legsOf sequences then (1.0 : Float) else 0.0)) ++
      plan.customers.map fun i => (orderName i, Binary64.ofNat (placeIn sequences i))).map
        Prod.fst).Nodup := by
  have hnames : (plan.compiledVariables.map (·.name)).Nodup := nodup_names_compile
  rw [compiledVariables, List.map_append, List.map_map, List.map_map] at hnames
  rw [List.map_append, List.map_map, List.map_map]
  exact hnames

theorem solution_arc {a : ℕ × ℕ} (ha : a ∈ plan.arcs) :
    (plan.solution sequences).value? (arcName a.1 a.2) =
      some (if a ∈ plan.legsOf sequences then 1.0 else 0.0) :=
  Assignment.value?_ofList nodup_solution_names
    (List.mem_append_left _ (List.mem_map.2 ⟨a, ha, rfl⟩))

theorem solution_order {i : ℕ} (hi : i ∈ plan.customers) :
    (plan.solution sequences).value? (orderName i) =
      some (Binary64.ofNat (placeIn sequences i)) :=
  Assignment.value?_ofList nodup_solution_names
    (List.mem_append_right _ (List.mem_map.2 ⟨i, hi, rfl⟩))

theorem exactly_arc {a : ℕ × ℕ} (ha : a ∈ plan.arcs) :
    exactly (plan.solution sequences) (arcName a.1 a.2) =
      if a ∈ plan.legsOf sequences then 1 else 0 := by
  rw [exactly, solution_arc ha, Option.getD_some]
  split
  · exact Extended.value_of_toRat? Binary64.toRat?_one
  · exact Extended.value_of_toRat? Binary64.toRat?_zero

/-- Walks start at the first stops. -/
theorem map_headD_of_leads {driven : ℕ → ℕ → Bool} {firsts : List ℕ}
    (hwalks : List.Forall₂ (Leads plan driven) firsts sequences) :
    sequences.map (fun inner => inner.headD plan.depot) = firsts := by
  induction hwalks with
  | nil => rfl
  | cons hwalk _ ih =>
    rw [List.map_cons, ih]
    cases hwalk with
    | home => rfl
    | step => rfl

namespace Split

variable (h : plan.Split sequences) (hplan : plan.IsProper)
include h hplan

theorem exactly_order {i : ℕ} (hi : i ∈ plan.customers) :
    exactly (plan.solution sequences) (orderName i) = placeIn sequences i := by
  have hlt : placeIn sequences i < 2 * Binary64.leadingBit := by
    have hle := (h.placeIn_bounds hplan.depot_lt hi).2
    have hsize := hplan.size_lt
    simp only [Binary64.leadingBit]
    omega
  rw [exactly, solution_order hi, Option.getD_some]
  exact Extended.value_of_toRat? (Binary64.toRat?_ofNat hlt)

omit hplan in
/-- The order of the sequences does not matter. -/
theorem of_perm {ordered : List (List ℕ)} (hperm : ordered.Perm sequences) :
    plan.Split ordered where
  nonempty inner hinner := h.nonempty inner (hperm.mem_iff.1 hinner)
  perm := hperm.flatten.trans h.perm
  fleet := hperm.length_eq.trans_le h.fleet

/-! ### The inequalities -/

variable {x : ℕ → ℕ → ℚ} {u : ℕ → ℚ}
  (hx : ∀ a ∈ plan.arcs, x a.1 a.2 = if a ∈ plan.legsOf sequences then 1 else 0)
  (hu : ∀ i ∈ plan.customers, u i = placeIn sequences i)

omit h hplan in
theorem sum_eq_countP {α : Type} {l : List α} {f : α → ℚ} {p : α → Bool}
    (hf : ∀ a ∈ l, f a = if p a then 1 else 0) : (l.map f).sum = l.countP p := by
  have hle := List.abs_sum_sub_countP_le (l := l) (f := f) (p := p) (t := 0) fun a ha => by
    rw [hf a ha, sub_self, abs_zero]
  rw [mul_zero, abs_nonpos_iff, sub_eq_zero] at hle
  exact hle

include hx in
theorem sum_out {i : ℕ} (hi : i < plan.size) :
    ((plan.others i).map fun j => x i j).sum =
      ((plan.legsOf sequences).map Prod.fst).count i := by
  rw [← h.countP_out hplan.depot_lt i]
  refine sum_eq_countP fun j hj => ?_
  simp only [decide_eq_true_iff]
  exact hx (i, j) (mem_arcs_of_mem_others hi hj)

include hx in
theorem sum_into {j : ℕ} (hj : j < plan.size) :
    ((plan.others j).map fun i => x i j).sum =
      ((plan.legsOf sequences).map Prod.snd).count j := by
  rw [← h.countP_into hplan.depot_lt j]
  refine sum_eq_countP fun i hi => ?_
  simp only [decide_eq_true_iff]
  exact hx (i, j) (mem_arcs_into hj hi)

include hx hu in
/-- **The inequalities hold exactly.** -/
theorem feasible : plan.Feasible 0 x u where
  arc a ha := by
    rw [hx a ha]
    split
    · exact ⟨by norm_num, by norm_num, 1, by norm_num⟩
    · exact ⟨by norm_num, by norm_num, 0, by norm_num⟩
  place i hi := by
    obtain ⟨hlower, hupper⟩ := h.placeIn_bounds hplan.depot_lt hi
    have hlower' : (1 : ℚ) ≤ placeIn sequences i := by exact_mod_cast hlower
    have hupper' : (placeIn sequences i : ℚ) ≤ plan.size - 1 := by
      have hcast : (placeIn sequences i : ℚ) + 1 ≤ plan.size := by
        have := hplan.two_le_size
        exact_mod_cast (by omega : placeIn sequences i + 1 ≤ plan.size)
      linarith
    rw [hu i hi]
    constructor <;> linarith
  enter j hj := by
    rw [h.sum_into hplan hx (Plan.mem_customers.1 hj).1, h.count_snd hj]
    norm_num
  leave i hi := by
    rw [h.sum_out hplan hx (Plan.mem_customers.1 hi).1, h.count_fst hi]
    norm_num
  fleet := by
    have hsum := h.sum_out hplan hx hplan.depot_lt
    rw [h.count_fst_depot] at hsum
    rw [customers, hsum, add_zero]
    exact_mod_cast h.fleet
  balance := by
    have hout := h.sum_out hplan hx hplan.depot_lt
    have hinto := h.sum_into hplan hx hplan.depot_lt
    rw [h.count_fst_depot] at hout
    rw [h.count_snd_depot] at hinto
    rw [customers, hout, hinto, sub_self, abs_zero]
  order i hi j hj hne := by
    have harc : (i, j) ∈ plan.arcs :=
      Plan.mem_arcs.2 ⟨(Plan.mem_customers.1 hi).1, (Plan.mem_customers.1 hj).1, hne⟩
    rw [hx (i, j) harc, hu i hi, hu j hj]
    split
    · next hleg =>
      have hplace := h.placeIn_leg hleg (Plan.mem_customers.1 hi).2 (Plan.mem_customers.1 hj).2
      rw [hplace]
      push_cast
      linarith
    · have hupper := (h.placeIn_bounds hplan.depot_lt hi).2
      have hlower := (h.placeIn_bounds hplan.depot_lt hj).1
      have hle : placeIn sequences i + 2 ≤ plan.size + placeIn sequences j := by
        have := hplan.two_le_size
        omega
      have hle' : (placeIn sequences i : ℚ) + 2 ≤ plan.size + placeIn sequences j := by
        exact_mod_cast hle
      linarith

/-! ### What is read back -/

variable {driven : ℕ → ℕ → Bool} {rank : ℕ → ℚ} {ordered : List (List ℕ)}
  (hdriven : ∀ a ∈ plan.arcs, driven a.1 a.2 = true ↔ a ∈ plan.legsOf sequences)
  (hrounds : plan.MakesRounds driven rank)

include hdriven hrounds in
/-- A walk along a sequence. -/
theorem leads {i : ℕ} {rest : List ℕ} (hmem : i :: rest ∈ sequences) :
    Leads plan driven i (i :: rest) := by
  refine leads_of_legs hrounds (h.mem_customers hmem) fun leg hleg => ?_
  have hlegs : leg ∈ plan.legsOf sequences :=
    List.mem_flatMap.2 ⟨i :: rest, hmem, List.mem_cons_of_mem _ hleg⟩
  have harc := h.mem_arcs hplan.depot_lt hlegs
  exact ⟨mem_others.2 (Plan.mem_arcs.1 harc).2, (hdriven leg harc).2 hlegs⟩

include hdriven in
/-- The first stops are where the sequences start. -/
theorem mem_firstStops_iff {i : ℕ} :
    i ∈ plan.firstStops driven ↔ ∃ rest, i :: rest ∈ sequences := by
  rw [MakesRounds.mem_firstStops]
  constructor
  · rintro ⟨hi, hfirst⟩
    obtain ⟨hlt, hne⟩ := Plan.mem_customers.1 hi
    have hleg := (hdriven (plan.depot, i) (Plan.mem_arcs.2 ⟨hplan.depot_lt, hlt, hne⟩)).1 hfirst
    obtain ⟨inner, hinner, hmem⟩ := List.mem_flatMap.1 hleg
    obtain ⟨k, hdepot, hnext⟩ := mem_legs_iff.1 hmem
    cases k with
    | zero =>
      cases inner with
      | nil => exact absurd (Option.some.inj hnext).symm hne
      | cons j rest => exact ⟨rest, Option.some.inj hnext ▸ hinner⟩
    | succ k =>
      -- the tour would come by the depot
      change (inner ++ [plan.depot])[k]? = _ at hdepot
      change (inner ++ [plan.depot])[k + 1]? = _ at hnext
      have hlt' := (List.getElem?_eq_some_iff.1 hnext).1
      rw [List.length_append, List.length_singleton] at hlt'
      rw [List.getElem?_append_left (by omega)] at hdepot
      have hcustomer := h.mem_customers hinner _ (List.mem_of_getElem? hdepot)
      exact absurd rfl (Plan.mem_customers.1 hcustomer).2
  · rintro ⟨rest, hmem⟩
    have hi := h.mem_customers hmem i List.mem_cons_self
    have hleg : (plan.depot, i) ∈ plan.legsOf sequences :=
      List.mem_flatMap.2 ⟨i :: rest, hmem, List.mem_cons_self⟩
    exact ⟨hi, (hdriven _ (h.mem_arcs hplan.depot_lt hleg)).2 hleg⟩

omit hplan in
theorem nodup_sequences : sequences.Nodup := by
  have hdisjoint := (List.nodup_flatten.1 h.nodup_flatten).2
  refine hdisjoint.imp_of_mem fun {inner other} hinner _ hdisjoint => ?_
  rintro rfl
  obtain ⟨c, rest, rfl⟩ := List.exists_cons_of_ne_nil (h.nonempty inner hinner)
  exact hdisjoint List.mem_cons_self List.mem_cons_self

include hdriven hrounds in
/-- **The walks are the sequences.** -/
theorem walks_perm
    (hwalks : List.Forall₂ (Leads plan driven) (plan.firstStops driven) ordered) :
    ordered.Perm sequences := by
  have hordered : ordered.Nodup := by
    refine List.Nodup.of_map (fun inner => inner.headD plan.depot) ?_
    rw [map_headD_of_leads hwalks]
    exact nodup_customers.filter _
  rw [List.perm_ext_iff_of_nodup hordered h.nodup_sequences]
  intro inner
  constructor
  · intro hinner
    obtain ⟨i, hi, hwalk⟩ := hwalks.exists_of_mem_right hinner
    obtain ⟨rest, hmem⟩ := (h.mem_firstStops_iff hplan hdriven).1 hi
    rwa [hwalk.unique (h.leads hplan hdriven hrounds hmem)]
  · intro hinner
    obtain ⟨i, rest, rfl⟩ := List.exists_cons_of_ne_nil (h.nonempty inner hinner)
    have hi := (h.mem_firstStops_iff hplan hdriven).2 ⟨rest, hinner⟩
    obtain ⟨other, hother, hwalk⟩ := hwalks.flip.exists_of_mem_right hi
    rwa [(h.leads hplan hdriven hrounds hinner).unique hwalk]

end Split

/-- The exact values of a solution are those of its doubles. -/
theorem assigns_solution :
    plan.Assigns (plan.solution sequences) (exactly (plan.solution sequences)) := by
  refine assigns_exactly fun a ha => ?_
  rw [solution_arc ha]
  split <;> decide

/-- **Tours are solutions.** Customers that are split into sequences, no more than there are
vehicles, are a solution of the program of the plan, without any tolerance. The objective says how
long the tours are together. What is read back are these tours, in the order of their first
customers and with the vehicles numbered in turn. -/
theorem compile_complete {plan : Plan} (hplan : plan.IsProper) {sequences : List (List ℕ)}
    (hsplit : plan.Split sequences) :
    ∃ program, Family.mixedInteger.stage Binary64.infinity plan.compile = .ok program ∧
      program.exact.Satisfied 0
        (plan.compile.vars.map fun v => exactly (plan.solution sequences) v.name) ∧
      program.exact.objectiveAt
          ((plan.compile.vars.map fun v => exactly (plan.solution sequences) v.name).map
            .rational) =
        .rational (sequences.map fun inner => alongLegs plan.way (plan.closed inner)).sum ∧
      ∃ ordered : List (List ℕ), ordered.Perm sequences ∧
        (ordered.map fun inner => inner.headD plan.depot).Pairwise (· < ·) ∧
        ∃ routes, plan.routes (plan.solution sequences) = .ok routes ∧
          plan.RoutesAlong ordered routes := by
  obtain ⟨program, hprogram, hmeans⟩ := exists_program hplan
  obtain ⟨hsatisfied, hobjective⟩ := hmeans (exactly (plan.solution sequences))
  have hfeasible := hsplit.feasible hplan
    (x := fun i j => exactly (plan.solution sequences) (arcName i j))
    (u := fun i => exactly (plan.solution sequences) (orderName i))
    (fun a ha => exactly_arc ha) (fun i hi => hsplit.exactly_order hplan hi)
  have hsmall : (plan.size : ℚ) * 0 < 1 := by norm_num
  have hrounds := hfeasible.makesRounds hplan le_rfl hsmall
  obtain ⟨ordered, hwalks, htours, -⟩ := hrounds.tours_eq hplan.depot_lt
  have hdriven : ∀ a ∈ plan.arcs,
      drivenAt (fun i j => exactly (plan.solution sequences) (arcName i j)) a.1 a.2 = true ↔
        a ∈ plan.legsOf sequences := by
    intro a ha
    rw [drivenAt, exactly_arc ha, decide_eq_true_iff]
    split
    · next hleg => exact ⟨fun _ => hleg, fun _ => by norm_num⟩
    · next hleg => exact ⟨fun hlt => absurd hlt (by norm_num), fun h => absurd h hleg⟩
  have hperm := hsplit.walks_perm hplan hdriven hrounds hwalks
  have hcost := hfeasible.abs_sum_sub_cost_le hplan le_rfl hsmall hwalks
  rw [zero_mul, abs_nonpos_iff, sub_eq_zero, (hperm.map _).sum_eq] at hcost
  have hread := tours_congr hplan.depot_lt (drives_eq assigns_solution) htours
  refine ⟨program, hprogram, (hsatisfied 0).2 hfeasible, ?_, ordered, hperm, ?_, _,
    routes_eq_ok_iff.2 ⟨_, hread, rfl⟩, (hsplit.of_perm hperm).routesAlong hplan⟩
  · rw [hobjective, hcost]
  · rw [map_headD_of_leads hwalks]
    exact pairwise_firstStops _

/-- A depot and three customers, with two vehicles. -/
def fork : Plan := ⟨0, 2, [[0.0, 1.0, 2.0, 3.0], [1.0, 0.0, 3.0, 4.0], [2.0, 3.0, 0.0, 5.0],
  [3.0, 4.0, 5.0, 0.0]]⟩

/-- The first vehicle serves two customers, the second one the customer in between. -/
theorem split_fork : fork.Split [[3, 1], [2]] where
  nonempty := by decide
  perm := by decide
  fleet := by decide

/-- The vehicles change their order, because the first customer of the first one is higher. -/
theorem compile_complete_fork :
    ∃ program, Family.mixedInteger.stage Binary64.infinity fork.compile = .ok program ∧
      program.exact.Satisfied 0
        (fork.compile.vars.map fun v => exactly (fork.solution [[3, 1], [2]]) v.name) ∧
      program.exact.objectiveAt
          ((fork.compile.vars.map fun v => exactly (fork.solution [[3, 1], [2]]) v.name).map
            .rational) =
        .rational ([[3, 1], [2]].map fun inner => alongLegs fork.way (fork.closed inner)).sum ∧
      fork.routes (fork.solution [[3, 1], [2]]) =
        .ok [⟨0, [0, 2, 0], 4.0⟩, ⟨1, [0, 3, 1, 0], 8.0⟩] ∧
      ∃ ordered : List (List ℕ), ordered.Perm [[3, 1], [2]] ∧
        (ordered.map fun inner => inner.headD 0).Pairwise (· < ·) ∧
        fork.RoutesAlong ordered [⟨0, [0, 2, 0], 4.0⟩, ⟨1, [0, 3, 1, 0], 8.0⟩] := by
  have hproper : fork.IsProper :=
    ⟨by decide, by decide, by decide, by decide, by decide, by decide, by decide⟩
  obtain ⟨program, hprogram, hsatisfied, hobjective, ordered, hperm, hordered, routes, hroutes,
    halong⟩ := compile_complete hproper split_fork
  have hread : fork.routes (fork.solution [[3, 1], [2]]) =
      .ok [⟨0, [0, 2, 0], 4.0⟩, ⟨1, [0, 3, 1, 0], 8.0⟩] := rfl
  obtain rfl := Except.ok.inj (hroutes.symm.trans hread)
  exact ⟨program, hprogram, hsatisfied, hobjective, hread, ordered, hperm, hordered, halong⟩

end Plan

end OptModel
