import OptModel.Proofs.Routing.Walks
import Mathlib.Tactic.Ring

/-!
# Arcs that make rounds

When every customer is left once and entered once, and something rises along every arc between
customers, the driven arcs make rounds: from each arc out of the depot a walk comes home, and
together the walks serve every customer once. A walk comes home because what rises along it cannot
rise forever; a customer is served because its one predecessor is, and it is served once because the
predecessor is.

## Main definitions

* `Plan.MakesRounds` — the condition on the driven arcs
* `Plan.Split` — a way to split the customers into sequences

## Main results

* `Plan.MakesRounds.exists_leads` — walks come home
* `Plan.MakesRounds.flatten_perm` — walks serve every customer once
* `Plan.MakesRounds.tours_eq` — so there are tours
* `Plan.MakesRounds.sum_legs` — the driven arcs are the legs of the tours
-/

namespace OptModel.Plan

/-- Every customer is left once and entered once, and `rank` rises along driven arcs between
customers. -/
structure MakesRounds (plan : Plan) (driven : ℕ → ℕ → Bool) (rank : ℕ → ℚ) : Prop where
  leave : ∀ i ∈ plan.customers, (plan.others i).countP (fun j => driven i j) = 1
  enter : ∀ j ∈ plan.customers, (plan.others j).countP (fun i => driven i j) = 1
  rises : ∀ i ∈ plan.customers, ∀ j ∈ plan.customers, j ≠ i → driven i j = true → rank i < rank j

/-- A way to split the customers into non-empty sequences, one for each vehicle that is used. -/
structure Split (plan : Plan) (sequences : List (List ℕ)) : Prop where
  nonempty : ∀ inner ∈ sequences, inner ≠ []
  perm : sequences.flatten.Perm plan.customers
  fleet : sequences.length ≤ plan.vehicles

namespace MakesRounds

variable {plan : Plan} {driven : ℕ → ℕ → Bool} {rank : ℕ → ℚ} (h : plan.MakesRounds driven rank)
include h

/-- From a customer there is one way on. -/
theorem successor?_iff {i j : ℕ} (hi : i ∈ plan.customers) :
    plan.successor? driven i = some j ↔ j ∈ plan.others i ∧ driven i j = true := by
  refine ⟨successor?_eq_some, ?_⟩
  rintro ⟨hj, hdriven⟩
  obtain ⟨a, -, -, hunique⟩ := List.exists_unique_of_countP_eq_one (h.leave i hi)
  refine successor?_eq_of_unique hj hdriven fun k hk hdrivenk => ?_
  rw [hunique k hk hdrivenk, hunique j hj hdriven]

theorem exists_successor {i : ℕ} (hi : i ∈ plan.customers) :
    ∃ j, plan.successor? driven i = some j := by
  obtain ⟨j, hj, hdriven, -⟩ := List.exists_unique_of_countP_eq_one (h.leave i hi)
  exact ⟨j, (h.successor?_iff hi).2 ⟨hj, hdriven⟩⟩

/-- **Walks come home.** -/
theorem exists_leads : ∀ i ∈ plan.customers, ∃ inner, Leads plan driven i inner := by
  refine List.rank_induction (fun i => -rank i) fun i hi ih => ?_
  obtain ⟨j, hj⟩ := h.exists_successor hi
  obtain ⟨hmem, hdriven⟩ := successor?_eq_some hj
  obtain ⟨hlt, hne⟩ := mem_others.1 hmem
  have hi' := (mem_customers.1 hi).2
  by_cases hhome : j = plan.depot
  · subst hhome
    exact ⟨[i], .step hi' hj .home⟩
  · have hj' : j ∈ plan.customers := mem_customers.2 ⟨hlt, hhome⟩
    obtain ⟨inner, hinner⟩ := ih j hj' (neg_lt_neg (h.rises i hi j hj' hne hdriven))
    exact ⟨i :: inner, .step hi' hj hinner⟩

variable {firsts : List ℕ} {sequences : List (List ℕ)}

omit h in
theorem mem_firstStops {j : ℕ} :
    j ∈ plan.firstStops driven ↔ j ∈ plan.customers ∧ driven plan.depot j = true := by
  rw [firstStops, List.mem_filter]

omit h in
theorem mem_customers_of_leads
    (hwalks : List.Forall₂ (Leads plan driven) (plan.firstStops driven) sequences) :
    ∀ c ∈ sequences.flatten, c ∈ plan.customers := by
  intro c hc
  obtain ⟨inner, hinner, hmem⟩ := List.mem_flatten.1 hc
  obtain ⟨i, hi, hwalk⟩ := hwalks.exists_of_mem_right hinner
  exact hwalk.mem_customers (mem_customers.1 (mem_firstStops.1 hi).1).1 c hmem

/-- **Walks serve every customer once.** -/
theorem count_eq_one (hdepot : plan.depot < plan.size)
    (hwalks : List.Forall₂ (Leads plan driven) (plan.firstStops driven) sequences) :
    ∀ j ∈ plan.customers, sequences.flatten.count j = 1 := by
  have hmem := mem_customers_of_leads hwalks
  refine List.rank_induction rank fun j hj ih => ?_
  obtain ⟨hlt, hne⟩ := mem_customers.1 hj
  obtain ⟨p, hp, hdriven, hunique⟩ := List.exists_unique_of_countP_eq_one (h.enter j hj)
  obtain ⟨hplt, hpne⟩ := mem_others.1 hp
  have hon : ∀ c ∈ sequences.flatten, (plan.successor? driven c = some j) ↔ c = p := by
    intro c hc
    rw [h.successor?_iff (hmem c hc)]
    constructor
    · rintro ⟨hjc, hcj⟩
      have hjc' := mem_others.1 hjc
      exact hunique c (mem_others.2 ⟨(mem_customers.1 (hmem c hc)).1, Ne.symm hjc'.2⟩) hcj
    · rintro rfl
      exact ⟨mem_others.2 ⟨hlt, Ne.symm hpne⟩, hdriven⟩
  have hcount : (sequences.flatten.countP fun c => plan.successor? driven c = some j) =
      sequences.flatten.count p := by
    rw [List.count]
    refine List.countP_congr fun c hc => ?_
    rw [decide_eq_true_iff, beq_iff_eq]
    exact hon c hc
  rw [count_flatten_eq hwalks hne, hcount]
  by_cases hhome : p = plan.depot
  · -- the depot is the predecessor: a walk starts at `j`, and none goes on to it
    have hfirst : (plan.firstStops driven).count j = 1 := by
      refine List.count_eq_one_of_mem (nodup_customers.filter _) ?_
      exact mem_firstStops.2 ⟨hj, hhome ▸ hdriven⟩
    have hnone : sequences.flatten.count p = 0 :=
      List.count_eq_zero_of_not_mem fun hmem' => (mem_customers.1 (hmem p hmem')).2 hhome
    rw [hfirst, hnone]
  · -- a customer is the predecessor: no walk starts at `j`, and those that serve `p` go on to it
    have hp' : p ∈ plan.customers := mem_customers.2 ⟨hplt, hhome⟩
    have hfirst : (plan.firstStops driven).count j = 0 := by
      refine List.count_eq_zero_of_not_mem fun hmem' => hhome ?_
      have hdepot' := hunique plan.depot (mem_others.2 ⟨hdepot, Ne.symm hne⟩)
        (mem_firstStops.1 hmem').2
      exact hdepot'.symm
    rw [hfirst, ih p hp' (h.rises p hp' j hj (Ne.symm hpne) hdriven)]

theorem flatten_perm (hdepot : plan.depot < plan.size)
    (hwalks : List.Forall₂ (Leads plan driven) (plan.firstStops driven) sequences) :
    sequences.flatten.Perm plan.customers := by
  rw [List.perm_iff_count]
  intro j
  by_cases hj : j ∈ plan.customers
  · rw [h.count_eq_one hdepot hwalks j hj, List.count_eq_one_of_mem nodup_customers hj]
  · rw [List.count_eq_zero_of_not_mem hj,
      List.count_eq_zero_of_not_mem fun hmem => hj (mem_customers_of_leads hwalks j hmem)]

/-- **There are tours**: the walks from the first stops. -/
theorem tours_eq (hdepot : plan.depot < plan.size) :
    ∃ sequences, List.Forall₂ (Leads plan driven) (plan.firstStops driven) sequences ∧
      plan.tours driven = .ok (sequences.map plan.closed) ∧
      sequences.flatten.Perm plan.customers := by
  obtain ⟨sequences, hwalks⟩ := List.exists_forall₂ fun i hi =>
    h.exists_leads i (mem_firstStops.1 hi).1
  have hperm := h.flatten_perm hdepot hwalks
  refine ⟨sequences, hwalks, tours_eq_ok_iff.2 ⟨sequences, hwalks, ?_, rfl⟩, hperm⟩
  rw [hperm.length_eq, length_customers hdepot]

/-! ### The driven arcs are the legs of the tours -/

omit h in
theorem sum_alongLegs (hwalks : List.Forall₂ (Leads plan driven) firsts sequences)
    (w : ℕ → ℕ → ℚ) :
    (sequences.map fun inner => alongLegs w (plan.closed inner)).sum =
      (firsts.map fun j => w plan.depot j).sum +
        (sequences.flatten.map fun c => w c ((plan.successor? driven c).getD plan.depot)).sum := by
  induction hwalks with
  | nil => simp
  | cons hwalk _ ih =>
    rw [List.map_cons, List.sum_cons, ih, hwalk.alongLegs_closed, List.map_cons, List.sum_cons,
      List.flatten_cons, List.map_append, List.sum_append]
    ring

/-- **What is added up over the driven arcs is added up over the legs of the tours.** -/
theorem sum_legs (hdepot : plan.depot < plan.size)
    (hwalks : List.Forall₂ (Leads plan driven) (plan.firstStops driven) sequences)
    (w : ℕ → ℕ → ℚ) :
    (plan.arcs.map fun a => if driven a.1 a.2 then w a.1 a.2 else 0).sum =
      (sequences.map fun inner => alongLegs w (plan.closed inner)).sum := by
  have hdriven : ∀ (i : ℕ) (l : List ℕ),
      (l.map fun j => if driven i j then w i j else 0).sum =
        ((l.filter fun j => driven i j).map fun j => w i j).sum := by
    intro i l
    rw [List.sum_map_ite, List.sum_map_zero, add_zero]
    simp only [Bool.decide_eq_true]
  have honward : ∀ i ∈ plan.customers,
      ((plan.others i).map fun j => if driven i j then w i j else 0).sum =
        w i ((plan.successor? driven i).getD plan.depot) := by
    intro i hi
    obtain ⟨j, hj⟩ := h.exists_successor hi
    have hone : (plan.others i).filter (fun j => driven i j) = [j] := by
      have hlength := h.leave i hi
      rw [List.countP_eq_length_filter, List.length_eq_one_iff] at hlength
      obtain ⟨k, hk⟩ := hlength
      have hmem : j ∈ (plan.others i).filter fun j => driven i j :=
        List.mem_filter.2 (successor?_eq_some hj)
      rw [hk, List.mem_singleton] at hmem
      rw [hk, hmem]
    rw [hdriven, hone, hj, Option.getD_some, List.map_singleton, List.sum_singleton]
  rw [sum_arcs_eq hdepot fun i j => if driven i j then w i j else 0, sum_alongLegs hwalks, hdriven,
    List.map_congr_left honward, ((h.flatten_perm hdepot hwalks).map _).sum_eq]
  rfl

end MakesRounds

end OptModel.Plan
