import OptModel.Proofs.Routing.Rounds

/-!
# The legs of given tours

When the customers are split into sequences, each closed over the depot, the legs of the tours are
arcs of the plan, no two of them the same. Every customer is where one leg starts and where one
ends, and the depot is as often as there are tours.

## Main definitions

* `Plan.legsOf` — the legs of all tours
* `Plan.placeIn` — the place of a customer in its sequence, counted from one

## Main results

* `Plan.Split.mem_arcs`, `Plan.Split.nodup_legsOf` — legs are arcs, and different
* `Plan.Split.countP_out`, `Plan.Split.countP_into` — how many legs start and end at a location
* `Plan.Split.placeIn_leg` — places go up by one along a leg between customers
-/

namespace OptModel.Plan

variable {plan : Plan} {sequences : List (List ℕ)}

/-- The legs of all tours. -/
def legsOf (plan : Plan) (sequences : List (List ℕ)) : List (ℕ × ℕ) :=
  sequences.flatMap fun inner => legs (plan.closed inner)

/-- The place of `i` in the sequence that it is in, counted from one. -/
def placeIn (sequences : List (List ℕ)) (i : ℕ) : ℕ :=
  ((sequences.find? fun inner => inner.contains i).map fun inner => inner.idxOf i + 1).getD 0

/-! ### Where legs start and end -/

theorem mem_legs_iff {stops : List ℕ} {i j : ℕ} :
    (i, j) ∈ legs stops ↔ ∃ k : ℕ, stops[k]? = some i ∧ stops[k + 1]? = some j := by
  rw [legs, List.mem_iff_getElem?]
  refine exists_congr fun k => ?_
  rw [List.getElem?_zip_eq_some, List.getElem?_tail]

theorem map_snd_legs_closed (inner : List ℕ) :
    (legs (plan.closed inner)).map Prod.snd = inner ++ [plan.depot] := by
  rw [legs, List.map_snd_zip]
  · rfl
  · simp

theorem map_fst_legs_closed (inner : List ℕ) :
    (legs (plan.closed inner)).map Prod.fst = plan.depot :: inner := by
  have hfst : ∀ (i : ℕ) (rest : List ℕ),
      (legs (i :: (rest ++ [plan.depot]))).map Prod.fst = i :: rest := by
    intro i rest
    induction rest generalizing i with
    | nil => rfl
    | cons j rest ih => rw [List.cons_append, legs_cons_cons, List.map_cons, ih]
  exact hfst plan.depot inner

theorem count_fst_legsOf (i : ℕ) :
    ((plan.legsOf sequences).map Prod.fst).count i =
      (if plan.depot = i then sequences.length else 0) + sequences.flatten.count i := by
  induction sequences with
  | nil => simp [legsOf]
  | cons inner sequences ih =>
    rw [legsOf, List.flatMap_cons, List.map_append, List.count_append, map_fst_legs_closed,
      List.count_cons, ← legsOf, ih, List.flatten_cons, List.count_append, List.length_cons]
    simp only [beq_iff_eq]
    split <;> omega

theorem count_snd_legsOf (j : ℕ) :
    ((plan.legsOf sequences).map Prod.snd).count j =
      (if plan.depot = j then sequences.length else 0) + sequences.flatten.count j := by
  induction sequences with
  | nil => simp [legsOf]
  | cons inner sequences ih =>
    rw [legsOf, List.flatMap_cons, List.map_append, List.count_append, map_snd_legs_closed,
      List.count_append, List.count_singleton, ← legsOf, ih, List.flatten_cons, List.count_append,
      List.length_cons]
    simp only [beq_iff_eq]
    split <;> omega

/-- A walk along the legs of a tour. -/
theorem leads_of_legs {driven : ℕ → ℕ → Bool} {rank : ℕ → ℚ} (h : plan.MakesRounds driven rank)
    {i : ℕ} {rest : List ℕ} (hcustomers : ∀ c ∈ i :: rest, c ∈ plan.customers)
    (hlegs : ∀ leg ∈ legs (i :: (rest ++ [plan.depot])), leg.2 ∈ plan.others leg.1 ∧
      driven leg.1 leg.2 = true) :
    Leads plan driven i (i :: rest) := by
  induction rest generalizing i with
  | nil =>
    have hi := hcustomers i List.mem_cons_self
    have hhome := hlegs (i, plan.depot) List.mem_cons_self
    exact .step (mem_customers.1 hi).2 ((h.successor?_iff hi).2 hhome) .home
  | cons j rest ih =>
    have hi := hcustomers i List.mem_cons_self
    rw [List.cons_append, legs_cons_cons] at hlegs
    have hnext := hlegs (i, j) List.mem_cons_self
    refine .step (mem_customers.1 hi).2 ((h.successor?_iff hi).2 hnext) (ih ?_ ?_)
    · exact fun c hc => hcustomers c (List.mem_cons_of_mem i hc)
    · exact fun leg hleg => hlegs leg (List.mem_cons_of_mem _ hleg)

namespace Split

variable (h : plan.Split sequences)
include h

theorem nodup_flatten : sequences.flatten.Nodup := h.perm.nodup_iff.2 nodup_customers

theorem mem_customers {inner : List ℕ} (hinner : inner ∈ sequences) :
    ∀ c ∈ inner, c ∈ plan.customers := fun _ hc =>
  h.perm.mem_iff.1 (List.mem_flatten_of_mem hinner hc)

/-- A customer is in one sequence. -/
theorem eq_of_mem {inner other : List ℕ} (hinner : inner ∈ sequences) (hother : other ∈ sequences)
    {c : ℕ} (hc : c ∈ inner) (hc' : c ∈ other) : inner = other := by
  by_contra hne
  have : Std.Symm (@List.Disjoint ℕ) := ⟨fun _ _ hd => hd.symm⟩
  have hdisjoint := (List.nodup_flatten.1 h.nodup_flatten).2.forall hinner hother hne
  exact hdisjoint hc hc'

theorem count_fst {i : ℕ} (hi : i ∈ plan.customers) :
    ((plan.legsOf sequences).map Prod.fst).count i = 1 := by
  rw [count_fst_legsOf, if_neg (Ne.symm (Plan.mem_customers.1 hi).2), h.perm.count_eq,
    List.count_eq_one_of_mem nodup_customers hi]

theorem count_snd {j : ℕ} (hj : j ∈ plan.customers) :
    ((plan.legsOf sequences).map Prod.snd).count j = 1 := by
  rw [count_snd_legsOf, if_neg (Ne.symm (Plan.mem_customers.1 hj).2), h.perm.count_eq,
    List.count_eq_one_of_mem nodup_customers hj]

theorem depot_count : sequences.flatten.count plan.depot = 0 :=
  List.count_eq_zero_of_not_mem fun hmem => (Plan.mem_customers.1 (h.perm.mem_iff.1 hmem)).2 rfl

theorem count_fst_depot :
    ((plan.legsOf sequences).map Prod.fst).count plan.depot = sequences.length := by
  rw [count_fst_legsOf, if_pos rfl, h.depot_count, Nat.add_zero]

theorem count_snd_depot :
    ((plan.legsOf sequences).map Prod.snd).count plan.depot = sequences.length := by
  rw [count_snd_legsOf, if_pos rfl, h.depot_count, Nat.add_zero]

/-! ### Legs are arcs -/

/-- No leg stays where it is: a tour is no shorter than one customer, and has none twice. -/
theorem leg_ne {leg : ℕ × ℕ} (hleg : leg ∈ plan.legsOf sequences) : leg.2 ≠ leg.1 := by
  obtain ⟨inner, hinner, hmem⟩ := List.mem_flatMap.1 hleg
  obtain ⟨i, j⟩ := leg
  obtain ⟨k, hi, hj⟩ := mem_legs_iff.1 hmem
  intro heq
  have heq : j = i := heq
  subst heq
  have hdepot : plan.depot ∉ inner := fun hd =>
    (Plan.mem_customers.1 (h.mem_customers hinner _ hd)).2 rfl
  have hnodup : (inner ++ [plan.depot]).Nodup := by
    have hinnerNodup := (List.nodup_flatten.1 h.nodup_flatten).1 inner hinner
    exact hinnerNodup.append (List.nodup_singleton _) (by simpa using hdepot)
  cases k with
  | zero =>
    -- the tour would have no customer
    obtain ⟨c, rest, rfl⟩ := List.exists_cons_of_ne_nil (h.nonempty inner hinner)
    have hc : c = plan.depot := (Option.some.inj hj).trans (Option.some.inj hi).symm
    exact hdepot (hc ▸ List.mem_cons_self)
  | succ k =>
    -- the tour would have a stop twice
    change (inner ++ [plan.depot])[k]? = _ at hi
    change (inner ++ [plan.depot])[k + 1]? = _ at hj
    have hlt := (List.getElem?_eq_some_iff.1 hj).1
    have heq := (List.getElem?_inj (by omega) hnodup).1 (hi.trans hj.symm)
    omega

theorem mem_arcs (hdepot : plan.depot < plan.size) {leg : ℕ × ℕ}
    (hleg : leg ∈ plan.legsOf sequences) : leg ∈ plan.arcs := by
  obtain ⟨inner, hinner, hmem⟩ := List.mem_flatMap.1 hleg
  have hfst : leg.1 ∈ plan.depot :: inner := by
    rw [← map_fst_legs_closed]
    exact List.mem_map_of_mem hmem
  have hsnd : leg.2 ∈ inner ++ [plan.depot] := by
    rw [← map_snd_legs_closed]
    exact List.mem_map_of_mem hmem
  have hlocation : ∀ i, i = plan.depot ∨ i ∈ inner → i < plan.size := by
    rintro i (rfl | hi)
    · exact hdepot
    · exact (Plan.mem_customers.1 (h.mem_customers hinner i hi)).1
  refine Plan.mem_arcs.2 ⟨hlocation _ (List.mem_cons.1 hfst), hlocation _ ?_, h.leg_ne hleg⟩
  rw [List.mem_append, List.mem_singleton] at hsnd
  exact hsnd.symm

/-- **No leg is driven twice**: it starts or ends at a customer. -/
theorem nodup_legsOf (hdepot : plan.depot < plan.size) : (plan.legsOf sequences).Nodup := by
  rw [List.nodup_iff_count_le_one]
  intro leg
  by_cases hleg : leg ∈ plan.legsOf sequences
  · obtain ⟨hfst, hsnd, hne⟩ := Plan.mem_arcs.1 (h.mem_arcs hdepot hleg)
    by_cases hstart : leg.1 = plan.depot
    · have hend : leg.2 ∈ plan.customers := Plan.mem_customers.2 ⟨hsnd, hstart ▸ hne⟩
      exact List.count_le_count_map.trans (h.count_snd hend).le
    · exact List.count_le_count_map.trans (h.count_fst (Plan.mem_customers.2 ⟨hfst, hstart⟩)).le
  · rw [List.count_eq_zero_of_not_mem hleg]
    exact Nat.zero_le 1

/-! ### How many legs start and end at a location -/

/-- **The locations that legs out of `i` go to.** -/
theorem countP_out (hdepot : plan.depot < plan.size) (i : ℕ) :
    (plan.others i).countP (fun j => (i, j) ∈ plan.legsOf sequences) =
      ((plan.legsOf sequences).map Prod.fst).count i := by
  rw [List.count, List.countP_map]
  refine List.countP_mem_eq (g := fun j => (i, j)) (nodup_others i) (h.nodup_legsOf hdepot)
    (fun _ _ heq => (Prod.mk.inj heq).2) fun leg hleg => ?_
  obtain ⟨-, hlt, hne⟩ := Plan.mem_arcs.1 (h.mem_arcs hdepot hleg)
  rw [Function.comp_apply, beq_iff_eq]
  constructor
  · rintro rfl
    exact ⟨leg.2, mem_others.2 ⟨hlt, hne⟩, rfl⟩
  · rintro ⟨j, -, rfl⟩
    rfl

/-- **The locations that legs into `j` come from.** -/
theorem countP_into (hdepot : plan.depot < plan.size) (j : ℕ) :
    (plan.others j).countP (fun i => (i, j) ∈ plan.legsOf sequences) =
      ((plan.legsOf sequences).map Prod.snd).count j := by
  rw [List.count, List.countP_map]
  refine List.countP_mem_eq (g := fun i => (i, j)) (nodup_others j) (h.nodup_legsOf hdepot)
    (fun _ _ heq => (Prod.mk.inj heq).1) fun leg hleg => ?_
  obtain ⟨hlt, -, hne⟩ := Plan.mem_arcs.1 (h.mem_arcs hdepot hleg)
  rw [Function.comp_apply, beq_iff_eq]
  constructor
  · rintro rfl
    exact ⟨leg.1, mem_others.2 ⟨hlt, Ne.symm hne⟩, rfl⟩
  · rintro ⟨i, -, rfl⟩
    rfl

/-! ### Places -/

theorem placeIn_eq {inner : List ℕ} (hinner : inner ∈ sequences) {c : ℕ} (hc : c ∈ inner) :
    placeIn sequences c = inner.idxOf c + 1 := by
  have hsome : (sequences.find? fun inner => inner.contains c).isSome := by
    rw [List.find?_isSome]
    exact ⟨inner, hinner, List.contains_iff_mem.2 hc⟩
  obtain ⟨found, hfound⟩ := Option.isSome_iff_exists.1 hsome
  have hmem : c ∈ found := by simpa using List.find?_some hfound
  rw [placeIn, hfound, h.eq_of_mem hinner (List.mem_of_find?_eq_some hfound) hc hmem]
  rfl

theorem exists_mem {c : ℕ} (hc : c ∈ plan.customers) : ∃ inner ∈ sequences, c ∈ inner :=
  List.mem_flatten.1 (h.perm.mem_iff.2 hc)

theorem placeIn_bounds (hdepot : plan.depot < plan.size) {c : ℕ} (hc : c ∈ plan.customers) :
    1 ≤ placeIn sequences c ∧ placeIn sequences c ≤ plan.size - 1 := by
  obtain ⟨inner, hinner, hmem⟩ := h.exists_mem hc
  have hlength : inner.length ≤ plan.size - 1 := by
    rw [← length_customers hdepot, ← h.perm.length_eq]
    exact (List.sublist_flatten_of_mem hinner).length_le
  have hlt := List.idxOf_lt_length_of_mem hmem
  rw [h.placeIn_eq hinner hmem]
  omega

/-- **Places go up by one along a leg between customers.** -/
theorem placeIn_leg {i j : ℕ} (hleg : (i, j) ∈ plan.legsOf sequences) (hi : i ≠ plan.depot)
    (hj : j ≠ plan.depot) : placeIn sequences j = placeIn sequences i + 1 := by
  obtain ⟨inner, hinner, hmem⟩ := List.mem_flatMap.1 hleg
  obtain ⟨k, hik, hjk⟩ := mem_legs_iff.1 hmem
  have hnodup : inner.Nodup := (List.nodup_flatten.1 h.nodup_flatten).1 inner hinner
  have hinside : ∀ {k c : ℕ}, (inner ++ [plan.depot])[k]? = some c → c ≠ plan.depot →
      inner[k]? = some c := by
    intro k c hc hne
    rw [List.getElem?_append] at hc
    split at hc
    · exact hc
    · exact absurd (List.mem_singleton.1 (List.mem_of_getElem? hc)) hne
  cases k with
  | zero => exact absurd (Option.some.inj hik).symm hi
  | succ k =>
    have hik' := hinside hik hi
    have hjk' := hinside hjk hj
    obtain ⟨hik₁, hik₂⟩ := List.getElem?_eq_some_iff.1 hik'
    obtain ⟨hjk₁, hjk₂⟩ := List.getElem?_eq_some_iff.1 hjk'
    rw [h.placeIn_eq hinner (List.mem_of_getElem? hik'),
      h.placeIn_eq hinner (List.mem_of_getElem? hjk'), ← hik₂, ← hjk₂, hnodup.idxOf_getElem,
      hnodup.idxOf_getElem]

end Split

end OptModel.Plan
