import OptModel.Proofs.Except
import OptModel.Proofs.Lists
import OptModel.Proofs.Routing.Compiled
import OptModel.Routing.Tours
import Mathlib.Algebra.BigOperators.Group.List.Basic

/-!
# Walking along driven arcs

From a customer there is one way to go on: to the lowest location that is driven to. Going on until
the depot comes gives the customers that a tour serves after the first one, if it ever does. The
walk with a budget finds these customers and nothing else, so what it does can be said without it:
`Leads` says which customers a walk serves, by rules and without counting steps.

## Main definitions

* `Plan.Leads` — the customers on the way from a location to the depot
* `Plan.Reaches`, `Plan.Halts` — the customers on the way to anywhere, and where ways end
* `Plan.closed` — the tour that serves some customers
* `Plan.LengthIsExact` — ways whose length is not rounded

## Main results

* `Plan.Reaches.unique`, `Plan.Reaches.nodup` — a walk ends in one way, and passes no customer twice
* `Plan.follow_eq_ok_iff` — the walk with a budget
* `Plan.tours_eq_ok_iff`, `Plan.tours_congr` — all tours
* `Plan.Leads.count_eq` — how often a walk serves a customer
-/

namespace OptModel.Plan

/-- The tour that leaves the depot, serves `inner` in this order, and returns. -/
def closed (plan : Plan) (inner : List ℕ) : List ℕ := plan.depot :: (inner ++ [plan.depot])

/-- The customers on the way from a location to the depot, going on to the lowest location that is
driven to. -/
inductive Leads (plan : Plan) (driven : ℕ → ℕ → Bool) : ℕ → List ℕ → Prop where
  | home : Leads plan driven plan.depot []
  | step {i j : ℕ} {rest : List ℕ} (hi : i ≠ plan.depot)
    (hnext : plan.successor? driven i = some j) (h : Leads plan driven j rest) :
    Leads plan driven i (i :: rest)

/-- The customers on the way from a location to `k`, going on in the same manner. -/
inductive Reaches (plan : Plan) (driven : ℕ → ℕ → Bool) (k : ℕ) : ℕ → List ℕ → Prop where
  | here : Reaches plan driven k k []
  | step {i j : ℕ} {rest : List ℕ} (hi : i ≠ plan.depot)
    (hnext : plan.successor? driven i = some j) (h : Reaches plan driven k j rest) :
    Reaches plan driven k i (i :: rest)

/-- Where no walk goes on: at the depot, and where nothing is driven to. -/
def Halts (plan : Plan) (driven : ℕ → ℕ → Bool) (k : ℕ) : Prop :=
  k = plan.depot ∨ plan.successor? driven k = none

variable {plan : Plan} {driven : ℕ → ℕ → Bool}

theorem successor?_eq_some {i j : ℕ} (h : plan.successor? driven i = some j) :
    j ∈ plan.others i ∧ driven i j = true :=
  ⟨List.mem_of_find?_eq_some h, List.find?_some h⟩

/-- The first stops are in order. -/
theorem pairwise_firstStops (driven : ℕ → ℕ → Bool) :
    (plan.firstStops driven).Pairwise (· < ·) := by
  have hcustomers : plan.customers.Pairwise (· < ·) := List.pairwise_lt_range.filter _
  exact hcustomers.filter _

/-! ### Walks that end anywhere -/

/-- A walk home is one to the depot. -/
theorem leads_iff_reaches {i : ℕ} {inner : List ℕ} :
    Leads plan driven i inner ↔ Reaches plan driven plan.depot i inner := by
  constructor
  · intro h
    induction h with
    | home => exact .here
    | step hi hnext _ ih => exact .step hi hnext ih
  · intro h
    induction h with
    | here => exact .home
    | step hi hnext _ ih => exact .step hi hnext ih

namespace Reaches

variable {i k x : ℕ} {inner other : List ℕ}

theorem mem_customers (h : Reaches plan driven k i inner) (hi : i < plan.size) :
    ∀ c ∈ inner, c ∈ plan.customers := by
  induction h with
  | here => exact List.forall_mem_nil _
  | step hne hnext _ ih =>
    exact List.forall_mem_cons.2 ⟨Plan.mem_customers.2 ⟨hi, hne⟩,
      ih (mem_others.1 (successor?_eq_some hnext).1).1⟩

theorem lt_size (h : Reaches plan driven k i inner) (hi : i < plan.size) : k < plan.size := by
  induction h with
  | here => exact hi
  | step _ hnext _ ih => exact ih (mem_others.1 (successor?_eq_some hnext).1).1

/-- One step more. -/
theorem extend (h : Reaches plan driven k i inner) (hk : k ≠ plan.depot) {j : ℕ}
    (hnext : plan.successor? driven k = some j) : Reaches plan driven j i (inner ++ [k]) := by
  induction h with
  | here => exact .step hk hnext .here
  | step hi hon _ ih => exact .step hi hon ih

/-- Where a walk gets after as many steps is settled. -/
theorem end_unique (h : Reaches plan driven k i inner) (h' : Reaches plan driven x i inner) :
    k = x := by
  induction h with
  | here =>
    cases h'
    rfl
  | step _ hnext _ ih =>
    cases h' with
    | step _ hnext' hrest' =>
      rw [← Option.some.inj (hnext.symm.trans hnext')] at hrest'
      exact ih hrest'

/-- **Every walk is the beginning of one that has ended.** -/
theorem within (h' : Reaches plan driven x i other) (hk : plan.Halts driven k)
    (h : Reaches plan driven k i inner) : other <+: inner := by
  induction h' generalizing inner with
  | here => exact List.nil_prefix
  | step hi hnext _ ih =>
    cases h with
    | here => exact absurd hk (not_or.2 ⟨hi, hnext ▸ Option.some_ne_none _⟩)
    | step _ hnext' hrest =>
      rw [← Option.some.inj (hnext.symm.trans hnext')] at hrest
      exact (List.prefix_cons_inj _).2 (ih hrest)

/-- A walk ends in one way. -/
theorem unique (h : Reaches plan driven k i inner) (hk : plan.Halts driven k)
    (h' : Reaches plan driven x i other) (hx : plan.Halts driven x) : inner = other ∧ k = x := by
  obtain rfl := (h.within hx h').eq_of_length_le (h'.within hk h).length_le
  exact ⟨rfl, h.end_unique h'⟩

/-- What is left of a walk is a walk. -/
theorem of_append {c : ℕ} {before behind : List ℕ}
    (h : Reaches plan driven k i (before ++ c :: behind)) :
    Reaches plan driven k c (c :: behind) := by
  induction before generalizing i with
  | nil =>
    cases h with
    | step hi hnext hrest => exact .step hi hnext hrest
  | cons b before ih =>
    cases h with
    | step _ _ hrest => exact ih hrest

/-- **A walk that ends passes no customer twice.** Between the two times it would go round
forever. -/
theorem nodup (h : Reaches plan driven k i inner) (hk : plan.Halts driven k) : inner.Nodup := by
  induction h with
  | here => exact List.nodup_nil
  | @step i j rest hi hnext hrest ih =>
    refine List.nodup_cons.2 ⟨fun hmem => ?_, ih⟩
    obtain ⟨before, behind, rfl⟩ := List.append_of_mem hmem
    -- the walk from `i` is what is left of itself when it comes back, and shorter than that
    have hagain := (hrest.of_append.unique hk (.step hi hnext hrest) hk).1
    have hlength := congrArg List.length (List.cons.inj hagain).2
    simp only [List.length_append, List.length_cons] at hlength
    omega

end Reaches

/-! ### The walk with a budget -/

theorem follow_depot (budget : ℕ) : follow plan driven budget plan.depot = .ok [plan.depot] := by
  rw [follow, if_pos rfl]

theorem follow_zero {i : ℕ} (hi : i ≠ plan.depot) (stops : List ℕ) :
    follow plan driven 0 i ≠ .ok stops := by
  rw [follow, if_neg hi]
  cases plan.successor? driven i with
  | none => exact nofun
  | some next => exact nofun

theorem follow_of_none {i : ℕ} (hi : i ≠ plan.depot) (hnext : plan.successor? driven i = none)
    (budget : ℕ) : follow plan driven budget i = .error (.stopsAt i) := by
  cases budget with
  | zero => rw [follow, if_neg hi, hnext]
  | succ budget => rw [follow, if_neg hi, hnext]

theorem follow_of_some {i next : ℕ} (hi : i ≠ plan.depot)
    (hnext : plan.successor? driven i = some next) (budget : ℕ) :
    follow plan driven (budget + 1) i = (follow plan driven budget next).map (i :: ·) := by
  rw [follow, if_neg hi, hnext]

/-- A walk that is at the depot is over. -/
theorem follow_depot_eq_ok_iff {budget : ℕ} {stops : List ℕ} :
    follow plan driven budget plan.depot = .ok stops ↔
      ∃ inner, Leads plan driven plan.depot inner ∧ inner.length ≤ budget ∧
        stops = inner ++ [plan.depot] := by
  rw [follow_depot]
  constructor
  · intro h
    exact ⟨[], .home, Nat.zero_le _, (Except.ok.inj h).symm⟩
  · rintro ⟨inner, hleads, -, rfl⟩
    cases hleads with
    | home => rfl
    | step hne => exact absurd rfl hne

/-- **The walk finds the customers on the way**, if they are no more than the budget. -/
theorem follow_eq_ok_iff {budget i : ℕ} {stops : List ℕ} :
    follow plan driven budget i = .ok stops ↔
      ∃ inner, Leads plan driven i inner ∧ inner.length ≤ budget ∧
        stops = inner ++ [plan.depot] := by
  induction budget generalizing i stops with
  | zero =>
    by_cases hi : i = plan.depot
    · rw [hi]
      exact follow_depot_eq_ok_iff
    · refine ⟨fun h => absurd h (follow_zero hi stops), ?_⟩
      rintro ⟨inner, hleads, hlength, -⟩
      cases hleads with
      | home => exact absurd rfl hi
      | step => exact absurd hlength (Nat.not_succ_le_zero _)
  | succ budget ih =>
    by_cases hi : i = plan.depot
    · rw [hi]
      exact follow_depot_eq_ok_iff
    · cases hnext : plan.successor? driven i with
      | none =>
        rw [follow_of_none hi hnext]
        refine ⟨nofun, ?_⟩
        rintro ⟨inner, hleads, -, -⟩
        cases hleads with
        | home => exact absurd rfl hi
        | step _ hsome => exact absurd (hnext.symm.trans hsome) nofun
      | some next =>
        rw [follow_of_some hi hnext, Except.map_eq_ok_iff]
        constructor
        · rintro ⟨rest, hrest, rfl⟩
          obtain ⟨inner, hleads, hlength, rfl⟩ := ih.1 hrest
          exact ⟨i :: inner, .step hi hnext hleads, Nat.succ_le_succ hlength, rfl⟩
        · rintro ⟨inner, hleads, hlength, rfl⟩
          cases hleads with
          | home => exact absurd rfl hi
          | step _ hsome hrest =>
            rw [← Option.some.inj (hnext.symm.trans hsome)] at hrest
            exact ⟨_, ih.2 ⟨_, hrest, Nat.le_of_succ_le_succ hlength, rfl⟩, rfl⟩

/-- Walks look at arcs only. -/
theorem Leads.congr {driven' : ℕ → ℕ → Bool}
    (hdriven : ∀ a ∈ plan.arcs, driven' a.1 a.2 = driven a.1 a.2) {i : ℕ} {inner : List ℕ}
    (h : Leads plan driven i inner) (hi : i < plan.size) : Leads plan driven' i inner := by
  induction h with
  | home => exact .home
  | step hne hnext _ ih =>
    refine .step hne ?_ (ih (mem_others.1 (List.mem_of_find?_eq_some hnext)).1)
    rw [← hnext, successor?, successor?, ← List.head?_filter, ← List.head?_filter]
    exact congrArg List.head? <|
      List.filter_congr fun k hk => hdriven (_, k) (mem_arcs_of_mem_others hi hk)

theorem tour_eq_ok_iff {i : ℕ} {stops : List ℕ} :
    plan.tour driven i = .ok stops ↔
      ∃ inner, (Leads plan driven i inner ∧ inner.length ≤ plan.size - 1) ∧
        plan.closed inner = stops := by
  rw [tour, Except.map_eq_ok_iff]
  constructor
  · rintro ⟨rest, hrest, rfl⟩
    obtain ⟨inner, hleads, hlength, rfl⟩ := follow_eq_ok_iff.1 hrest
    exact ⟨inner, ⟨hleads, hlength⟩, rfl⟩
  · rintro ⟨inner, ⟨hleads, hlength⟩, rfl⟩
    exact ⟨_, follow_eq_ok_iff.2 ⟨inner, hleads, hlength, rfl⟩, rfl⟩

theorem visits_map_closed (sequences : List (List ℕ)) :
    visits (sequences.map plan.closed) = sequences.flatten.length := by
  have hfold : ∀ start, (sequences.map plan.closed).foldl
      (fun total stops => total + (stops.length - 2)) start =
        start + sequences.flatten.length := by
    induction sequences with
    | nil => exact fun start => rfl
    | cons inner sequences ih =>
      intro start
      have hlength : (plan.closed inner).length - 2 = inner.length := by simp [closed]
      rw [List.map_cons, List.foldl_cons, ih, hlength, List.flatten_cons, List.length_append,
        Nat.add_assoc]
  exact (hfold 0).trans (Nat.zero_add _)

/-- **All tours**: there are tours when every walk from a first stop comes home and together they
visit as many customers as there are. -/
theorem tours_eq_ok_iff {tours : List (List ℕ)} :
    plan.tours driven = .ok tours ↔
      ∃ sequences, List.Forall₂ (Leads plan driven) (plan.firstStops driven) sequences ∧
        sequences.flatten.length = plan.size - 1 ∧ tours = sequences.map plan.closed := by
  rw [Plan.tours, Except.bind_eq_ok_iff]
  constructor
  · rintro ⟨found, hfound, hvisits⟩
    rw [Except.mapM_eq_ok_iff] at hfound
    obtain ⟨sequences, hleads, rfl⟩ :=
      List.forall₂_exists_map_iff.1 (hfound.imp fun _ _ htour => tour_eq_ok_iff.1 htour)
    rw [visits_map_closed] at hvisits
    split at hvisits
    · next hlength =>
      exact ⟨sequences, hleads.imp fun _ _ hwalk => hwalk.1, hlength, (Except.ok.inj hvisits).symm⟩
    · exact nomatch hvisits
  · rintro ⟨sequences, hleads, hlength, rfl⟩
    refine ⟨sequences.map plan.closed, ?_, ?_⟩
    · rw [Except.mapM_eq_ok_iff, List.forall₂_map_right_iff]
      have hshort : ∀ inner ∈ sequences, inner.length ≤ plan.size - 1 := fun inner hinner =>
        hlength ▸ (List.sublist_flatten_of_mem hinner).length_le
      refine hleads.imp_of_mem fun i _ inner hinner hwalk => ?_
      exact tour_eq_ok_iff.2 ⟨inner, ⟨hwalk, hshort inner hinner⟩, rfl⟩
    · rw [visits_map_closed, if_pos hlength]

theorem tours_congr {driven' : ℕ → ℕ → Bool} (hdepot : plan.depot < plan.size)
    (hdriven : ∀ a ∈ plan.arcs, driven' a.1 a.2 = driven a.1 a.2) {tours : List (List ℕ)}
    (h : plan.tours driven = .ok tours) : plan.tours driven' = .ok tours := by
  obtain ⟨sequences, hwalks, hlength, rfl⟩ := tours_eq_ok_iff.1 h
  have hfirst : plan.firstStops driven' = plan.firstStops driven :=
    List.filter_congr fun j hj => hdriven (plan.depot, j) (mem_arcs_of_mem_others hdepot hj)
  refine tours_eq_ok_iff.2 ⟨sequences, ?_, hlength, rfl⟩
  rw [hfirst]
  refine hwalks.imp_of_mem fun i hi inner _ hwalk => hwalk.congr hdriven ?_
  exact (mem_customers.1 (List.mem_filter.1 hi).1).1

/-! ### What a walk serves -/

/-- A way out that is the only one is the way on. -/
theorem successor?_eq_of_unique {i j : ℕ} (hj : j ∈ plan.others i) (hdriven : driven i j = true)
    (hunique : ∀ k ∈ plan.others i, driven i k = true → k = j) :
    plan.successor? driven i = some j := by
  obtain ⟨k, hk⟩ := Option.isSome_iff_exists.1 (List.find?_isSome.2 ⟨j, hj, hdriven⟩)
  obtain ⟨hmem, hout⟩ := successor?_eq_some hk
  rwa [← hunique k hmem hout]

namespace Leads

theorem mem_customers {i : ℕ} {inner : List ℕ} (h : Leads plan driven i inner)
    (hi : i < plan.size) : ∀ c ∈ inner, c ∈ plan.customers :=
  (leads_iff_reaches.1 h).mem_customers hi

theorem unique {i : ℕ} {inner inner' : List ℕ} (h : Leads plan driven i inner)
    (h' : Leads plan driven i inner') : inner = inner' :=
  ((leads_iff_reaches.1 h).unique (.inl rfl) (leads_iff_reaches.1 h') (.inl rfl)).1

/-- **A walk serves no customer twice.** -/
theorem nodup {i : ℕ} {inner : List ℕ} (h : Leads plan driven i inner) : inner.Nodup :=
  (leads_iff_reaches.1 h).nodup (.inl rfl)

/-- A walk starts where it starts, also when that is the depot. -/
theorem append_depot {i : ℕ} {inner : List ℕ} (h : Leads plan driven i inner) :
    ∃ rest, inner ++ [plan.depot] = i :: rest := by
  cases h with
  | home => exact ⟨[], rfl⟩
  | step => exact ⟨_, rfl⟩

theorem eq_cons {i : ℕ} {inner : List ℕ} (h : Leads plan driven i inner) (hi : i ≠ plan.depot) :
    ∃ rest, inner = i :: rest := by
  cases h with
  | home => exact absurd rfl hi
  | step => exact ⟨_, rfl⟩

/-- **How often a walk serves a customer**: as often as it starts there or goes on there. -/
theorem count_eq {i : ℕ} {inner : List ℕ} (h : Leads plan driven i inner) {j : ℕ}
    (hj : j ≠ plan.depot) :
    inner.count j =
      (if i = j then 1 else 0) + inner.countP fun c => plan.successor? driven c = some j := by
  induction h with
  | home => rw [if_neg (Ne.symm hj), List.count_nil, List.countP_nil]
  | @step i next rest _ hnext _ ih =>
    have hnext' : (plan.successor? driven i = some j) = (next = j) := by
      rw [hnext, Option.some.injEq]
    rw [List.count_cons, List.countP_cons, ih, Nat.add_comm]
    simp only [hnext', beq_iff_eq, decide_eq_true_iff]
    omega

end Leads

/-- How often several walks serve a customer. -/
theorem count_flatten_eq {firsts : List ℕ} {sequences : List (List ℕ)}
    (h : List.Forall₂ (Leads plan driven) firsts sequences) {j : ℕ} (hj : j ≠ plan.depot) :
    sequences.flatten.count j =
      firsts.count j + sequences.flatten.countP fun c => plan.successor? driven c = some j := by
  induction h with
  | nil => rfl
  | cons hwalk _ ih =>
    rw [List.flatten_cons, List.count_append, List.countP_append, List.count_cons, ih,
      hwalk.count_eq hj]
    simp only [beq_iff_eq]
    omega

/-! ### How long a walk is -/

/-- The legs of a way: its consecutive pairs of stops. -/
def legs (stops : List ℕ) : List (ℕ × ℕ) := stops.zip stops.tail

@[simp] theorem legs_cons_cons (i j : ℕ) (rest : List ℕ) :
    legs (i :: j :: rest) = (i, j) :: legs (j :: rest) := rfl

/-- What the legs of a way through `stops` add up to. -/
def alongLegs (w : ℕ → ℕ → ℚ) (stops : List ℕ) : ℚ :=
  ((legs stops).map fun leg => w leg.1 leg.2).sum

@[simp] theorem alongLegs_cons_cons (w : ℕ → ℕ → ℚ) (i j : ℕ) (rest : List ℕ) :
    alongLegs w (i :: j :: rest) = w i j + alongLegs w (j :: rest) := by
  rw [alongLegs, legs_cons_cons, List.map_cons, List.sum_cons, alongLegs]

/-- Whether adding the numbers to `sum`, one after the other, rounds nothing. -/
def AddsExactly : Float → List Float → Prop
  | _, [] => True
  | sum, x :: rest =>
    Binary64.value (sum + x) = Binary64.value sum + Binary64.value x ∧ AddsExactly (sum + x) rest

theorem value_foldl_add {sum : Float} {numbers : List Float} (h : AddsExactly sum numbers) :
    Binary64.value (numbers.foldl (fun sum x => sum + x) sum) =
      Binary64.value sum + (numbers.map Binary64.value).sum := by
  induction numbers generalizing sum with
  | nil => simp
  | cons x rest ih =>
    obtain ⟨hx, hrest⟩ := h
    rw [List.foldl_cons, ih hrest, hx, List.map_cons, List.sum_cons, add_assoc]

/-- Whether the length of a way is added up without rounding. -/
def LengthIsExact (plan : Plan) (stops : List ℕ) : Prop :=
  AddsExactly (-0.0) ((legs stops).map fun leg => plan.distance leg.1 leg.2)

/-- A length that is not rounded is what the legs add up to. -/
theorem value_length {stops : List ℕ} (h : plan.LengthIsExact stops) :
    Binary64.value (plan.length stops) = alongLegs plan.way stops := by
  have hzero : Binary64.value (-0.0) = 0 := by decide +kernel
  have hsum := value_foldl_add h
  rw [List.foldl_map, hzero, zero_add, List.map_map] at hsum
  exact hsum

/-- The legs of a walk are those from its customers to where they go on. -/
theorem Leads.alongLegs_eq {i : ℕ} {inner : List ℕ} (h : Leads plan driven i inner)
    (w : ℕ → ℕ → ℚ) :
    alongLegs w (inner ++ [plan.depot]) =
      (inner.map fun c => w c ((plan.successor? driven c).getD plan.depot)).sum := by
  induction h with
  | home => rfl
  | @step i next rest _ hnext hrest ih =>
    obtain ⟨more, hmore⟩ := hrest.append_depot
    rw [List.cons_append, hmore, alongLegs_cons_cons, ← hmore, ih, List.map_cons, List.sum_cons,
      hnext, Option.getD_some]

theorem Leads.alongLegs_closed {i : ℕ} {inner : List ℕ} (h : Leads plan driven i inner)
    (w : ℕ → ℕ → ℚ) :
    alongLegs w (plan.closed inner) = w plan.depot i +
      (inner.map fun c => w c ((plan.successor? driven c).getD plan.depot)).sum := by
  obtain ⟨more, hmore⟩ := h.append_depot
  rw [closed, hmore, alongLegs_cons_cons, ← hmore, h.alongLegs_eq]

end OptModel.Plan
