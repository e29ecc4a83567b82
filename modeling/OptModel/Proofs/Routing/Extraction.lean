import OptModel.Proofs.Routing.Cover

/-!
# How routes are read off

Routes are read off any values whatsoever: names may be missing, values may be NaN or fractions, and
the arcs that are driven need not have anything to do with a solution. Then from a customer one of
three things happens. The walk comes home, or it gets stuck at a customer that nothing is driven
from, or it goes on forever. A walk that ends passes no customer twice, so it ends within as many
steps as there are customers, and the budget of the walk cuts off nothing but what never ends.

There are routes when the walks from all customers that the depot drives to come home, and together
make as many visits as there are customers. Otherwise the first walk that does not come home is
reported, or else the number of visits.

## Main definitions

* `Plan.Misses` — why a walk does not come home
* `Plan.Refuses` — why there are no routes

## Main results

* `Plan.exists_reaches` — a walk ends, or goes on for another step
* `Plan.leads_or_misses` — the three ways of a walk
* `Plan.tour_eq_error_iff`, `Plan.tours_eq_error_iff` — when there are no tours
* `Plan.routes_walks` — which routes are read off
-/

namespace OptModel.Plan

/-- Why the walk from `i` does not come home: it gets stuck at a customer, or it makes any number of
steps. -/
inductive Misses (plan : Plan) (driven : ℕ → ℕ → Bool) (i : ℕ) : TourFault → Prop where
  | stopsAt {k : ℕ} {inner : List ℕ} (h : Reaches plan driven k i inner) (hk : k ≠ plan.depot)
    (hend : plan.successor? driven k = none) : Misses plan driven i (.stopsAt k)
  | neverReturns (h : ∀ steps, ∃ inner k, Reaches plan driven k i inner ∧ inner.length = steps) :
    Misses plan driven i .neverReturns

/-- Why there are no tours: the first walk that does not come home, or else the number of visits
that all walks make. -/
inductive Refuses (plan : Plan) (driven : ℕ → ℕ → Bool) : TourFault → Prop where
  | walk {before behind : List ℕ} {c : ℕ} {fault : TourFault}
    (hfirst : plan.firstStops driven = before ++ c :: behind)
    (hbefore : ∀ b ∈ before, ∃ inner, Leads plan driven b inner)
    (hmisses : Misses plan driven c fault) : Refuses plan driven fault
  | visitCount {sequences : List (List ℕ)}
    (hwalks : List.Forall₂ (Leads plan driven) (plan.firstStops driven) sequences)
    (hcount : sequences.flatten.length ≠ plan.size - 1) :
    Refuses plan driven (.visitCount sequences.flatten.length (plan.size - 1))

variable {plan : Plan} {driven : ℕ → ℕ → Bool} {i k : ℕ} {inner : List ℕ}

/-- **A walk goes on to the lowest location that is driven to.** -/
theorem successor?_eq_some_iff {j : ℕ} :
    plan.successor? driven i = some j ↔
      (j < plan.size ∧ j ≠ i ∧ driven i j = true) ∧
        ∀ m, m < plan.size → m ≠ i → driven i m = true → j ≤ m := by
  have hlowest {j : ℕ} (h : plan.successor? driven i = some j) :
      ∀ m, m < plan.size → m ≠ i → driven i m = true → j ≤ m := by
    intro m hm hne hout
    obtain ⟨-, before, behind, hothers, hbefore⟩ := List.find?_eq_some_iff_append.1 h
    have hsorted : (plan.others i).Pairwise (· < ·) := List.pairwise_lt_range.filter _
    rw [hothers, List.pairwise_append, List.pairwise_cons] at hsorted
    have hmem : m ∈ before ++ j :: behind := hothers ▸ mem_others.2 ⟨hm, hne⟩
    rcases List.mem_append.1 hmem with hearly | hlate
    · exact absurd hout (by simpa using hbefore m hearly)
    · rcases List.mem_cons.1 hlate with rfl | hlate
      · exact le_refl m
      · exact (hsorted.2.1.1 m hlate).le
  constructor
  · intro h
    obtain ⟨hj, hdriven⟩ := successor?_eq_some h
    exact ⟨⟨(mem_others.1 hj).1, (mem_others.1 hj).2, hdriven⟩, hlowest h⟩
  · rintro ⟨⟨hj, hne, hdriven⟩, hle⟩
    obtain ⟨m, hm⟩ := Option.isSome_iff_exists.1
      (List.find?_isSome.2 ⟨j, mem_others.2 ⟨hj, hne⟩, hdriven⟩)
    obtain ⟨hmem, hout⟩ := successor?_eq_some hm
    have hmj := hlowest hm j hj hne hdriven
    have hjm := hle m (mem_others.1 hmem).1 (mem_others.1 hmem).2 hout
    rwa [le_antisymm hmj hjm] at hm

/-! ### The ways of a walk -/

/-- **A walk ends within some steps, or goes on for another one.** -/
theorem exists_reaches (plan : Plan) (driven : ℕ → ℕ → Bool) (i steps : ℕ) :
    (∃ inner k, Reaches plan driven k i inner ∧ plan.Halts driven k ∧ inner.length ≤ steps) ∨
      ∃ inner k, Reaches plan driven k i inner ∧ inner.length = steps + 1 := by
  have hstep {inner : List ℕ} {k : ℕ} (h : Reaches plan driven k i inner) :
      plan.Halts driven k ∨
        ∃ inner' j, Reaches plan driven j i inner' ∧ inner'.length = inner.length + 1 := by
    by_cases hk : k = plan.depot
    · exact .inl (.inl hk)
    · cases hnext : plan.successor? driven k with
      | none => exact .inl (.inr hnext)
      | some j => exact .inr ⟨inner ++ [k], j, h.extend hk hnext, by simp⟩
  induction steps with
  | zero =>
    rcases hstep .here with hhalts | hmore
    · exact .inl ⟨[], i, .here, hhalts, le_refl 0⟩
    · exact .inr hmore
  | succ steps ih =>
    rcases ih with ⟨inner, k, h, hhalts, hlength⟩ | ⟨inner, k, h, hlength⟩
    · exact .inl ⟨inner, k, h, hhalts, hlength.trans (Nat.le_succ _)⟩
    · rcases hstep h with hhalts | ⟨inner', j, h', hlength'⟩
      · exact .inl ⟨inner, k, h, hhalts, hlength.le⟩
      · exact .inr ⟨inner', j, h', hlength'.trans (congrArg (· + 1) hlength)⟩

/-- **A walk that ends makes no more steps than there are customers.** -/
theorem Reaches.length_le (h : Reaches plan driven k i inner) (hk : plan.Halts driven k)
    (hi : i < plan.size) (hdepot : plan.depot < plan.size) : inner.length ≤ plan.size - 1 := by
  rw [← length_customers hdepot]
  exact ((h.nodup hk).subperm (h.mem_customers hi)).length_le

/-- **From a customer a walk comes home, gets stuck, or goes on forever.** -/
theorem leads_or_misses (plan : Plan) (driven : ℕ → ℕ → Bool) (i : ℕ) :
    (∃ inner, Leads plan driven i inner) ∨ ∃ fault, Misses plan driven i fault := by
  by_cases hends : ∃ inner k, Reaches plan driven k i inner ∧ plan.Halts driven k
  · obtain ⟨inner, k, h, hhalts⟩ := hends
    by_cases hk : k = plan.depot
    · exact .inl ⟨inner, leads_iff_reaches.2 (hk ▸ h)⟩
    · exact .inr ⟨_, .stopsAt h hk (hhalts.resolve_left hk)⟩
  · refine .inr ⟨_, .neverReturns fun steps => ?_⟩
    cases steps with
    | zero => exact ⟨[], i, .here, rfl⟩
    | succ steps =>
      rcases exists_reaches plan driven i steps with ⟨inner, k, h, hhalts, -⟩ | hmore
      · exact absurd ⟨inner, k, h, hhalts⟩ hends
      · exact hmore

/-! ### What is found of each -/

theorem follow_of_stuck (h : Reaches plan driven k i inner) (hk : k ≠ plan.depot)
    (hend : plan.successor? driven k = none) {budget : ℕ} (hbudget : inner.length ≤ budget) :
    follow plan driven budget i = .error (.stopsAt k) := by
  induction h generalizing budget with
  | here => exact follow_of_none hk hend budget
  | step hi hnext _ ih =>
    cases budget with
    | zero => exact absurd hbudget (Nat.not_succ_le_zero _)
    | succ budget =>
      rw [follow_of_some hi hnext]
      exact Except.map_eq_error_iff.2 (ih (Nat.le_of_succ_le_succ hbudget))

theorem follow_of_long (h : Reaches plan driven k i inner) {budget : ℕ}
    (hbudget : inner.length = budget + 1) :
    follow plan driven budget i = .error .neverReturns := by
  induction h generalizing budget with
  | here => exact absurd hbudget (Nat.succ_ne_zero budget).symm
  | step hi hnext _ ih =>
    cases budget with
    | zero => rw [follow, if_neg hi, hnext]
    | succ budget =>
      rw [follow_of_some hi hnext]
      exact Except.map_eq_error_iff.2 (ih (Nat.succ.inj hbudget))

/-- **A walk that comes home is found**, whatever the number of its customers. -/
theorem tour_of_leads (h : Leads plan driven i inner) (hi : i < plan.size)
    (hdepot : plan.depot < plan.size) : plan.tour driven i = .ok (plan.closed inner) :=
  tour_eq_ok_iff.2 ⟨inner, ⟨h, (leads_iff_reaches.1 h).length_le (.inl rfl) hi hdepot⟩, rfl⟩

theorem tour_of_misses {fault : TourFault} (h : Misses plan driven i fault) (hi : i < plan.size)
    (hdepot : plan.depot < plan.size) : plan.tour driven i = .error fault := by
  rw [tour, Except.map_eq_error_iff]
  cases h with
  | stopsAt h hk hend => exact follow_of_stuck h hk hend (h.length_le (.inr hend) hi hdepot)
  | neverReturns h =>
    obtain ⟨inner, k, hreaches, hlength⟩ := h (plan.size - 1 + 1)
    exact follow_of_long hreaches hlength

/-- **A walk is reported just when it does not come home**, and as what it does instead. -/
theorem tour_eq_error_iff {fault : TourFault} (hi : i < plan.size)
    (hdepot : plan.depot < plan.size) :
    plan.tour driven i = .error fault ↔ Misses plan driven i fault := by
  constructor
  · intro h
    rcases leads_or_misses plan driven i with ⟨inner, hleads⟩ | ⟨fault', hmisses⟩
    · rw [tour_of_leads hleads hi hdepot] at h
      cases h
    · rw [tour_of_misses hmisses hi hdepot] at h
      rwa [← Except.error.inj h]
  · exact fun h => tour_of_misses h hi hdepot

theorem lt_size_of_mem_firstStops {c : ℕ} (h : c ∈ plan.firstStops driven) : c < plan.size :=
  (mem_customers.1 (MakesRounds.mem_firstStops.1 h).1).1

/-- The walks from the first stops are found when they all come home. -/
theorem mapM_tour_eq_ok_iff {tours : List (List ℕ)} (hdepot : plan.depot < plan.size) :
    (plan.firstStops driven).mapM (plan.tour driven) = .ok tours ↔
      ∃ sequences, List.Forall₂ (Leads plan driven) (plan.firstStops driven) sequences ∧
        tours = sequences.map plan.closed := by
  rw [Except.mapM_eq_ok_iff]
  constructor
  · intro h
    obtain ⟨sequences, hwalks, rfl⟩ :=
      List.forall₂_exists_map_iff.1 (h.imp fun _ _ htour => tour_eq_ok_iff.1 htour)
    exact ⟨sequences, hwalks.imp fun _ _ hwalk => hwalk.1, rfl⟩
  · rintro ⟨sequences, hwalks, rfl⟩
    rw [List.forall₂_map_right_iff]
    refine hwalks.imp_of_mem fun c hc inner _ hleads => ?_
    exact tour_of_leads hleads (lt_size_of_mem_firstStops hc) hdepot

/-- **When there are no tours**: a walk does not come home, or the visits are too few or too many.
-/
theorem tours_eq_error_iff {fault : TourFault} (hdepot : plan.depot < plan.size) :
    plan.tours driven = .error fault ↔ Refuses plan driven fault := by
  rw [tours, Except.bind_eq_error_iff, Except.mapM_eq_error_iff]
  constructor
  · rintro (⟨before, c, behind, hfirst, hbefore, hc⟩ | ⟨tours, htours, hvisits⟩)
    · have hmem : c ∈ plan.firstStops driven := hfirst ▸ List.mem_append_right _ List.mem_cons_self
      refine .walk hfirst (fun b hb => ?_)
        ((tour_eq_error_iff (lt_size_of_mem_firstStops hmem) hdepot).1 hc)
      obtain ⟨stops, hstops⟩ := hbefore b hb
      obtain ⟨inner, ⟨hleads, -⟩, -⟩ := tour_eq_ok_iff.1 hstops
      exact ⟨inner, hleads⟩
    · obtain ⟨sequences, hwalks, rfl⟩ := (mapM_tour_eq_ok_iff hdepot).1 htours
      rw [visits_map_closed] at hvisits
      split at hvisits
      · cases hvisits
      · next hcount =>
        rw [← Except.error.inj hvisits]
        exact .visitCount hwalks hcount
  · intro h
    cases h with
    | @walk before behind c _ hfirst hbefore hmisses =>
      have hlt {b : ℕ} (hb : b ∈ before ++ c :: behind) : b < plan.size :=
        lt_size_of_mem_firstStops (hfirst ▸ hb)
      refine .inl ⟨before, c, behind, hfirst, fun b hb => ?_, ?_⟩
      · obtain ⟨inner, hleads⟩ := hbefore b hb
        exact ⟨_, tour_of_leads hleads (hlt (List.mem_append_left _ hb)) hdepot⟩
      · exact tour_of_misses hmisses (hlt (List.mem_append_right _ List.mem_cons_self)) hdepot
    | @visitCount sequences hwalks hcount =>
      refine .inr ⟨_, (mapM_tour_eq_ok_iff hdepot).2 ⟨sequences, hwalks, rfl⟩, ?_⟩
      rw [visits_map_closed, if_neg hcount]

/-! ### What routes say -/

theorem mem_of_mem_legs {leg : ℕ × ℕ} {stops : List ℕ} (h : leg ∈ legs stops) :
    leg.1 ∈ stops ∧ leg.2 ∈ stops :=
  ⟨(List.of_mem_zip h).1, List.mem_of_mem_tail (List.of_mem_zip h).2⟩

/-- A walk from a location stays within the table. -/
theorem Leads.lt_size (h : Leads plan driven i inner) (hi : i < plan.size)
    (hdepot : plan.depot < plan.size) : ∀ x ∈ plan.closed inner, x < plan.size := by
  intro x hx
  rcases List.mem_cons.1 hx with rfl | hx
  · exact hdepot
  · rcases List.mem_append.1 hx with hx | hx
    · exact (Plan.mem_customers.1 (h.mem_customers hi x hx)).1
    · rwa [List.mem_singleton.1 hx]

/-- **Routes are the walks home.** They are read off any values of a plan that was accepted, and
nothing else is asked of the values: an arc is driven when it has a value above one half.

From a customer a walk goes on to the lowest location that is driven to, and walks start at the
customers that the depot drives to, in order. A walk that comes home serves different customers, so
it has no more stops than there are locations and one, and none is cut off for being longer. Every
tour that is found has two ends, and the table has an entry for each of its legs.

There are routes exactly when all walks come home and make as many visits as there are customers,
and these are the routes, one for each walk and in their order: the vehicles are numbered from zero,
and a route has the stops of its walk and the distance of the legs between them, added up in order.
What happens otherwise is an engine failure that says what is wrong. -/
theorem routes_walks {model : Model Float} (hplan : ofModel model = .ok plan)
    (values : Assignment) :
    (∀ i j, plan.successor? (drives values) i = some j ↔
      (j < plan.size ∧ j ≠ i ∧ drives values i j = true) ∧
        ∀ m, m < plan.size → m ≠ i → drives values i m = true → j ≤ m) ∧
    (plan.firstStops (drives values)).Pairwise (· < ·) ∧
    (∀ c, c ∈ plan.firstStops (drives values) ↔
      c ∈ plan.customers ∧ drives values plan.depot c = true) ∧
    (∀ c ∈ plan.firstStops (drives values), ∀ inner, Leads plan (drives values) c inner →
      plan.tour (drives values) c = .ok (plan.closed inner) ∧ inner.Nodup ∧
        (∀ x ∈ inner, x ∈ plan.customers) ∧ (plan.closed inner).length ≤ plan.size + 1) ∧
    0 < plan.size ∧
    (∀ c ∈ plan.firstStops (drives values), ∀ stops, plan.tour (drives values) c = .ok stops →
      2 ≤ stops.length ∧
        ∀ leg ∈ legs stops, plan.cell? leg.1 leg.2 = some (plan.distance leg.1 leg.2)) ∧
    (∀ routes, plan.routes values = .ok routes ↔
      ∃ sequences : List (List ℕ),
        List.Forall₂ (Leads plan (drives values)) (plan.firstStops (drives values)) sequences ∧
          sequences.flatten.length = plan.size - 1 ∧
          routes = plan.routesOf (sequences.map plan.closed)) ∧
    (plan.size ≤ UInt64.size → ∀ sequences : List (List ℕ),
      List.Forall₂ (Leads plan (drives values)) (plan.firstStops (drives values)) sequences →
        plan.RoutesAlong sequences (plan.routesOf (sequences.map plan.closed))) ∧
    ∀ fault, plan.routes values = .error fault ↔ Refuses plan (drives values) fault := by
  have hdepot := depot_lt_of_ofModel hplan
  refine ⟨fun i j => successor?_eq_some_iff, pairwise_firstStops _,
    fun c => MakesRounds.mem_firstStops, fun c hc inner hleads => ?_, by omega,
    fun c hc stops htour => ?_, fun routes => ?_, fun hsize sequences hwalks => ?_, fun fault => ?_⟩
  · have hlt := lt_size_of_mem_firstStops hc
    have hlength := (leads_iff_reaches.1 hleads).length_le (.inl rfl) hlt hdepot
    refine ⟨tour_of_leads hleads hlt hdepot, hleads.nodup, hleads.mem_customers hlt, ?_⟩
    simp only [closed, List.length_cons, List.length_append, List.length_nil]
    omega
  · obtain ⟨inner, ⟨hleads, -⟩, rfl⟩ := tour_eq_ok_iff.1 htour
    have hlt := hleads.lt_size (lt_size_of_mem_firstStops hc) hdepot
    refine ⟨by simp [closed], fun leg hleg => ?_⟩
    obtain ⟨hfrom, hto⟩ := mem_of_mem_legs hleg
    exact cell?_eq_some (square_of_ofModel hplan) (hlt _ hfrom) (hlt _ hto)
  · rw [routes_eq_ok_iff]
    constructor
    · rintro ⟨tours, htours, rfl⟩
      obtain ⟨sequences, hwalks, hcount, rfl⟩ := tours_eq_ok_iff.1 htours
      exact ⟨sequences, hwalks, hcount, rfl⟩
    · rintro ⟨sequences, hwalks, hcount, rfl⟩
      exact ⟨_, tours_eq_ok_iff.2 ⟨sequences, hwalks, hcount, rfl⟩, rfl⟩
  · refine routesAlong_routesOf hdepot hsize ?_ fun inner hinner x hx => ?_
    · -- there is a vehicle for each first stop, and first stops are customers
      rw [← hwalks.length_eq]
      have hfew : (plan.firstStops (drives values)).length ≤ plan.customers.length :=
        List.length_filter_le _ _
      rw [length_customers hdepot] at hfew
      omega
    · obtain ⟨c, hc, hleads⟩ := hwalks.exists_of_mem_right hinner
      exact (Plan.mem_customers.1
        (hleads.mem_customers (lt_size_of_mem_firstStops hc) x hx)).1
  · rw [Plan.routes, Except.map_eq_error_iff, tours_eq_error_iff hdepot]

theorem routes_walks_square :
    ofModel square = .ok squarePlan ∧
      squarePlan.routes aroundSquare = .ok [⟨0, [0, 1, 2, 3, 0], 4.0⟩] ∧
      ∃ sequences : List (List ℕ),
        List.Forall₂ (Leads squarePlan (drives aroundSquare))
            (squarePlan.firstStops (drives aroundSquare)) sequences ∧
          sequences.flatten.length = 3 ∧
          [⟨0, [0, 1, 2, 3, 0], 4.0⟩] = squarePlan.routesOf (sequences.map squarePlan.closed) := by
  obtain ⟨-, -, -, -, -, -, hroutes, -⟩ := routes_walks ofModel_square aroundSquare
  exact ⟨ofModel_square, rfl, (hroutes _).1 rfl⟩

end OptModel.Plan
