import OptModel.Proofs.Binary64.Sums
import OptModel.Proofs.Except
import OptModel.Routing.Plan
import Mathlib.Data.List.Basic

/-!
# Accepted payloads

What is known of a plan because its model was accepted: there is a vehicle, the depot is one of the
locations, and the table of distances is square. No distance is negative. Those of a matrix have
been checked to be finite as well; the straight ones have not, and two coordinates that are far
enough apart have an infinite difference.

## Main definitions

* `Plan.cell?` — the table looked up without leaving it

## Main results

* `Plan.distancesOf_eq_ok_iff`, `Plan.ofModel_eq_ok_iff` — which models are accepted, and as what
* `Plan.cell?_eq_some` — the table of an accepted model has an entry for every two locations
* `Plan.not_lt_zero_of_ofModel` — and none is negative
-/

namespace OptModel.Plan

/-! ### The checks -/

theorem rowFlaw?_eq_none_iff {n position : ℕ} {row : List Float} :
    rowFlaw? n position row = none ↔ row.length = n ∧ ∀ x ∈ row, isDistance x = true := by
  rw [rowFlaw?]
  split
  · next hlength => exact ⟨nofun, fun h => absurd h.1 hlength⟩
  · next hlength =>
    rw [Option.map_eq_none_iff, List.find?_eq_none]
    simp [not_not.1 hlength]

theorem matrixFlaw?_eq_none_iff {matrix : List (List Float)} :
    matrixFlaw? matrix = none ↔
      ∀ row ∈ matrix, row.length = matrix.length ∧ ∀ x ∈ row, isDistance x = true := by
  rw [matrixFlaw?, List.findSome?_eq_none_iff]
  simp only [rowFlaw?_eq_none_iff]
  constructor
  · intro h row hrow
    obtain ⟨i, hi⟩ := List.mem_iff_getElem?.1 hrow
    exact h (row, i) (List.mem_zipIdx_iff_getElem?.2 hi)
  · intro h entry hentry
    exact h entry.1 (List.fst_mem_of_mem_zipIdx hentry)

/-- A matrix is taken once it has been checked. -/
theorem distancesOf_matrix_eq_ok_iff {model : Model Float} {matrix table : List (List Float)}
    (h : model.distances = some matrix) :
    distancesOf model = .ok table ↔
      matrix = table ∧ (model.locations = [] ∨ model.locations.length = matrix.length) ∧
        ∀ row ∈ matrix, row.length = matrix.length ∧ ∀ x ∈ row, isDistance x = true := by
  have hcount : (!model.locations.isEmpty && model.locations.length != matrix.length) = true ↔
      ¬ (model.locations = [] ∨ model.locations.length = matrix.length) := by simp
  rw [distancesOf_of_some h, ← matrixFlaw?_eq_none_iff]
  split
  · next hdiffers =>
    refine ⟨nofun, ?_⟩
    rintro ⟨-, hlocations, -⟩
    exact absurd hlocations (hcount.1 hdiffers)
  · next hagrees =>
    cases matrixFlaw? matrix with
    | some flaw =>
      refine ⟨nofun, ?_⟩
      rintro ⟨-, -, hnone⟩
      cases hnone
    | none =>
      constructor
      · intro hok
        exact ⟨Except.ok.inj hok, not_not.1 (mt hcount.2 hagrees), rfl⟩
      · rintro ⟨rfl, -⟩
        rfl

/-- **The distances of a model** are a checked matrix, or else the straight ones. -/
theorem distancesOf_eq_ok_iff {model : Model Float} {table : List (List Float)} :
    distancesOf model = .ok table ↔
      (model.distances = none ∧ table = straight model.locations) ∨
        model.distances = some table ∧
          (model.locations = [] ∨ model.locations.length = table.length) ∧
          ∀ row ∈ table, row.length = table.length ∧ ∀ x ∈ row, isDistance x = true := by
  cases hmatrix : model.distances with
  | none =>
    rw [distancesOf_of_none hmatrix]
    constructor
    · intro h
      exact .inl ⟨rfl, (Except.ok.inj h).symm⟩
    · rintro (⟨-, rfl⟩ | ⟨hsome, -⟩)
      · rfl
      · cases hsome
  | some matrix =>
    rw [distancesOf_matrix_eq_ok_iff hmatrix]
    constructor
    · rintro ⟨rfl, hchecked⟩
      exact .inr ⟨rfl, hchecked⟩
    · rintro (⟨hnone, -⟩ | ⟨hsome, hchecked⟩)
      · cases hnone
      · obtain rfl := Option.some.inj hsome
        exact ⟨rfl, hchecked⟩

variable {model : Model Float} {plan : Plan}

/-- **The plan of a model**: it has a vehicle, and a depot among its locations. -/
theorem ofModel_eq_ok_iff :
    ofModel model = .ok plan ↔
      ∃ vehicles depot, model.vehicles = some vehicles ∧ model.depot = some depot ∧
        vehicles ≠ 0 ∧ distancesOf model = .ok plan.distances ∧ plan.depot < plan.size ∧
        plan.vehicles = vehicles.toNat ∧ plan.depot = depot.toNat := by
  cases hvehicles : model.vehicles with
  | none => simp [ofModel, hvehicles]
  | some vehicles =>
    cases hdepot : model.depot with
    | none => simp [ofModel, hvehicles, hdepot]
    | some depot =>
      rw [ofModel_of_some hvehicles hdepot]
      split
      · next hnone => simp [hnone]
      · next hsome =>
        rw [Except.bind_eq_ok_iff]
        constructor
        · rintro ⟨distances, hdistances, h⟩
          split at h
          · cases h
          · split at h
            · cases h
            · next hinside =>
              obtain rfl := Except.ok.inj h
              exact ⟨vehicles, depot, rfl, rfl, hsome, hdistances, not_le.1 hinside, rfl, rfl⟩
        · rintro ⟨_, _, ⟨⟩, ⟨⟩, -, hdistances, hinside, hv, hd⟩
          refine ⟨plan.distances, hdistances, ?_⟩
          rw [size, hd] at hinside
          have hne : ¬ plan.distances.isEmpty = true := by
            rw [List.isEmpty_iff_length_eq_zero]
            omega
          rw [if_neg hne, if_neg (not_le.2 hinside), ← hv, ← hd]

theorem depot_lt_of_ofModel (h : ofModel model = .ok plan) : plan.depot < plan.size := by
  obtain ⟨_, _, -, -, -, -, hdepot, -⟩ := ofModel_eq_ok_iff.1 h
  exact hdepot

theorem distances_of_ofModel (h : ofModel model = .ok plan) :
    distancesOf model = .ok plan.distances := by
  obtain ⟨_, _, -, -, -, hdistances, -⟩ := ofModel_eq_ok_iff.1 h
  exact hdistances

/-! ### The table -/

/-- The table is square. -/
theorem square_of_ofModel (h : ofModel model = .ok plan) :
    ∀ row ∈ plan.distances, row.length = plan.size := by
  rcases distancesOf_eq_ok_iff.1 (distances_of_ofModel h) with ⟨-, htable⟩ | ⟨-, -, hrows⟩
  · rw [size, htable, straight, List.forall_mem_map]
    intro a _
    rw [List.length_map, List.length_map]
  · exact fun row hrow => (hrows row hrow).1

/-- The entry of the table at `i` and `j`, if the table has one. -/
def cell? (plan : Plan) (i j : ℕ) : Option Float := plan.distances[i]?.bind (·[j]?)

theorem distance_of_cell? {i j : ℕ} {x : Float} (h : plan.cell? i j = some x) :
    plan.distance i j = x := by
  obtain ⟨row, hrow, hx⟩ := Option.bind_eq_some_iff.1 h
  rw [distance, List.getD_eq_getElem?_getD, List.getD_eq_getElem?_getD, hrow, Option.getD_some, hx,
    Option.getD_some]

/-- **A square table has an entry for every two locations.** -/
theorem cell?_eq_some (hsquare : ∀ row ∈ plan.distances, row.length = plan.size) {i j : ℕ}
    (hi : i < plan.size) (hj : j < plan.size) :
    plan.cell? i j = some (plan.distance i j) := by
  obtain ⟨row, hrow⟩ : ∃ row, plan.distances[i]? = some row := ⟨_, List.getElem?_eq_getElem hi⟩
  have hlength := hsquare row (List.mem_of_getElem? hrow)
  obtain ⟨x, hx⟩ : ∃ x, row[j]? = some x := ⟨_, List.getElem?_eq_getElem (hj.trans_eq hlength.symm)⟩
  have hcell : plan.cell? i j = some x := by rw [cell?, hrow, Option.bind_some, hx]
  rw [distance_of_cell? hcell]
  exact hcell

theorem mem_of_cell? {i j : ℕ} {x : Float} (h : plan.cell? i j = some x) :
    ∃ row ∈ plan.distances, x ∈ row := by
  obtain ⟨row, hrow, hx⟩ := Option.bind_eq_some_iff.1 h
  exact ⟨row, List.mem_of_getElem? hrow, List.mem_of_getElem? hx⟩

/-! ### No distance is negative -/

theorem not_lt_zero_of_isDistance {x : Float} (h : isDistance x = true) : ¬ x < 0.0 := by
  rw [isDistance, Bool.and_eq_true, Bool.not_eq_true', decide_eq_false_iff_not] at h
  exact h.2

theorem isFinite_of_isDistance {x : Float} (h : isDistance x = true) : x.isFinite := by
  rw [isDistance, Bool.and_eq_true] at h
  exact h.1

/-- A straight distance is infinite, or a NaN, or a magnitude. -/
theorem not_hypot_lt_zero (a b : Float) : ¬ Binary64.hypot a b < 0.0 := by
  rw [Binary64.hypot]
  split
  · decide
  · split
    · next hnan =>
      exact Binary64.not_lt_of_isNaN (Binary64.isNaN_add_of_isNaN (by simpa using hnan))
    · split
      · exact Binary64.not_abs_lt_zero _
      · exact Binary64.not_abs_lt_zero _

/-- **No distance of an accepted model is negative.** -/
theorem not_lt_zero_of_ofModel (h : ofModel model = .ok plan) :
    ∀ row ∈ plan.distances, ∀ x ∈ row, ¬ x < 0.0 := by
  rcases distancesOf_eq_ok_iff.1 (distances_of_ofModel h) with ⟨-, htable⟩ | ⟨-, -, hrows⟩
  · rw [htable, straight, List.forall_mem_map]
    intro a _
    rw [List.forall_mem_map]
    exact fun b _ => not_hypot_lt_zero _ _
  · exact fun row hrow x hx => not_lt_zero_of_isDistance ((hrows row hrow).2 x hx)

/-- The distances of an accepted matrix are finite. -/
theorem isFinite_of_ofModel (h : ofModel model = .ok plan) {matrix : List (List Float)}
    (hmatrix : model.distances = some matrix) : ∀ row ∈ plan.distances, ∀ x ∈ row, x.isFinite := by
  rcases distancesOf_eq_ok_iff.1 (distances_of_ofModel h) with ⟨hnone, -⟩ | ⟨-, -, hrows⟩
  · rw [hmatrix] at hnone
    cases hnone
  · exact fun row hrow x hx => isFinite_of_isDistance ((hrows row hrow).2 x hx)

end OptModel.Plan
