import OptModel.Proofs.Family.Bounds
import OptModel.Proofs.Routing.Compiled

/-!
# The inequalities that are read

A compiled plan is text. Its compiler writes names, literals and signs, and whoever builds the model
looks the names up again, each in its own way. What is read in the end does not depend on how: every
variable of the plan has a name of its own that an expression can mention, so the coefficients come
out with the names they were written with, in the same order and as the same doubles.

Nothing is asked of the vehicles and little of the distances here: the rows are read as they were
written whatever the distances are, and the objective is when they are finite. A plan that has only
a depot is included; its texts are blank, and read as empty sums.

## Main definitions

* `Model.IsLookup` — handles for the variables of a model
* `Plan.inequalities` — the rows of a plan, by names
* `Plan.IsReadBy` — what rows and objective are read as

## Main results

* `Plan.isWellFormed_compile` — a compiled plan passes the checks
* `Plan.isReadBy_of_isLookup` — it is read as it was written
* `Plan.compile_yields` — variables, rows and objective of a compiled plan
-/

namespace OptModel

/-! ### Lookups -/

/-- Handles for the variables of a model: each name has one, and different names have different
ones. -/
structure Model.IsLookup {R H : Type} (model : Model R) (handle? : String → Option H) : Prop where
  declared : ∀ v ∈ model.vars, ∃ k, handle? v.name = some k
  distinct : ∀ v ∈ model.vars, ∀ w ∈ model.vars,
    handle? v.name = handle? w.name → v.name = w.name

/-- The columns of a model are handles for its variables. -/
theorem Family.isLookup_columnOf? {R : Type} (model : Model R) :
    model.IsLookup (columnOf? model) where
  declared v hv := exists_lastIndex? (List.mem_map_of_mem hv)
  distinct v hv w _ heq := by
    obtain ⟨i, hi⟩ := exists_lastIndex? (List.mem_map_of_mem (f := fun v => v.name) hv)
    have hw : lastIndex? w.name (model.vars.map (·.name)) = some i := heq.symm.trans hi
    exact Option.some.inj ((getElem?_of_lastIndex? hi).symm.trans (getElem?_of_lastIndex? hw))

namespace Plan

open Expression

variable {plan : Plan}

/-! ### The checks -/

theorem length_arcs : plan.arcs.length = plan.size * (plan.size - 1) := by
  have hrows : ∀ i ∈ List.range plan.size,
      ((plan.others i).map fun j => (i, j)).length = plan.size - 1 := by
    intro i hi
    rw [List.length_map, length_others (List.mem_range.1 hi)]
  rw [arcs, List.length_flatMap, List.map_congr_left hrows, List.map_const', List.sum_replicate_nat,
    List.length_range]

theorem two_le_size_of_mem_customers (hdepot : plan.depot < plan.size) {i : ℕ}
    (hi : i ∈ plan.customers) : 2 ≤ plan.size := by
  have := mem_customers.1 hi
  omega

/-- **A compiled plan passes the checks**, of a depot among its locations and numbers that doubles
can hold. -/
theorem isWellFormed_compile (hdepot : plan.depot < plan.size) (hsize : plan.size < 2 ^ 53)
    (hvehicles : plan.vehicles < 2 ^ 64) : plan.compile.isWellFormed = true := by
  refine Model.isWellFormed_iff.2 ⟨nodup_names_compile, forall_mem_compiledVariables.2 ⟨?_, ?_⟩,
    forall_mem_compiledRows.2 ⟨?_, ?_, ?_, ?_, ?_⟩⟩
  · intro a _
    exact ⟨Bool.eq_false_iff.2 (isTerm_name (isMentionable_arcName a.1 a.2)).notBlank, rfl⟩
  · intro i hi
    have htwo := two_le_size_of_mem_customers hdepot hi
    have hlast := toRat?_lastPlace (Nat.zero_lt_of_lt hdepot) hsize
    refine ⟨Bool.eq_false_iff.2 (isTerm_name (isMentionable_orderName i)).notBlank,
      Variable.boundFlaw?_eq_none_iff.2 ⟨⟨rfl, ?_⟩, fun _ => ?_⟩⟩
    · exact isNaN_of_isFinite (Binary64.isFinite_of_toRat? hlast)
    · show ¬ plan.lastPlace < 1.0
      have hcast : (2 : ℚ) ≤ plan.size := by exact_mod_cast htwo
      rw [Binary64.lt_iff_of_toRat? hlast Binary64.toRat?_one, not_lt]
      linarith
  · exact fun _ _ => (by decide : (1.0 : Float).isFinite)
  · exact fun _ _ => (by decide : (1.0 : Float).isFinite)
  · exact Binary64.isFinite_ofNat hvehicles
  · exact (by decide : (0.0 : Float).isFinite)
  · intro i hi j _ _
    exact Binary64.isFinite_of_toRat?
      (toRat?_orderBound (two_le_size_of_mem_customers hdepot hi) hsize)

/-! ### Reading -/

/-- A row over names. -/
structure NamedRow where
  terms : List (Float × String)
  sense : RowSense
  rhs : Float

/-- The rows of a plan: every customer is entered once and left once; no more departures than
vehicles, and as many returns; and the order along the arcs between customers. -/
def inequalities (plan : Plan) : List NamedRow :=
  (plan.customers.map fun j => ⟨(plan.others j).map fun i => (1.0, arcName i j), .equal, 1.0⟩) ++
    (plan.customers.map fun i => ⟨(plan.others i).map fun j => (1.0, arcName i j), .equal, 1.0⟩) ++
    [⟨plan.customers.map fun j => (1.0, arcName plan.depot j), .atMost,
        Binary64.ofNat plan.vehicles⟩,
      ⟨(plan.customers.map fun j => (1.0, arcName plan.depot j)) ++
          plan.customers.map fun i => (-1.0, arcName i plan.depot), .equal, 0.0⟩] ++
    plan.customers.flatMap fun i => (plan.customers.filter (· ≠ i)).map fun j =>
      ⟨[(1.0, orderName i), (-1.0, orderName j), (plan.lastPlace, arcName i j)], .atMost,
        plan.lastPlace - 1.0⟩

/-- What a row is read as, its names looked up in `handle?`. -/
def NamedRow.IsReadFrom {H : Type} [DecidableEq H] (handle? : String → Option H) (row : Row Float)
    (r : NamedRow) : Prop :=
  Yields handle? row.expression r.terms ∧ row.sense = r.sense ∧ row.rhs = r.rhs

/-- Rows and objective of a compiled plan are read as they were meant: the inequalities, and every
arc with its distance. -/
structure IsReadBy {H : Type} [DecidableEq H] (plan : Plan) (handle? : String → Option H) :
    Prop where
  rows : List.Forall₂ (NamedRow.IsReadFrom handle?) plan.compile.rows plan.inequalities
  objective : Yields handle? plan.compile.objective.expression
    (plan.arcs.map fun a => (plan.distance a.1 a.2, arcName a.1 a.2))

section Reading

variable {H : Type} [DecidableEq H] {handle? : String → Option H}

/-- What mentions variables of a plan is read by every lookup. -/
theorem Mentions.yields {text : String} {named : List (Float × String)} (h : plan.Mentions named)
    (hlookup : plan.compile.IsLookup handle?) (hwritten : IsWritten text named) :
    Yields handle? text named := by
  refine hwritten.yields (fun n hn => ?_) ?_
  · obtain ⟨v, hv, hname⟩ := List.mem_map.1 (h.declared n hn)
    exact hname ▸ hlookup.declared v hv
  · have hhandles : named.map (fun n => handle? n.2) = (named.map Prod.snd).map handle? := by
      rw [List.map_map]
      rfl
    rw [hhandles]
    refine h.nodup.map_on fun a ha b hb heq => ?_
    obtain ⟨n, hn, rfl⟩ := List.mem_map.1 ha
    obtain ⟨m, hm, rfl⟩ := List.mem_map.1 hb
    obtain ⟨v, hv, hvname⟩ := List.mem_map.1 (h.declared n hn)
    obtain ⟨w, hw, hwname⟩ := List.mem_map.1 (h.declared m hm)
    rw [← hvname, ← hwname] at heq ⊢
    exact hlookup.distinct v hv w hw heq

/-- **The rows are read as they were written**, whatever the distances are. -/
theorem isReadFrom_rows (hdepot : plan.depot < plan.size) (hlast : plan.lastPlace.isFinite)
    (hlookup : plan.compile.IsLookup handle?) :
    List.Forall₂ (NamedRow.IsReadFrom handle?) plan.compile.rows plan.inequalities := by
  show List.Forall₂ _ plan.compiledRows _
  rw [compiledRows, inequalities]
  refine List.rel_append (List.rel_append (List.rel_append ?_ ?_) ?_) ?_
  · exact List.forall₂_map_same fun j hj =>
      ⟨(mentions_enterRow hj).yields hlookup (isWritten_enterRow j), rfl, rfl⟩
  · exact List.forall₂_map_same fun i hi =>
      ⟨(mentions_leaveRow hi).yields hlookup (isWritten_leaveRow i), rfl, rfl⟩
  · exact .cons ⟨(mentions_fleetRow hdepot).yields hlookup isWritten_fleetRow, rfl, rfl⟩
      (.cons ⟨(mentions_balanceRow hdepot).yields hlookup isWritten_balanceRow, rfl, rfl⟩ .nil)
  · refine List.forall₂_flatMap_same fun i hi => List.forall₂_map_same fun j hj => ?_
    obtain ⟨hj, hne⟩ := List.mem_filter.1 hj
    exact ⟨(mentions_orderRow hi hj (of_decide_eq_true hne)).yields hlookup
      (isWritten_orderRow hlast i j), rfl, rfl⟩

/-- **A compiled plan is read as it was written**, if the distances between its locations are
finite. -/
theorem isReadBy_of_isLookup (hdepot : plan.depot < plan.size) (hlast : plan.lastPlace.isFinite)
    (hfinite : ∀ a ∈ plan.arcs, (plan.distance a.1 a.2).isFinite)
    (hlookup : plan.compile.IsLookup handle?) : plan.IsReadBy handle? where
  rows := isReadFrom_rows hdepot hlast hlookup
  objective := mentions_objective.yields hlookup (isWritten_objective hfinite)

end Reading

/-- **What a compiled plan says.** It passes the checks. Its variables are a binary for every arc
and a place for every customer, all with different names; its texts are read, by every lookup that
tells these names apart, as the inequalities and the distances of the arcs. The columns of the
variables are such a lookup. -/
theorem compile_yields (hdepot : plan.depot < plan.size) (hsize : plan.size < 2 ^ 53)
    (hvehicles : plan.vehicles < 2 ^ 64)
    (hsquare : ∀ row ∈ plan.distances, row.length = plan.size)
    (hfinite : ∀ row ∈ plan.distances, ∀ x ∈ row, x.isFinite) :
    plan.compile.isWellFormed = true ∧
      (plan.compile.vars =
          (plan.arcs.map fun a => { name := arcName a.1 a.2, kind := .binary }) ++
            plan.customers.map fun i =>
              { name := orderName i, lowerBound := some 1.0, upperBound := some plan.lastPlace }) ∧
      (plan.compile.vars.map (·.name)).Nodup ∧
      (plan.arcs.Nodup ∧ plan.arcs.length = plan.size * (plan.size - 1) ∧
        ∀ a, a ∈ plan.arcs ↔ a.1 < plan.size ∧ a.2 < plan.size ∧ a.2 ≠ a.1) ∧
      (plan.customers.Nodup ∧ plan.customers.length = plan.size - 1 ∧
        ∀ i, i ∈ plan.customers ↔ i < plan.size ∧ i ≠ plan.depot) ∧
      Binary64.toRat? plan.lastPlace = some ((plan.size : ℚ) - 1) ∧
      (2 ≤ plan.size →
        Binary64.toRat? (plan.lastPlace - 1.0) = some ((plan.size : ℚ) - 2)) ∧
      (∀ a ∈ plan.arcs, plan.cell? a.1 a.2 = some (plan.distance a.1 a.2)) ∧
      plan.compile.objective.sense = .minimize ∧
      (∀ (H : Type) [DecidableEq H] (handle? : String → Option H),
        plan.compile.IsLookup handle? → plan.IsReadBy handle?) ∧
      plan.compile.IsLookup (Family.columnOf? plan.compile) ∧
      ∀ k v, plan.compile.vars[k]? = some v → Family.columnOf? plan.compile v.name = some k := by
  have hcell : ∀ a ∈ plan.arcs, plan.cell? a.1 a.2 = some (plan.distance a.1 a.2) := by
    intro a ha
    obtain ⟨hi, hj, -⟩ := mem_arcs.1 ha
    exact cell?_eq_some hsquare hi hj
  have hlast := toRat?_lastPlace (Nat.zero_lt_of_lt hdepot) hsize
  refine ⟨isWellFormed_compile hdepot hsize hvehicles, rfl, nodup_names_compile,
    ⟨nodup_arcs, length_arcs, fun _ => mem_arcs⟩,
    ⟨nodup_customers, length_customers hdepot, fun _ => mem_customers⟩, hlast,
    fun htwo => toRat?_orderBound htwo hsize, hcell, rfl, ?_, Family.isLookup_columnOf? _, ?_⟩
  · intro H _ handle? hlookup
    refine isReadBy_of_isLookup hdepot (Binary64.isFinite_of_toRat? hlast) (fun a ha => ?_) hlookup
    obtain ⟨row, hrow, hx⟩ := mem_of_cell? (hcell a ha)
    exact hfinite row hrow _ hx
  · intro k v hv
    refine Family.lastIndex?_of_getElem? nodup_names_compile ?_
    rw [List.getElem?_map, hv]
    rfl

/-- Three locations around a depot in the middle of the list. -/
def triangle : Plan := ⟨1, 1, [[0.0, 3.0, 5.0], [3.0, 0.0, 4.0], [5.0, 4.0, 0.0]]⟩

/-- The objective of three locations, read over the columns. -/
theorem compile_yields_triangle :
    triangle.depot < triangle.size ∧ triangle.compile.isWellFormed = true ∧
      Yields (Family.columnOf? triangle.compile) triangle.compile.objective.expression
        [(3.0, "x_0_1"), (5.0, "x_0_2"), (3.0, "x_1_0"), (4.0, "x_1_2"), (5.0, "x_2_0"),
          (4.0, "x_2_1")] := by
  obtain ⟨hwellFormed, -, -, -, -, -, -, -, -, hread, hlookup, -⟩ :=
    @compile_yields triangle (by decide) (by decide) (by decide) (by decide) (by decide)
  exact ⟨by decide, hwellFormed, (hread _ _ hlookup).objective⟩

end Plan

end OptModel
