import OptModel.Proofs.Binary64.Nearest
import OptModel.Proofs.Family.Exact
import OptModel.Proofs.Routing.Accepted
import OptModel.Proofs.Routing.Names
import Mathlib.Algebra.BigOperators.Ring.List

/-!
# What a compiled plan says

The texts of a compiled plan are read back as the terms they were written from, so the program of a
plan says of its arcs and places what a formulation on paper would say. From here on nothing
mentions texts, names or doubles: `Plan.Feasible` is a system of inequalities between rationals.

## Main definitions

* `Plan.IsProper` — what is asked of a plan
* `Plan.way` — the exact length of the way between two locations
* `Plan.Feasible` — the inequalities

## Main results

* `Plan.exists_program` — the program of a plan, and what it says
-/

namespace OptModel.Plan

/-- What is asked of a plan: at least one customer, a square table of distances, a depot among the
locations, a vehicle, and numbers that a double can hold. -/
structure IsProper (plan : Plan) : Prop where
  two_le_size : 2 ≤ plan.size
  size_lt : plan.size < 2 ^ 53
  square : ∀ row ∈ plan.distances, row.length = plan.size
  distances : ∀ row ∈ plan.distances, ∀ x ∈ row, isDistance x
  depot_lt : plan.depot < plan.size
  one_le_vehicles : 1 ≤ plan.vehicles
  vehicles_lt : plan.vehicles < 2 ^ 53

/-- The exact length of the way from `i` to `j`. -/
def way (plan : Plan) (i j : ℕ) : ℚ := Binary64.value (plan.distance i j)

/-- The total distance driven when `x` tells how often each arc is. -/
def cost (plan : Plan) (x : ℕ → ℕ → ℚ) : ℚ :=
  (plan.arcs.map fun a => plan.way a.1 a.2 * x a.1 a.2).sum

/-- The inequalities of a plan, each within `t`: `x i j` tells whether a vehicle drives from `i` to
`j` and `u i` is the place of `i` in the visiting order. -/
structure Feasible (plan : Plan) (t : ℚ) (x : ℕ → ℕ → ℚ) (u : ℕ → ℚ) : Prop where
  arc : ∀ a ∈ plan.arcs, -t ≤ x a.1 a.2 ∧ x a.1 a.2 ≤ 1 + t ∧ ∃ k : ℤ, |x a.1 a.2 - k| ≤ t
  place : ∀ i ∈ plan.customers, 1 - t ≤ u i ∧ u i ≤ plan.size - 1 + t
  enter : ∀ j ∈ plan.customers, |((plan.others j).map fun i => x i j).sum - 1| ≤ t
  leave : ∀ i ∈ plan.customers, |((plan.others i).map fun j => x i j).sum - 1| ≤ t
  fleet : (plan.customers.map fun j => x plan.depot j).sum ≤ plan.vehicles + t
  balance : |(plan.customers.map fun j => x plan.depot j).sum -
    (plan.customers.map fun i => x i plan.depot).sum| ≤ t
  order : ∀ i ∈ plan.customers, ∀ j ∈ plan.customers, j ≠ i →
    u i - u j + (plan.size - 1) * x i j ≤ plan.size - 2 + t

variable {plan : Plan}

/-! ### Locations and arcs -/

@[simp] theorem mem_others {i j : ℕ} : j ∈ plan.others i ↔ j < plan.size ∧ j ≠ i := by
  simp [others]

@[simp] theorem mem_customers {j : ℕ} :
    j ∈ plan.customers ↔ j < plan.size ∧ j ≠ plan.depot := mem_others

theorem mem_arcs {a : ℕ × ℕ} :
    a ∈ plan.arcs ↔ a.1 < plan.size ∧ a.2 < plan.size ∧ a.2 ≠ a.1 := by
  rw [arcs, List.mem_flatMap]
  constructor
  · rintro ⟨i, hi, ha⟩
    obtain ⟨j, hj, rfl⟩ := List.mem_map.1 ha
    exact ⟨List.mem_range.1 hi, mem_others.1 hj⟩
  · rintro ⟨hi, hj⟩
    exact ⟨a.1, List.mem_range.2 hi, List.mem_map.2 ⟨a.2, mem_others.2 hj, rfl⟩⟩

theorem nodup_others (i : ℕ) : (plan.others i).Nodup := List.nodup_range.filter _

theorem nodup_customers : plan.customers.Nodup := nodup_others plan.depot

theorem nodup_arcs : plan.arcs.Nodup := by
  rw [arcs, List.nodup_flatMap]
  constructor
  · intro i _
    exact (nodup_others i).map fun _ _ h => (Prod.mk.inj h).2
  · refine List.nodup_range.imp fun {i k} hik a hi hk => hik ?_
    obtain ⟨_, -, rfl⟩ := List.mem_map.1 hi
    obtain ⟨_, -, heq⟩ := List.mem_map.1 hk
    exact (Prod.mk.inj heq).1.symm

/-- The locations are any one of them and the others. -/
theorem range_perm {i : ℕ} (h : i < plan.size) :
    (List.range plan.size).Perm (i :: plan.others i) := by
  have hfilter : plan.others i = (List.range plan.size).erase i := by
    rw [List.nodup_range.erase_eq_filter, others]
    exact List.filter_congr fun j _ => by by_cases hj : j = i <;> simp [hj]
  rw [hfilter]
  exact List.perm_cons_erase (List.mem_range.2 h)

theorem length_others {i : ℕ} (h : i < plan.size) : (plan.others i).length = plan.size - 1 := by
  have hlength := (range_perm h).length_eq
  rw [List.length_range, List.length_cons] at hlength
  omega

theorem length_customers (h : plan.depot < plan.size) :
    plan.customers.length = plan.size - 1 := length_others h

/-- A sum over the arcs, row by row. -/
theorem sum_arcs_eq (h : plan.depot < plan.size) (f : ℕ → ℕ → ℚ) :
    (plan.arcs.map fun a => f a.1 a.2).sum =
      (plan.customers.map fun j => f plan.depot j).sum +
        (plan.customers.map fun i => ((plan.others i).map fun j => f i j).sum).sum := by
  have hrows : (plan.arcs.map fun a => f a.1 a.2).sum =
      ((List.range plan.size).map fun i => ((plan.others i).map fun j => f i j).sum).sum := by
    rw [arcs, List.map_flatMap, List.flatMap, List.sum_flatten, List.map_map]
    simp only [Function.comp_def, List.map_map]
  rw [hrows, ((range_perm h).map _).sum_eq, List.map_cons, List.sum_cons]
  rfl

theorem others_ne_nil (h : 2 ≤ plan.size) (i : ℕ) : plan.others i ≠ [] := by
  intro hnil
  have hmem : (if i = 0 then 1 else 0) ∈ plan.others i := by
    rw [mem_others]
    split <;> omega
  rw [hnil] at hmem
  exact List.not_mem_nil hmem

theorem arcs_ne_nil (h : 2 ≤ plan.size) : plan.arcs ≠ [] := by
  intro hnil
  have hmem : (0, 1) ∈ plan.arcs := mem_arcs.2 ⟨by omega, by omega, by decide⟩
  rw [hnil] at hmem
  exact List.not_mem_nil hmem

/-- **Different variables of a plan have different names.** -/
theorem nodup_names_compile : (plan.compile.vars.map (·.name)).Nodup := by
  show (plan.compiledVariables.map (·.name)).Nodup
  rw [compiledVariables, List.map_append, List.map_map, List.map_map, List.nodup_append]
  refine ⟨nodup_arcs.map fun a b hname => ?_, nodup_customers.map fun i j hname => ?_, ?_⟩
  · exact Prod.ext (arcName_inj.1 hname).1 (arcName_inj.1 hname).2
  · exact orderName_inj.1 hname
  · intro name harc other hplace heq
    obtain ⟨a, -, rfl⟩ := List.mem_map.1 harc
    obtain ⟨i, -, rfl⟩ := List.mem_map.1 hplace
    exact arcName_ne_orderName a.1 a.2 i heq

/-! ### Distances and the last place -/

theorem IsProper.isDistance (h : plan.IsProper) (i j : ℕ) :
    Plan.isDistance (plan.distance i j) := by
  have hzero : Plan.isDistance 0.0 := by decide
  rw [distance, List.getD_eq_getElem?_getD, List.getD_eq_getElem?_getD]
  cases hrow : plan.distances[i]? with
  | none => exact hzero
  | some row =>
    rw [Option.getD_some]
    cases hx : row[j]? with
    | none => exact hzero
    | some x =>
      exact h.distances row (List.mem_of_getElem? hrow) x (List.mem_of_getElem? hx)

theorem IsProper.isFinite_distance (h : plan.IsProper) (i j : ℕ) :
    (plan.distance i j).isFinite := isFinite_of_isDistance (h.isDistance i j)

theorem IsProper.way_nonneg (h : plan.IsProper) (i j : ℕ) : 0 ≤ plan.way i j := by
  have hpos := not_lt_zero_of_isDistance (h.isDistance i j)
  rw [Binary64.lt_iff_of_toRat? (Extended.toRat?_eq_value (h.isFinite_distance i j))
    Binary64.toRat?_zero] at hpos
  exact not_lt.1 hpos

/-- The last place is exact. -/
theorem toRat?_lastPlace (hpos : 0 < plan.size) (hlt : plan.size < 2 ^ 53) :
    Binary64.toRat? plan.lastPlace = some ((plan.size : ℚ) - 1) := by
  have hplaces : plan.size - 1 < 2 * Binary64.leadingBit := by
    simp only [Binary64.leadingBit]
    omega
  have hcast : ((plan.size - 1 : ℕ) : ℚ) = (plan.size : ℚ) - 1 := by
    rw [Nat.cast_sub hpos, Nat.cast_one]
  rw [lastPlace, Binary64.toRat?_ofNat hplaces, hcast]

/-- So is one less. -/
theorem toRat?_orderBound (hsize : 2 ≤ plan.size) (hlt : plan.size < 2 ^ 53) :
    Binary64.toRat? (plan.lastPlace - 1.0) = some ((plan.size : ℚ) - 2) := by
  have hplaces : plan.size - 2 < 2 * Binary64.leadingBit := by
    simp only [Binary64.leadingBit]
    omega
  have hcast : ((plan.size - 2 : ℕ) : ℚ) = (plan.size : ℚ) - 1 - 1 := by
    rw [Nat.cast_sub hsize, Nat.cast_ofNat]
    ring
  obtain ⟨m, q, hcanonical, hv⟩ := Binary64.exists_canonical_natCast hplaces
  rw [Binary64.toRat?_sub (toRat?_lastPlace (by omega) hlt) Binary64.toRat?_one hcanonical
    (hcast.symm.trans (hv.trans (Binary64.valueOf_positive m q).symm))]
  congr 1
  ring

theorem IsProper.toRat?_lastPlace (h : plan.IsProper) :
    Binary64.toRat? plan.lastPlace = some ((plan.size : ℚ) - 1) :=
  Plan.toRat?_lastPlace (Nat.zero_lt_of_lt h.depot_lt) h.size_lt

theorem IsProper.toRat?_orderBound (h : plan.IsProper) :
    Binary64.toRat? (plan.lastPlace - 1.0) = some ((plan.size : ℚ) - 2) :=
  Plan.toRat?_orderBound h.two_le_size h.size_lt

theorem IsProper.toRat?_vehicles (h : plan.IsProper) :
    Binary64.toRat? (Binary64.ofNat plan.vehicles) = some (plan.vehicles : ℚ) :=
  Binary64.toRat?_ofNat (lt_of_lt_of_eq h.vehicles_lt (by decide))

/-! ### What the texts stand for -/

section Texts

open Expression

/-- The literal of a term that is taken away. -/
theorem readLiteral?_minusOne : readLiteral? "-1".toList = some (-1.0) := by decide

theorem toRat?_minusOne : Binary64.toRat? (-1.0) = some (-1) := by decide

theorem value_one : Binary64.value 1.0 = 1 := Extended.value_of_toRat? Binary64.toRat?_one

theorem value_minusOne : Binary64.value (-1.0) = -1 := Extended.value_of_toRat? toRat?_minusOne

theorem isLiteral_minusOne : IsLiteral "-1".toList := by decide

variable {name : String}

/-- A text without a plus that stands for one term. -/
def Stands (text : String) (term : Float × String) : Prop :=
  '+' ∉ text.toList ∧ IsTerm text.toList term.1 term.2

theorem stands_name (h : IsMentionable name) : Stands name (1.0, name) :=
  ⟨h.noPlus, isTerm_name h⟩

theorem stands_negated (h : IsMentionable name) : Stands ("-1*" ++ name) (-1.0, name) := by
  have htext : "-1*" ++ name = "-1" ++ "*" ++ name := rfl
  rw [htext]
  have hfinite : (-1.0 : Float).isFinite := by decide
  exact ⟨noPlus_scaled isLiteral_minusOne h,
    isTerm_scaled isLiteral_minusOne readLiteral?_minusOne hfinite h⟩

theorem stands_term {c : Float} (hc : c.isFinite) (h : IsMentionable name) :
    Stands (term c name) (c, name) :=
  ⟨noPlus_term c h, isTerm_term hc h⟩

/-- A sum over a list. -/
theorem isWritten_map {α : Type} {l : List α} {text : α → String} {term : α → Float × String}
    (h : ∀ a ∈ l, Stands (text a) (term a)) : IsWritten (sum (l.map text)) (l.map term) :=
  ⟨_, rfl, List.forall₂_map_same h⟩

theorem isWritten_enterRow (j : ℕ) :
    IsWritten (plan.enterRow j).expression ((plan.others j).map fun i => (1.0, arcName i j)) :=
  isWritten_map fun i _ => stands_name (isMentionable_arcName i j)

theorem isWritten_leaveRow (i : ℕ) :
    IsWritten (plan.leaveRow i).expression ((plan.others i).map fun j => (1.0, arcName i j)) :=
  isWritten_map fun j _ => stands_name (isMentionable_arcName i j)

theorem isWritten_fleetRow :
    IsWritten plan.fleetRow.expression (plan.customers.map fun j => (1.0, arcName plan.depot j)) :=
  isWritten_map fun j _ => stands_name (isMentionable_arcName plan.depot j)

theorem isWritten_balanceRow :
    IsWritten plan.balanceRow.expression
      ((plan.customers.map fun j => (1.0, arcName plan.depot j)) ++
        plan.customers.map fun i => (-1.0, arcName i plan.depot)) := by
  refine ⟨_, rfl, List.rel_append (R := Stands) ?_ ?_⟩
  · exact List.forall₂_map_same fun j _ => stands_name (isMentionable_arcName plan.depot j)
  · exact List.forall₂_map_same fun i _ => stands_negated (isMentionable_arcName i plan.depot)

theorem isWritten_orderRow (hlast : plan.lastPlace.isFinite) (i j : ℕ) :
    IsWritten (plan.orderRow i j).expression
      [(1.0, orderName i), (-1.0, orderName j), (plan.lastPlace, arcName i j)] := by
  refine ⟨_, rfl, .cons ?_ (.cons ?_ (.cons ?_ .nil))⟩
  · exact stands_name (isMentionable_orderName i)
  · exact stands_negated (isMentionable_orderName j)
  · exact stands_term hlast (isMentionable_arcName i j)

theorem isWritten_objective (h : ∀ a ∈ plan.arcs, (plan.distance a.1 a.2).isFinite) :
    IsWritten plan.compiledObjective.expression
      (plan.arcs.map fun a => (plan.distance a.1 a.2, arcName a.1 a.2)) :=
  isWritten_map fun a ha => stands_term (h a ha) (isMentionable_arcName a.1 a.2)

/-! With a customer no text is empty. -/

theorem spells_enterRow (h : plan.IsProper) (j : ℕ) :
    Spells (plan.enterRow j).expression ((plan.others j).map fun i => (1.0, arcName i j)) :=
  (isWritten_enterRow j).spells (mt List.map_eq_nil_iff.1 (others_ne_nil h.two_le_size j))

theorem spells_leaveRow (h : plan.IsProper) (i : ℕ) :
    Spells (plan.leaveRow i).expression ((plan.others i).map fun j => (1.0, arcName i j)) :=
  (isWritten_leaveRow i).spells (mt List.map_eq_nil_iff.1 (others_ne_nil h.two_le_size i))

theorem spells_fleetRow (h : plan.IsProper) :
    Spells plan.fleetRow.expression
      (plan.customers.map fun j => (1.0, arcName plan.depot j)) :=
  isWritten_fleetRow.spells (mt List.map_eq_nil_iff.1 (others_ne_nil h.two_le_size _))

theorem spells_balanceRow (h : plan.IsProper) :
    Spells plan.balanceRow.expression
      ((plan.customers.map fun j => (1.0, arcName plan.depot j)) ++
        plan.customers.map fun i => (-1.0, arcName i plan.depot)) := by
  refine isWritten_balanceRow.spells fun hnil => ?_
  have hcustomers := List.map_eq_nil_iff.1 (List.append_eq_nil_iff.1 hnil).1
  exact others_ne_nil h.two_le_size _ hcustomers

theorem spells_orderRow (h : plan.IsProper) (i j : ℕ) :
    Spells (plan.orderRow i j).expression
      [(1.0, orderName i), (-1.0, orderName j), (plan.lastPlace, arcName i j)] :=
  (isWritten_orderRow (Binary64.isFinite_of_toRat? h.toRat?_lastPlace) i j).spells
    (List.cons_ne_nil _ _)

theorem spells_objective (h : plan.IsProper) :
    Spells plan.compiledObjective.expression
      (plan.arcs.map fun a => (plan.distance a.1 a.2, arcName a.1 a.2)) :=
  (isWritten_objective fun a _ => h.isFinite_distance a.1 a.2).spells
    (mt List.map_eq_nil_iff.1 (arcs_ne_nil h.two_le_size))

end Texts

/-! ### Variables and rows -/

theorem forall_mem_compiledVariables {p : Variable Float → Prop} :
    (∀ v ∈ plan.compile.vars, p v) ↔
      (∀ a ∈ plan.arcs, p { name := arcName a.1 a.2, kind := .binary }) ∧
        ∀ i ∈ plan.customers,
          p { name := orderName i, lowerBound := some 1.0, upperBound := some plan.lastPlace } := by
  show (∀ v ∈ plan.compiledVariables, p v) ↔ _
  rw [compiledVariables, List.forall_mem_append, List.forall_mem_map, List.forall_mem_map]

theorem forall_mem_compiledRows {p : Row Float → Prop} :
    (∀ row ∈ plan.compile.rows, p row) ↔
      (∀ j ∈ plan.customers, p (plan.enterRow j)) ∧ (∀ i ∈ plan.customers, p (plan.leaveRow i)) ∧
        p plan.fleetRow ∧ p plan.balanceRow ∧
        ∀ i ∈ plan.customers, ∀ j ∈ plan.customers, j ≠ i → p (plan.orderRow i j) := by
  show (∀ row ∈ plan.compiledRows, p row) ↔ _
  rw [compiledRows, List.forall_mem_append, List.forall_mem_append, List.forall_mem_append,
    List.forall_mem_map, List.forall_mem_map, List.forall_mem_cons, List.forall_mem_singleton,
    List.forall_mem_flatMap]
  simp only [List.forall_mem_map, List.mem_filter, decide_eq_true_iff, and_imp, and_assoc]

theorem arcName_mem {i j : ℕ} (h : (i, j) ∈ plan.arcs) :
    arcName i j ∈ plan.compile.vars.map (·.name) :=
  List.mem_map.2 ⟨_, List.mem_append_left _ (List.mem_map.2 ⟨(i, j), h, rfl⟩), rfl⟩

theorem orderName_mem {i : ℕ} (h : i ∈ plan.customers) :
    orderName i ∈ plan.compile.vars.map (·.name) :=
  List.mem_map.2 ⟨_, List.mem_append_right _ (List.mem_map.2 ⟨i, h, rfl⟩), rfl⟩

/-- An arc to another location. -/
theorem mem_arcs_of_mem_others {i j : ℕ} (hi : i < plan.size) (hj : j ∈ plan.others i) :
    (i, j) ∈ plan.arcs := mem_arcs.2 ⟨hi, mem_others.1 hj⟩

theorem mem_arcs_into {i j : ℕ} (hj : j < plan.size) (hi : i ∈ plan.others j) :
    (i, j) ∈ plan.arcs := by
  obtain ⟨hi, hne⟩ := mem_others.1 hi
  exact mem_arcs.2 ⟨hi, hj, Ne.symm hne⟩

/-! ### Every text mentions declared names, each once -/

/-- Coefficients with names of variables of a plan, no name twice. -/
structure Mentions (plan : Plan) (named : List (Float × String)) : Prop where
  nodup : (named.map Prod.snd).Nodup
  declared : ∀ n ∈ named, n.2 ∈ plan.compile.vars.map (·.name)

/-- The arcs of a list, each with one coefficient. -/
theorem mentions_arcs {α : Type} {l : List α} (hl : l.Nodup) (c : α → Float) (arc : α → ℕ × ℕ)
    (harc : Function.Injective arc) (hmem : ∀ a ∈ l, arc a ∈ plan.arcs) :
    plan.Mentions (l.map fun a => (c a, arcName (arc a).1 (arc a).2)) where
  nodup := by
    rw [List.map_map]
    refine hl.map fun a b hname => harc ?_
    exact Prod.ext (arcName_inj.1 hname).1 (arcName_inj.1 hname).2
  declared := by
    rw [List.forall_mem_map]
    exact fun a ha => arcName_mem (hmem a ha)

theorem mentions_enterRow {j : ℕ} (hj : j ∈ plan.customers) :
    plan.Mentions ((plan.others j).map fun i => (1.0, arcName i j)) :=
  mentions_arcs (nodup_others j) (fun _ => 1.0) (fun i => (i, j)) (Prod.mk_left_injective j)
    fun _ hi => mem_arcs_into (mem_customers.1 hj).1 hi

theorem mentions_leaveRow {i : ℕ} (hi : i ∈ plan.customers) :
    plan.Mentions ((plan.others i).map fun j => (1.0, arcName i j)) :=
  mentions_arcs (nodup_others i) (fun _ => 1.0) (fun j => (i, j)) (Prod.mk_right_injective i)
    fun _ hj => mem_arcs_of_mem_others (mem_customers.1 hi).1 hj

theorem mentions_fleetRow (hdepot : plan.depot < plan.size) :
    plan.Mentions (plan.customers.map fun j => (1.0, arcName plan.depot j)) :=
  mentions_arcs nodup_customers (fun _ => 1.0) (fun j => (plan.depot, j))
    (Prod.mk_right_injective plan.depot) fun _ hj => mem_arcs_of_mem_others hdepot hj

theorem mentions_balanceRow (hdepot : plan.depot < plan.size) :
    plan.Mentions ((plan.customers.map fun j => (1.0, arcName plan.depot j)) ++
      plan.customers.map fun i => (-1.0, arcName i plan.depot)) := by
  have hout := mentions_fleetRow hdepot
  have hin : plan.Mentions (plan.customers.map fun i => (-1.0, arcName i plan.depot)) :=
    mentions_arcs nodup_customers (fun _ => -1.0) (fun i => (i, plan.depot))
      (Prod.mk_left_injective plan.depot) fun _ hi => mem_arcs_into hdepot hi
  refine ⟨?_, List.forall_mem_append.2 ⟨hout.declared, hin.declared⟩⟩
  rw [List.map_append, List.nodup_append]
  refine ⟨hout.nodup, hin.nodup, ?_⟩
  -- an arc out of the depot is no arc into it
  intro name hname other hother heq
  rw [List.map_map] at hname hother
  obtain ⟨j, -, rfl⟩ := List.mem_map.1 hname
  obtain ⟨i, hi, rfl⟩ := List.mem_map.1 hother
  exact (mem_customers.1 hi).2 (arcName_inj.1 heq).1.symm

theorem mentions_orderRow {i j : ℕ} (hi : i ∈ plan.customers) (hj : j ∈ plan.customers)
    (hne : j ≠ i) :
    plan.Mentions [(1.0, orderName i), (-1.0, orderName j), (plan.lastPlace, arcName i j)] where
  nodup := by
    have hij : orderName i ≠ orderName j := fun hname => hne (orderName_inj.1 hname).symm
    simp [hij, Ne.symm (arcName_ne_orderName i j i), Ne.symm (arcName_ne_orderName i j j)]
  declared := by
    intro n hn
    rw [List.mem_cons, List.mem_cons, List.mem_singleton] at hn
    rcases hn with rfl | rfl | rfl
    · exact orderName_mem hi
    · exact orderName_mem hj
    · exact arcName_mem (mem_arcs.2 ⟨(mem_customers.1 hi).1, (mem_customers.1 hj).1, hne⟩)

theorem mentions_objective :
    plan.Mentions (plan.arcs.map fun a => (plan.distance a.1 a.2, arcName a.1 a.2)) :=
  mentions_arcs nodup_arcs (fun a => plan.distance a.1 a.2) id Function.injective_id fun _ ha => ha

section Declared

variable (h : plan.IsProper)
include h

omit h in
theorem Mentions.declared_of_spells {text : String} {named : List (Float × String)}
    (h : plan.Mentions named) (hspells : Expression.Spells text named) :
    Family.Declared plan.compile text := ⟨named, hspells, h.nodup, h.declared⟩

theorem declared_objective : Family.Declared plan.compile plan.compiledObjective.expression :=
  mentions_objective.declared_of_spells (spells_objective h)

theorem declared_rows : ∀ row ∈ plan.compile.rows, Family.Declared plan.compile row.expression :=
  forall_mem_compiledRows.2
    ⟨fun j hj => (mentions_enterRow hj).declared_of_spells (spells_enterRow h j),
      fun i hi => (mentions_leaveRow hi).declared_of_spells (spells_leaveRow h i),
      (mentions_fleetRow h.depot_lt).declared_of_spells (spells_fleetRow h),
      (mentions_balanceRow h.depot_lt).declared_of_spells (spells_balanceRow h),
      fun i hi j hj hne =>
        (mentions_orderRow hi hj hne).declared_of_spells (spells_orderRow h i j)⟩

end Declared

/-! ### The program of a plan -/

section Program

variable (value : String → ℚ) (t : ℚ)

theorem takes_arc_iff (name : String) (x : ℚ) :
    ((Family.mixedInteger.columnFor Binary64.infinity
        { name := name, kind := .binary }).map Extended.ofFloat).Takes t x ↔
      -t ≤ x ∧ x ≤ 1 + t ∧ ∃ k : ℤ, |x - k| ≤ t := by
  have hcolumn : (Family.mixedInteger.columnFor Binary64.infinity
      { name := name, kind := .binary }).map Extended.ofFloat =
        ⟨name, .binary, .rational 0, .rational 1⟩ := by
    rw [← Extended.ofFloat_zero, ← Extended.ofFloat_one]
    rfl
  have hkind : VariableKind.binary ≠ .continuous := by decide
  rw [hcolumn, Column.takes_rational_iff, zero_sub, forall_prop_of_true hkind]

theorem takes_place_iff (h : plan.IsProper) (name : String) (x : ℚ) :
    ((Family.mixedInteger.columnFor Binary64.infinity
        { name := name, lowerBound := some 1.0, upperBound := some plan.lastPlace }).map
          Extended.ofFloat).Takes t x ↔
      1 - t ≤ x ∧ x ≤ plan.size - 1 + t := by
  have hcolumn : (Family.mixedInteger.columnFor Binary64.infinity
      { name := name, lowerBound := some 1.0, upperBound := some plan.lastPlace }).map
        Extended.ofFloat = ⟨name, .continuous, .rational 1, .rational (plan.size - 1)⟩ := by
    rw [← Extended.ofFloat_of_toRat? h.toRat?_lastPlace, ← Extended.ofFloat_one]
    rfl
  rw [hcolumn, Column.takes_rational_iff]
  refine and_congr_right fun _ => and_iff_left fun hkind => absurd rfl hkind

/-- A sum of arcs with one coefficient. -/
theorem sum_arcs {α : Type} (l : List α) (c : Float) (name : α → String) :
    ((l.map fun a => (c, name a)).map fun n => Binary64.value n.1 * value n.2).sum =
      Binary64.value c * (l.map fun a => value (name a)).sum := by
  rw [List.map_map, ← List.sum_map_mul_left]
  rfl

variable (h : plan.IsProper)
include h

theorem enterRow_holds_iff (j : ℕ) :
    (∃ total, Expression.Worth value (plan.enterRow j).expression total ∧
      (plan.enterRow j).sense.holds (.rational total) (Extended.ofFloat (plan.enterRow j).rhs)
        (.rational t) = true) ↔
      |((plan.others j).map fun i => value (arcName i j)).sum - 1| ≤ t := by
  rw [Expression.exists_worth_iff (spells_enterRow h j), sum_arcs, value_one, one_mul]
  show RowSense.equal.holds _ (Extended.ofFloat 1.0) _ = true ↔ _
  rw [Extended.ofFloat_one, Extended.holds_rational]

theorem leaveRow_holds_iff (i : ℕ) :
    (∃ total, Expression.Worth value (plan.leaveRow i).expression total ∧
      (plan.leaveRow i).sense.holds (.rational total) (Extended.ofFloat (plan.leaveRow i).rhs)
        (.rational t) = true) ↔
      |((plan.others i).map fun j => value (arcName i j)).sum - 1| ≤ t := by
  rw [Expression.exists_worth_iff (spells_leaveRow h i), sum_arcs, value_one, one_mul]
  show RowSense.equal.holds _ (Extended.ofFloat 1.0) _ = true ↔ _
  rw [Extended.ofFloat_one, Extended.holds_rational]

theorem fleetRow_holds_iff :
    (∃ total, Expression.Worth value plan.fleetRow.expression total ∧
      plan.fleetRow.sense.holds (.rational total) (Extended.ofFloat plan.fleetRow.rhs)
        (.rational t) = true) ↔
      (plan.customers.map fun j => value (arcName plan.depot j)).sum ≤ plan.vehicles + t := by
  rw [Expression.exists_worth_iff (spells_fleetRow h), sum_arcs, value_one, one_mul]
  show RowSense.atMost.holds _ (Extended.ofFloat (Binary64.ofNat plan.vehicles)) _ = true ↔ _
  rw [Extended.ofFloat_of_toRat? h.toRat?_vehicles, Extended.holds_rational]

theorem balanceRow_holds_iff :
    (∃ total, Expression.Worth value plan.balanceRow.expression total ∧
      plan.balanceRow.sense.holds (.rational total) (Extended.ofFloat plan.balanceRow.rhs)
        (.rational t) = true) ↔
      |(plan.customers.map fun j => value (arcName plan.depot j)).sum -
        (plan.customers.map fun i => value (arcName i plan.depot)).sum| ≤ t := by
  rw [Expression.exists_worth_iff (spells_balanceRow h), List.map_append, List.sum_append, sum_arcs,
    sum_arcs, value_one, value_minusOne, one_mul, neg_one_mul, ← sub_eq_add_neg]
  show RowSense.equal.holds _ (Extended.ofFloat 0.0) _ = true ↔ _
  rw [Extended.ofFloat_zero, Extended.holds_rational, sub_zero]

theorem orderRow_holds_iff (i j : ℕ) :
    (∃ total, Expression.Worth value (plan.orderRow i j).expression total ∧
      (plan.orderRow i j).sense.holds (.rational total)
        (Extended.ofFloat (plan.orderRow i j).rhs) (.rational t) = true) ↔
      value (orderName i) - value (orderName j) + (plan.size - 1) * value (arcName i j) ≤
        plan.size - 2 + t := by
  have hsum : ([(1.0, orderName i), (-1.0, orderName j), (plan.lastPlace, arcName i j)].map
      fun n => Binary64.value n.1 * value n.2).sum =
      value (orderName i) - value (orderName j) + (plan.size - 1) * value (arcName i j) := by
    have hlast := Extended.value_of_toRat? h.toRat?_lastPlace
    simp only [List.map_cons, List.map_nil, List.sum_cons, List.sum_nil, value_one, value_minusOne,
      hlast]
    ring
  rw [Expression.exists_worth_iff (spells_orderRow h i j), hsum]
  show RowSense.atMost.holds _ (Extended.ofFloat (plan.lastPlace - 1.0)) _ = true ↔ _
  rw [Extended.ofFloat_of_toRat? h.toRat?_orderBound, Extended.holds_rational]

/-- **The program of a plan** is satisfied by named values exactly when the inequalities are, and
its objective is the total distance. -/
theorem exists_program :
    ∃ program, Family.mixedInteger.stage Binary64.infinity plan.compile = .ok program ∧
      ∀ value : String → ℚ,
        (∀ t, program.exact.Satisfied t (plan.compile.vars.map fun v => value v.name) ↔
          plan.Feasible t (fun i j => value (arcName i j)) fun i => value (orderName i)) ∧
        program.exact.objectiveAt ((plan.compile.vars.map fun v => value v.name).map .rational) =
          .rational (plan.cost fun i j => value (arcName i j)) := by
  obtain ⟨program, hprogram, hmeans⟩ := @Family.exists_stage_of_declared .mixedInteger _
    (declared_rows h) (declared_objective h)
  refine ⟨program, hprogram, fun value => ⟨fun t => ?_, ?_⟩⟩
  · rw [(hmeans value).1 t, forall_mem_compiledVariables, forall_mem_compiledRows]
    simp only [takes_arc_iff, takes_place_iff t h, enterRow_holds_iff value t h,
      leaveRow_holds_iff value t h, fleetRow_holds_iff value t h, balanceRow_holds_iff value t h,
      orderRow_holds_iff value t h]
    constructor
    · rintro ⟨⟨harc, hplace⟩, henter, hleave, hfleet, hbalance, horder⟩
      exact ⟨harc, hplace, henter, hleave, hfleet, hbalance, horder⟩
    · rintro ⟨harc, hplace, henter, hleave, hfleet, hbalance, horder⟩
      exact ⟨⟨harc, hplace⟩, henter, hleave, hfleet, hbalance, horder⟩
  · obtain ⟨total, hworth, htotal⟩ := (hmeans value).2
    rw [htotal, hworth.unique (.sum (spells_objective h)), List.map_map]
    rfl

end Program

end OptModel.Plan
