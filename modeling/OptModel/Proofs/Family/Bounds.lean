import OptModel.Engine.Scripted
import OptModel.Proofs.Binary64.Order
import OptModel.Proofs.Dispatch.Conversation
import OptModel.Proofs.Family.Meaning
import OptModel.Proofs.Routing.Accepted

/-!
# The bounds of columns

A well-formed model has no NaN among its bounds and none that are the wrong way round, except that
the bounds of binary variables may be. The families that take binary variables by their kind tell a
solver no bounds for them, and a compiled routing plan has bounds of its own that are in order. The
linear family takes a binary variable as a real one between its declared bounds, so it is the one
family that can hand crossed bounds to an engine.

## Main definitions

* `Directive.bounds?` — the bounds that a solver is told for a column

## Main results

* `Model.isBounded_of_isWellFormed`, `Plan.isBounded_compile` — variables with bounds in order
* `Family.build_bounds` — what every engine is told
* `Family.build_single_crossed` — crossed bounds that are told
-/

namespace OptModel

/-- The bounds that a directive gives to a column. -/
def Directive.bounds? {R : Type} : Directive R → Option (R × R)
  | realColumn _ lower upper | integerColumn _ lower upper => some (lower, upper)
  | _ => none

/-! ### Well-formed models -/

namespace Variable

variable {v : Variable Float}

/-- A bound that may be missing is no NaN when neither it nor what stands for it is. -/
theorem isNaN_getD {bound : Option Float} {missing : Float}
    (hbound : bound.any Float.isNaN = false) (hmissing : missing.isNaN = false) :
    (bound.getD missing).isNaN = false := by
  cases bound with
  | none => exact hmissing
  | some b => exact hbound

theorem isNaN_lower (h : v.lowerBound.any Float.isNaN = false) : v.lower.isNaN = false :=
  isNaN_getD h (by decide)

theorem isNaN_upper (h : v.upperBound.any Float.isNaN = false) : v.upper.isNaN = false :=
  isNaN_getD h (by decide)

/-- No bound of a variable is a NaN, and the lower one is at most the upper one unless the variable
is binary. -/
structure IsBounded (v : Variable Float) : Prop where
  lower : v.lower.isNaN = false
  upper : v.upper.isNaN = false
  ordered : v.kind ≠ .binary → v.lower ≤ v.upper

theorem isBounded_of_boundFlaw? (h : v.boundFlaw? = none) : v.IsBounded := by
  obtain ⟨⟨hlower, hupper⟩, hordered⟩ := boundFlaw?_eq_none_iff.1 h
  have hlower := isNaN_lower hlower
  have hupper := isNaN_upper hupper
  exact ⟨hlower, hupper, fun hkind => Binary64.le_of_not_lt hlower hupper (hordered hkind)⟩

end Variable

/-- **The variables of a well-formed model are bounded.** -/
theorem Model.isBounded_of_isWellFormed {model : Model Float} (h : model.isWellFormed = true) :
    ∀ v ∈ model.vars, v.IsBounded := fun v hv =>
  Variable.isBounded_of_boundFlaw? (Model.boundFlaw?_eq_none h v hv)

/-! ### Compiled routing plans -/

namespace Plan

/-- **The variables of a compiled plan are bounded**, whatever its size. -/
theorem isBounded_compile {plan : Plan} (hdepot : plan.depot < plan.size) :
    ∀ v ∈ plan.compile.vars, v.IsBounded := by
  show ∀ v ∈ plan.arcs.map _ ++ plan.customers.map _, _
  rw [List.forall_mem_append, List.forall_mem_map, List.forall_mem_map]
  refine ⟨fun a _ => ⟨Variable.isNaN_lower rfl, Variable.isNaN_upper rfl, fun hkind =>
    absurd rfl hkind⟩, fun i hi => ?_⟩
  have hi' := List.mem_filter.1 hi
  have hplaces : plan.size - 1 ≠ 0 := by
    have hlt := List.mem_range.1 hi'.1
    have hne := of_decide_eq_true hi'.2
    omega
  have hle := Binary64.one_le_ofNat hplaces
  exact ⟨(Binary64.isNaN_of_le hle).1, (Binary64.isNaN_of_le hle).2, fun _ => hle⟩

end Plan

/-! ### What is told -/

namespace Family

section Directives

variable {R : Type} [Scalar R]

/-- Rows and the objective bound no column. -/
theorem bounds?_rowsAndObjective {handle? : String → Option ℕ} {objective : Objective}
    (rows : List (Row R)) :
    ∀ d ∈ (rowsAndObjective handle? objective rows).1, d.bounds? = none := by
  induction rows with
  | nil =>
    rw [rowsAndObjective_nil]
    cases Expression.parse (R := R) handle? objective.expression with
    | error fault => exact List.forall_mem_nil _
    | ok form => exact List.forall_mem_singleton.2 rfl
  | cons row rows ih =>
    cases hrow : Expression.parse (R := R) handle? row.expression with
    | error fault =>
      rw [rowsAndObjective_cons_of_error hrow]
      exact List.forall_mem_nil _
    | ok form =>
      rw [rowsAndObjective_cons_of_ok hrow]
      exact List.forall_mem_cons.2 ⟨rfl, ih⟩

end Directives

variable {family : Family} {engine : Engine} {config : Config} {model built : Model Float}

/-- The bounds that are told for a variable are its own, and for a binary variable only the linear
family tells them. -/
theorem bounds?_column {v : Variable Float} {bounds : Float × Float}
    (h : (family.column Binary64.infinity v).bounds? = some bounds) :
    bounds = (v.lower, v.upper) ∧ (v.kind = .binary → family = .linear) := by
  rcases v with ⟨name, kind, lower, upper, start⟩
  cases family with
  | linear => exact ⟨(Option.some.inj h).symm, fun _ => rfl⟩
  | mixedInteger | constraint | routing =>
    cases kind with
    | binary => exact nomatch h
    | continuous | integer => exact ⟨(Option.some.inj h).symm, nofun⟩

/-- Every family builds bounded variables. -/
theorem isBounded_of_formulate {plan : Option Plan} (h : model.isWellFormed = true)
    (hformulate : family.formulate model = .ok (built, plan)) : ∀ v ∈ built.vars, v.IsBounded := by
  by_cases hfamily : family = .routing
  · rw [hfamily, formulate] at hformulate
    cases hplan : Plan.ofModel model with
    | error flaw =>
      rw [hplan] at hformulate
      cases hformulate
    | ok plan =>
      rw [hplan] at hformulate
      obtain ⟨rfl, -⟩ := Prod.mk.inj (Except.ok.inj hformulate)
      exact Plan.isBounded_compile (Plan.depot_lt_of_ofModel hplan)
  · obtain ⟨rfl, -⟩ := formulate_eq_ok hfamily hformulate
    exact Model.isBounded_of_isWellFormed h

/-- What building tells a solver is among the directives of the model that is built. -/
theorem mem_directives_of_told {plan : Option Plan} {d : Directive Float}
    (hformulate : family.formulate model = .ok (built, plan))
    (htold : .tell d ∈ (family.build engine config model).1) :
    d ∈ (family.directives engine.infinity built).1 := by
  cases hcreate : engine.create config.backend with
  | error reason =>
    rw [build_of_refused hformulate hcreate] at htold
    exact nomatch List.mem_singleton.1 htold
  | ok solver =>
    rw [build_fst_of_created hformulate hcreate] at htold
    rcases List.mem_cons.1 htold with hcreated | hmem
    · exact nomatch hcreated
    · obtain ⟨told, htold, heq⟩ := List.mem_map.1 hmem
      exact Call.tell.inj heq ▸ htold

/-- A bound that is told for a model is one of a variable that is built. -/
theorem exists_mem_of_told {d : Directive Float} {bounds : Float × Float}
    (hinfinity : engine.infinity = Binary64.infinity)
    (htold : .tell d ∈ (family.build engine config model).1) (hbounds : d.bounds? = some bounds) :
    ∃ built plan, family.formulate model = .ok (built, plan) ∧
      ∃ v ∈ built.vars, (family.column Binary64.infinity v).bounds? = some bounds := by
  cases hformulate : family.formulate model with
  | error fault =>
    rw [build_of_fault hformulate] at htold
    exact absurd htold List.not_mem_nil
  | ok formulated =>
    obtain ⟨built, plan⟩ := formulated
    have hmem := mem_directives_of_told hformulate htold
    rw [directives, hinfinity] at hmem
    refine ⟨built, plan, rfl, ?_⟩
    rcases List.mem_append.1 hmem with hcolumn | hrest
    · obtain ⟨v, hv, rfl⟩ := List.mem_map.1 hcolumn
      exact ⟨v, hv, hbounds⟩
    · rw [bounds?_rowsAndObjective _ _ hrest] at hbounds
      cases hbounds

/-- A linear problem with one variable. -/
def single (kind : VariableKind) (lower upper : Float) : Model Float where
  type := .linearProgramming
  vars := [⟨"v", kind, some lower, some upper, none⟩]

/-- The linear family tells the declared bounds, whatever the kind of the variable. -/
theorem mem_build_single (kind : VariableKind) (lower upper : Float) :
    .tell (.realColumn "v" lower upper) ∈
      (linear.build (Engine.scripted {}) {} (single kind lower upper)).1 := by
  rw [build_fst_of_created rfl rfl]
  exact List.mem_cons_of_mem _ List.mem_cons_self

/-- **The bounds that an engine is told** for the columns of a well-formed model are no NaN, and
they are in order unless they are those that a binary variable of a linear problem declares. -/
theorem build_bounds (h : model.isWellFormed = true)
    (hinfinity : engine.infinity = Binary64.infinity) :
    ∀ d lower upper, .tell d ∈ (family.build engine config model).1 →
      d.bounds? = some (lower, upper) →
        lower.isNaN = false ∧ upper.isNaN = false ∧
          (lower ≤ upper ∨ family = .linear ∧
            ∃ v ∈ model.vars, v.kind = .binary ∧ v.lower = lower ∧ v.upper = upper) := by
  intro d lower upper htold hbounds
  obtain ⟨built, plan, hformulate, v, hv, hcolumn⟩ := exists_mem_of_told hinfinity htold hbounds
  obtain ⟨heq, hbinary⟩ := bounds?_column hcolumn
  obtain ⟨rfl, rfl⟩ := Prod.mk.inj heq
  have hbounded : v.IsBounded := isBounded_of_formulate h hformulate v hv
  refine ⟨hbounded.lower, hbounded.upper, ?_⟩
  by_cases hkind : v.kind = .binary
  · obtain rfl := hbinary hkind
    obtain rfl := (Prod.mk.inj (Except.ok.inj hformulate)).1
    exact .inr ⟨rfl, v, hv, hkind, rfl, rfl⟩
  · exact .inl (hbounded.ordered hkind)

/-- The bounds of a real variable are told in order. -/
theorem build_bounds_single :
    (single .continuous 0.0 1.0).isWellFormed = true ∧
      (Engine.scripted {}).infinity = Binary64.infinity ∧
      .tell (.realColumn "v" 0.0 1.0) ∈
        (linear.build (Engine.scripted {}) {} (single .continuous 0.0 1.0)).1 ∧
      (0.0 : Float) ≤ 1.0 := by
  have hwellFormed : (single .continuous 0.0 1.0).isWellFormed = true := by decide
  have htold := mem_build_single .continuous 0.0 1.0
  refine ⟨hwellFormed, rfl, htold, ?_⟩
  obtain ⟨-, -, hle | ⟨-, v, hv, hkind, -⟩⟩ :=
    build_bounds hwellFormed rfl _ 0.0 1.0 htold rfl
  · exact hle
  · obtain rfl := List.mem_singleton.1 hv
    exact nomatch hkind

/-- **The crossed bounds of a binary variable are told** to the engine of a linear problem, although
the model is well formed. -/
theorem build_single_crossed :
    (single .binary 1.0 0.0).isWellFormed = true ∧
      (Engine.scripted {}).infinity = Binary64.infinity ∧
      .tell (.realColumn "v" 1.0 0.0) ∈
        (linear.build (Engine.scripted {}) {} (single .binary 1.0 0.0)).1 ∧
      ¬ (1.0 : Float) ≤ 0.0 :=
  ⟨by decide, rfl, mem_build_single .binary 1.0 0.0, by decide⟩

end Family

end OptModel
