import OptModel.Proofs.Dispatch.Presence
import OptModel.Proofs.Expression.Renaming
import OptModel.Proofs.Family.Exact
import OptModel.Proofs.Routing.Complete
import OptModel.Proofs.WellFormed

/-!
# What an optimum is reported as

The values and the objective of a result come by different ways. Values are read column by column
and stored under the declared names. The objective is a form over the columns, which the solver
evaluates at its own values. That they belong together is because names and columns correspond one
to one in a well-formed model, so that the form over the columns is the one over the names
(`parse_declared`).

Everything holds to the last bit: what is said is that the same double comes out when the objective
is read again and evaluated at the reported values.

## Main definitions

* `Engine.Finds` — what it takes that a built-in solver finds an optimum of a model
* `Model.declared?` — the names of a model, standing for themselves
* `Result.Reports` — a result with the values of the columns and the objective at them

## Main results

* `Family.parse_declared` — an expression over the names and over the columns
* `Engine.dispatch_of_finds` — the result of an optimum
* `Engine.dispatch_builtIn_optimal` — optimal results are those of optima, and report them
-/

namespace OptModel

/-! ### Names -/

/-- The names of a model, standing for themselves. -/
def Model.declared? (model : Model Float) (name : String) : Option String :=
  if name ∈ model.vars.map (·.name) then some name else none

namespace Family

theorem getD_name_of_columnOf? {model : Model Float} {name : String} {i : ℕ}
    (h : columnOf? model name = some i) : (model.vars.map (·.name)).getD i "" = name := by
  rw [List.getD_eq_getElem?_getD, getElem?_of_lastIndex? h, Option.getD_some]

/-- A name stands for itself when it stands for a column. -/
theorem declared?_eq (model : Model Float) (name : String) :
    model.declared? name =
      (columnOf? model name).map fun i => (model.vars.map (·.name)).getD i "" := by
  rw [Model.declared?]
  cases hcolumn : columnOf? model name with
  | some i =>
    have hmem := List.mem_of_getElem? (getElem?_of_lastIndex? hcolumn)
    rw [if_pos hmem, Option.map_some, getD_name_of_columnOf? hcolumn]
  | none =>
    refine if_neg fun hmem => ?_
    obtain ⟨i, hi⟩ := exists_lastIndex? hmem
    exact nomatch hcolumn.symm.trans hi

/-- **An expression over the names** is the one over the columns, with the names of the columns. -/
theorem parse_declared (model : Model Float) (text : String) :
    Expression.parse (R := Float) model.declared? text =
      (Expression.parse (columnOf? model) text).map
        (LinearForm.rename fun i => (model.vars.map (·.name)).getD i "") := by
  rw [funext (declared?_eq model)]
  refine Expression.parse_rename ?_ text
  rintro i ⟨name, hi⟩ j ⟨other, hj⟩ heq
  have hname := (getD_name_of_columnOf? hi).symm.trans (heq.trans (getD_name_of_columnOf? hj))
  exact Option.some.inj (hi.symm.trans (hname ▸ hj))

end Family

/-! ### Assignments of positions -/

namespace Assignment

variable {names : List String} {value : ℕ → Float}

/-- The value of the name at a position is that of the position. -/
theorem value?_ofList_zipIdx (hnames : names.Nodup) {name : String} {i : ℕ}
    (hi : names[i]? = some name) :
    (ofList (names.zipIdx.map fun (name, i) => (name, value i))).value? name = some (value i) := by
  refine value?_ofList ?_ (List.mem_map.2 ⟨(name, i), List.mem_zipIdx_iff_getElem?.2 hi, rfl⟩)
  rw [List.map_map]
  show (names.zipIdx.map Prod.fst).Nodup
  rwa [List.zipIdx_map_fst]

theorem nodup_names (a : Assignment) : a.names.Nodup :=
  List.pairwise_map.2 (a.increasing.imp fun {e f} hlt (heq : e.1 = f.1) =>
    String.lt_irrefl f.1 (heq ▸ hlt))

theorem mem_names_iff {a : Assignment} {name : String} : name ∈ a.names ↔ a.value? name ≠ none := by
  rw [value?, Ne, Option.map_eq_none_iff, List.find?_eq_none, names, List.mem_map]
  push Not
  refine exists_congr fun e => and_congr Iff.rfl ?_
  rw [beq_iff_eq]

/-- An assignment made of entries has their names. -/
theorem mem_names_ofList {values : List (String × Float)} {name : String} :
    name ∈ (ofList values).names ↔ name ∈ values.map Prod.fst := by
  induction values using List.reverseRecOn with
  | nil => exact iff_of_false List.not_mem_nil List.not_mem_nil
  | append_singleton values e ih =>
    rw [mem_names_iff, value?_ofList_append, List.map_append, List.mem_append, ← ih, mem_names_iff]
    by_cases heq : name = e.1
    · rw [if_pos heq]
      exact iff_of_true (Option.some_ne_none _) (.inr (List.mem_singleton.2 heq))
    · rw [if_neg heq]
      exact (or_iff_left fun hmem => heq (List.mem_singleton.1 hmem)).symm

theorem names_ofList_zipIdx (hnames : names.Nodup) :
    (ofList (names.zipIdx.map fun (name, i) => (name, value i))).names.Perm names := by
  rw [List.perm_ext_iff_of_nodup (nodup_names _) hnames]
  intro name
  rw [mem_names_ofList, List.map_map]
  show name ∈ names.zipIdx.map Prod.fst ↔ _
  rw [List.zipIdx_map_fst]

end Assignment

/-! ### Options -/

/-- The directives that are options. -/
inductive Directive.IsOption {R : Type} : Directive R → Prop where
  | timeLimit (millis : ℕ) : IsOption (.timeLimit millis)
  | threads (n : UInt32) : IsOption (.threads n)
  | randomSeed (n : UInt64) : IsOption (.randomSeed n)
  | gapTolerance (gap : Float) : IsOption (.gapTolerance gap)

/-- Options change nothing about a program but its time limit. -/
theorem Program.foldl_tell_options {directives : List (Directive Float)}
    (h : ∀ d ∈ directives, d.IsOption) (program : Program Float) :
    ∃ limit, directives.foldl tell program = { program with timeLimit := limit } := by
  induction directives generalizing program with
  | nil => exact ⟨program.timeLimit, rfl⟩
  | cons d directives ih =>
    obtain ⟨hd, hrest⟩ := List.forall_mem_cons.1 h
    obtain ⟨limit, hlimit⟩ := ih hrest (program.tell d)
    refine ⟨limit, hlimit.trans ?_⟩
    cases hd with
    | timeLimit => rfl
    | threads => rfl
    | randomSeed => rfl
    | gapTolerance => rfl

theorem Family.isOption_of_mem_settings {family : Family} {config : Config} :
    ∀ d ∈ family.settings config, d.IsOption := by
  have hoption {α : Type} {f : α → Directive Float} (hf : ∀ a, (f a).IsOption) (o : Option α) :
      ∀ d ∈ (o.map f).toList, d.IsOption := by
    cases o with
    | none => exact List.forall_mem_nil _
    | some a => exact List.forall_mem_singleton.2 (hf a)
  rw [settings]
  simp only [List.forall_mem_append]
  refine ⟨⟨⟨hoption .threads _, hoption .randomSeed _⟩, ?_⟩, ?_⟩
  · split
    · exact List.forall_mem_nil _
    · exact hoption .timeLimit _
  · split
    · exact hoption .gapTolerance _
    · exact List.forall_mem_nil _

/-! ### Optima -/

/-- **A built-in solver finds an optimum** of a model: all checks are passed, there is a solver, the
model has a program, the relaxation does not settle it as unbounded, and what the optimiser answers
to it is an optimum at these values of the columns. -/
inductive Engine.Finds (serve : Backend → Except String Backend) (optimizer : Optimizer)
    (model : Model Float) (config : Config) (value : ℕ → Float) : Prop where
  | intro {family : Family} {served : Backend} {program : Program Float}
    (haccepts : Accepts model config family model none)
    (hserve : serve config.backend = .ok served)
    (hstage : family.stage Binary64.infinity model = .ok program)
    (hsettled : Solver.isUnboundedByRelaxation optimizer program = false)
    (hanswer : optimizer program.problem = .optimal value)

/-- **A result that reports an optimum**: its values are those of the columns under the names of the
variables, and its objective value is what reading the objective over these names and evaluating it
at these values gives. -/
structure Result.Reports (model : Model Float) (value : ℕ → Float) (result : Result) : Prop where
  status : result.status = .optimal
  values : ∃ values, result.values = some values ∧
    values.names.Perm (model.vars.map (·.name)) ∧
    (∀ i v, model.vars[i]? = some v → values.value? v.name = some (value i)) ∧
    ∃ form, Expression.parse model.declared? model.objective.expression = .ok form ∧
      result.objectiveValue =
        some (form.evaluate (fun name => (values.value? name).getD 0.0) + 0.0)
  objectiveValue : ∀ x ∈ result.objectiveValue, x ≠ -0.0

namespace Solver

variable {optimizer : Optimizer} {solver after : Solver} {program : Program Float}
  {limit : Option ℕ} {value : ℕ → Float}

/-- A solve ends optimal when the optimiser answers with an optimum. The time limit is no part of
what the optimiser is asked. -/
theorem solve_of_optimal (hprogram : solver.program = { program with timeLimit := limit })
    (hsettled : isUnboundedByRelaxation optimizer program = false)
    (hanswer : optimizer program.problem = .optimal value) :
    solver.solve optimizer = (.optimal,
      { solver with
        values := (List.range program.columns.length).map value
        gap := if program.isInteger then some 0.0 else none }) := by
  have hsettled' : isUnboundedByRelaxation optimizer solver.program = false := by
    rw [hprogram]
    exact hsettled
  have hanswer' : optimizer solver.program.problem = .optimal value := by
    rw [hprogram]
    exact hanswer
  rw [solve, hsettled', hanswer', absorb, hprogram]
  rfl

/-- A solve ends optimal only when the optimiser answers with an optimum. -/
theorem exists_optimal_of_solve (hprogram : solver.program = { program with timeLimit := limit })
    (h : solver.solve optimizer = (.optimal, after)) :
    isUnboundedByRelaxation optimizer program = false ∧
      ∃ value, optimizer program.problem = .optimal value := by
  have hsame : isUnboundedByRelaxation optimizer solver.program =
      isUnboundedByRelaxation optimizer program := by
    rw [hprogram]
    rfl
  have hproblem : solver.program.problem = program.problem := by
    rw [hprogram]
    rfl
  rw [solve, hsame, hproblem] at h
  split at h
  · exact nomatch (Prod.mk.inj h).1
  · next hsettled =>
    refine ⟨Bool.eq_false_iff.2 hsettled, ?_⟩
    cases hanswer : optimizer program.problem with
    | optimal value => exact ⟨value, rfl⟩
    | infeasible =>
      rw [hanswer] at h
      exact nomatch (Prod.mk.inj h).1
    | unbounded =>
      rw [hanswer] at h
      exact nomatch (Prod.mk.inj h).1
    | failed =>
      rw [hanswer] at h
      exact nomatch (Prod.mk.inj h).1

end Solver

namespace Engine

variable {name : String} {serve : Backend → Except String Backend} {optimizer : Optimizer}
  {model built : Model Float} {config : Config} {value : ℕ → Float} {family : Family}
  {program : Program Float}

/-- A built-in solver that has been told a model and options holds the program of the model, up to
its time limit. -/
theorem exists_program_tellAll (name : String) (serve : Backend → Except String Backend)
    (optimizer : Optimizer) (config : Config) (served : Backend)
    {directives : List (Directive Float)}
    (htells : family.Tells Binary64.infinity model directives none)
    (hstage : family.stage Binary64.infinity model = .ok program) :
    ∃ limit, (Family.tellAll (builtIn name serve optimizer) ({ backend := served } : Solver)
      (directives ++ family.settings config) : Solver).program =
        { program with timeLimit := limit } := by
  have hdirectives := Family.directives_eq_iff.2 htells
  have hprogram := Family.stage_of_eq_none (congrArg Prod.snd hdirectives)
  rw [hdirectives, hstage] at hprogram
  rw [Family.program_tellAll, List.foldl_append, ← Except.ok.inj hprogram]
  exact Program.foldl_tell_options Family.isOption_of_mem_settings program

theorem solve_builtIn_eq_iff {solver after : Solver} {status : Engine.Status} :
    (builtIn name serve optimizer).solve solver = (.status status, after) ↔
      solver.solve optimizer = (status, after) := by
  rcases hsolve : solver.solve optimizer with ⟨status', after'⟩
  have hbuiltIn : (builtIn name serve optimizer).solve solver = (.status status', after') := by
    simp only [builtIn, hsolve]
  rw [hbuiltIn]
  constructor
  · intro h
    obtain ⟨hstatus, hafter⟩ := Prod.mk.inj h
    exact Prod.ext (Answer.status.inj hstatus) hafter
  · intro h
    obtain ⟨hstatus, hafter⟩ := Prod.mk.inj h
    exact Prod.ext (congrArg Answer.status hstatus) hafter

/-- **The result of an optimum.** -/
theorem dispatch_of_finds (name : String)
    (hfinds : Finds serve optimizer model config value) :
    ∃ (family : Family) (program : Program Float) (values : List Float),
      family.stage Binary64.infinity model = .ok program ∧
      values = (List.range program.columns.length).map value ∧
      ((builtIn name serve optimizer).dispatch model config).2 =
        { status := .optimal
          objectiveValue := some (program.objectiveAt values)
          values := some (.ofList ((model.vars.map (·.name)).zipIdx.map fun (name, i) =>
            (name, Program.valueOf values i)))
          gap := if family.readsGap then
            if program.isInteger then some 0.0 else none else none } := by
  obtain @⟨family, served, program, haccepts, hserve, hstage, hsettled, hanswer⟩ := hfinds
  have hcreate : (builtIn name serve optimizer).create config.backend =
      .ok ({ backend := served } : Solver) := by
    show (serve config.backend).map _ = _
    rw [hserve]
    rfl
  rcases hall : family.directives Binary64.infinity model with ⟨directives, fault?⟩
  obtain rfl : fault? = none := by
    rw [Family.stage, hall] at hstage
    cases fault? with
    | none => rfl
    | some fault => cases hstage
  have htells := Family.directives_eq_iff.1 hall
  obtain ⟨limit, hlimit⟩ := exists_program_tellAll name serve optimizer config served htells hstage
  have hsolve := Solver.solve_of_optimal hlimit hsettled hanswer
  have hanswered := Conversation.answered haccepts hcreate htells (by simp)
    (solve_builtIn_eq_iff.2 hsolve)
  refine ⟨family, program, _, hstage, rfl, ?_⟩
  rw [hanswered.dispatch_eq]
  rw [hlimit]
  rfl

/-- A result with optimal status is that of an optimum. -/
theorem exists_finds (htype : model.type ≠ .vehicleRouting)
    (h : ((builtIn name serve optimizer).dispatch model config).2.status = .optimal) :
    ∃ value, Finds serve optimizer model config value := by
  obtain ⟨calls, result, hconversation⟩ :=
    exists_conversation (builtIn name serve optimizer) model config
  rw [hconversation.dispatch_eq] at h
  cases hconversation with
  | rejected => exact nomatch h
  | refused => exact nomatch h
  | cut => exact nomatch h
  | stayed haccepts => exact absurd (haccepts.isSome_plan_iff.1 rfl) htype
  | crashed => exact nomatch h
  | @answered family built plan solver after directives status haccepts hcreate htells hdrive
      hsolve =>
    obtain ⟨served, hserve, rfl⟩ := Except.map_eq_ok_iff.1 hcreate
    obtain ⟨hplan, hbuilt⟩ : plan = none ∧ built = model := by
      cases haccepts with
      | linear => exact ⟨rfl, rfl⟩
      | mixedInteger => exact ⟨rfl, rfl⟩
      | constraint => exact ⟨rfl, rfl⟩
      | routing _ _ hrouting => exact absurd hrouting htype
    subst hplan hbuilt
    have hstatus : status = .optimal := by
      cases status with
      | optimal => rfl
      | feasible => exact nomatch h
      | infeasible => exact nomatch h
      | unbounded => exact nomatch h
      | abnormal => exact nomatch h
      | modelInvalid => exact nomatch h
      | notSolved => exact nomatch h
    subst hstatus
    have hdirectives := Family.directives_eq_iff.2 htells
    have hstage := Family.stage_of_eq_none (congrArg Prod.snd hdirectives)
    obtain ⟨limit, hlimit⟩ :=
      exists_program_tellAll name serve optimizer config served htells hstage
    obtain ⟨hsettled, value, hanswer⟩ :=
      Solver.exists_optimal_of_solve hlimit (solve_builtIn_eq_iff.1 hsolve)
    exact ⟨value, haccepts, hserve, hstage, hsettled, hanswer⟩

/-- What is read off the columns: the value of every column, and the objective at these values. -/
theorem reports_of_finds (hfinds : Finds serve optimizer model config value) :
    ((builtIn name serve optimizer).dispatch model config).2.Reports model value := by
  have hnames : (model.vars.map (·.name)).Nodup := by
    cases hfinds with
    | intro haccepts => exact Model.nodup_names haccepts.isWellFormed
  obtain ⟨family, program, values, hstage, rfl, hresult⟩ := dispatch_of_finds name hfinds
  obtain ⟨rows, objective, hterms, rfl⟩ := Family.stage_eq_ok_iff.1 hstage
  have hlength : (family.assemble Binary64.infinity model rows objective).columns.length =
      model.vars.length := List.length_map _
  rw [hlength] at hresult
  -- every column has the value that the optimiser gave it
  have hvalue : ∀ i, i < model.vars.length →
      Program.valueOf ((List.range model.vars.length).map value) i = value i := by
    intro i hi
    rw [Program.valueOf, List.getD_eq_getElem?_getD, List.getElem?_map, List.getElem?_range hi]
    rfl
  have hread : ∀ i name, (model.vars.map (·.name))[i]? = some name →
      (Assignment.ofList ((model.vars.map (·.name)).zipIdx.map fun (name, i) =>
        (name, Program.valueOf ((List.range model.vars.length).map value) i))).value? name =
          some (value i) := by
    intro i name hi
    obtain ⟨hlt, -⟩ := List.getElem?_eq_some_iff.1 hi
    rw [List.length_map] at hlt
    rw [Assignment.value?_ofList_zipIdx hnames hi, hvalue i hlt]
  have hform : Expression.parse (Family.columnOf? model) model.objective.expression =
      .ok (.ofTerms objective) := by
    rw [Expression.parse_eq, hterms.objective]
    rfl
  rw [hresult]
  refine ⟨rfl, ⟨_, rfl, Assignment.names_ofList_zipIdx hnames, ?_, ?_⟩, ?_⟩
  · intro i v hv
    exact hread i v.name (by rw [List.getElem?_map, hv]; rfl)
  · refine ⟨_, by rw [Family.parse_declared, hform]; rfl, congrArg some ?_⟩
    show LinearForm.evaluate _ _ + 0.0 = _ + 0.0
    rw [LinearForm.evaluate_rename]
    refine congrArg (· + 0.0) (LinearForm.evaluate_congr fun t ht => ?_)
    obtain ⟨name, hname⟩ := Expression.exists_name_of_parse hform t ht
    have hcolumn := Family.getElem?_of_lastIndex? hname
    obtain ⟨hlt, -⟩ := List.getElem?_eq_some_iff.1 hcolumn
    rw [List.length_map] at hlt
    rw [Family.getD_name_of_columnOf? hname, hread t.1 name hcolumn, hvalue t.1 hlt]
    rfl
  · intro x hx
    rw [← Option.some.inj hx]
    exact Binary64.add_zero_ne _

/-- **Values and objective belong together.** Unless it is a routing problem, the result of a model
solved with a built-in solver has optimal status just when the solver finds an optimum, and then it
reports that optimum. -/
theorem dispatch_builtIn_optimal (name : String) (serve : Backend → Except String Backend)
    (optimizer : Optimizer) (model : Model Float) (config : Config)
    (htype : model.type ≠ .vehicleRouting) :
    (((builtIn name serve optimizer).dispatch model config).2.status = .optimal ↔
      ∃ value, Finds serve optimizer model config value) ∧
    ∀ value, Finds serve optimizer model config value →
      ((builtIn name serve optimizer).dispatch model config).2.Reports model value :=
  ⟨⟨exists_finds htype, fun ⟨_, hfinds⟩ => (reports_of_finds hfinds).status⟩,
    fun _ hfinds => reports_of_finds hfinds⟩

/-- Two amounts, of which the first counts twice. -/
def amounts : Model Float where
  type := .linearProgramming
  vars := [{ name := "x", lowerBound := some 0.0, upperBound := some 3.0 },
    { name := "y", lowerBound := some 0.0, upperBound := some 1.0 }]
  objective := { sense := .maximize, expression := "y + 2*x" }

/-- Three of the first amount and one of the second. -/
def amountsBest (column : ℕ) : Float := if column = 0 then 3.0 else 1.0

theorem dispatch_builtIn_optimal_amounts :
    amounts.type ≠ .vehicleRouting ∧
      Finds .ok (fun _ => .optimal amountsBest) amounts {} amountsBest ∧
      ((builtIn "amounts" .ok fun _ => .optimal amountsBest).dispatch amounts {}).2.status =
        .optimal ∧
      ((builtIn "amounts" .ok fun _ => .optimal amountsBest).dispatch amounts {}).2.Reports
        amounts amountsBest := by
  have hfinds : Finds .ok (fun _ => .optimal amountsBest) amounts {} amountsBest :=
    .intro (.linear (by decide) (by decide) rfl) rfl rfl rfl rfl
  obtain ⟨hstatus, hreports⟩ := dispatch_builtIn_optimal "amounts" .ok
    (fun _ => .optimal amountsBest) amounts {} (by decide)
  exact ⟨by decide, hfinds, hstatus.2 ⟨_, hfinds⟩, hreports _ hfinds⟩

end Engine

end OptModel
