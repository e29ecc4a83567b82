import OptModel.Proofs.Dispatch.Reported

/-!
# What a solver serves

A solver lives through a history: it is told columns, rows, objectives and options, and it is asked
to solve, any number of times and in any order. Nothing is assumed of what answers. Another
optimiser may answer every time, with any values, and no two answers need to agree.

What can be read from a solver at the end depends on its history in a way that does not mention what
the solver stores. `Serves` says it by the last solve: before the first one there is nothing, after
an optimum there are the values of the columns of that time, and after any other end there is
nothing again. What was found by an earlier solve is never seen, and neither is a value that belongs
to another column.

## Main definitions

* `Solver.Step`, `Solver.after` — histories and the solver at their end
* `Solver.History.program`, `columns`, `objective` — what a history says
* `Solver.handles` — the numbers that are handed out for columns
* `Solver.Serves` — what can be read after a history

## Main results

* `Solver.value_tell`, `Solver.value_of_optimal`, `Solver.solve_of_ne_optimal` — what one step does
* `Solver.serves_iff` — what is served is what can be read
* `Solver.serves_last_solve` — what is served after any history
-/

namespace OptModel.Solver

/-! ### Histories -/

/-- What is done with a solver: it is told a directive or asked to solve, and then `optimizer`
answers. -/
inductive Step where
  | tell (directive : Directive Float)
  | solve (optimizer : Optimizer)

namespace Step

/-- What a step tells. -/
def directive? : Step → Option (Directive Float)
  | tell directive => some directive
  | solve _ => none

/-- Whether a step asks to solve. -/
def IsSolve : Step → Prop
  | tell _ => False
  | solve _ => True

/-- The column that a step adds: three kinds of steps add one. -/
def column? : Step → Option (Column Float)
  | tell (.realColumn name lower upper) => some ⟨name, .continuous, lower, upper⟩
  | tell (.integerColumn name lower upper) => some ⟨name, .integer, lower, upper⟩
  | tell (.binaryColumn name) => some ⟨name, .binary, 0.0, 1.0⟩
  | _ => none

/-- The objective that a step sets. -/
def objective? : Step → Option (LinearForm ℕ Float)
  | tell (.objective form _) => some form
  | _ => none

end Step

/-- The solver after one step more. -/
def next (solver : Solver) : Step → Solver
  | .tell directive => solver.tell directive
  | .solve optimizer => (solver.solve optimizer).2

/-- A new solver for `backend` after a history. -/
def after (backend : Backend) (history : List Step) : Solver := history.foldl next { backend }

/-- The number that a step hands out, if it adds a column: that of the columns there are. -/
def handle? (solver : Solver) (step : Step) : Option ℕ :=
  step.column?.map fun _ => solver.program.columns.length

/-- The numbers that are handed out one after the other. -/
def handles (solver : Solver) : List Step → List ℕ
  | [] => []
  | step :: steps => (solver.handle? step).toList ++ handles (solver.next step) steps

/-! ### What a history says -/

namespace History

/-- The columns that a history adds. -/
def columns (history : List Step) : List (Column Float) := history.filterMap Step.column?

/-- The objective that a history sets last. -/
def objective (history : List Step) : LinearForm ℕ Float :=
  (history.filterMap Step.objective?).getLast?.getD .empty

/-- The program that a history tells. -/
def program (history : List Step) : Program Float :=
  (history.filterMap Step.directive?).foldl Program.tell .empty

end History

/-- **What a solver serves** after a history: a value for every handle, and a gap. -/
inductive Serves (backend : Backend) : List Step → (ℕ → Float) → Option Float → Prop where
  /-- Nothing was solved. -/
  | unsolved {history : List Step} (hquiet : ∀ step ∈ history, ¬ step.IsSolve) :
    Serves backend history (fun _ => 0.0) none
  /-- The last solve ended optimal. Columns that came later have no value yet. -/
  | optimum {before later : List Step} {optimizer : Optimizer} {value : ℕ → Float}
    (hquiet : ∀ step ∈ later, ¬ step.IsSolve)
    (hstatus : ((after backend before).solve optimizer).1 = .optimal)
    (hanswer : optimizer (History.program before).problem = .optimal value) :
    Serves backend (before ++ .solve optimizer :: later)
      (fun i => if i < (History.columns before).length then value i else 0.0)
      (if ∃ c ∈ History.columns before, c.kind = .integer ∨ c.kind = .binary then some 0.0
        else none)
  /-- The last solve ended otherwise. -/
  | nothing {before later : List Step} {optimizer : Optimizer}
    (hquiet : ∀ step ∈ later, ¬ step.IsSolve)
    (hstatus : ((after backend before).solve optimizer).1 ≠ .optimal) :
    Serves backend (before ++ .solve optimizer :: later) (fun _ => 0.0) none

variable {backend : Backend} {solver : Solver} {optimizer : Optimizer} {history : List Step}

/-! ### The program -/

theorem after_append (before later : List Step) :
    after backend (before ++ later) = later.foldl next (after backend before) :=
  List.foldl_append

theorem after_concat (step : Step) :
    after backend (history ++ [step]) = (after backend history).next step :=
  after_append history [step]

theorem absorb_program (verdict : Verdict Float) :
    (solver.absorb verdict).2.program = solver.program := by
  cases verdict <;> rfl

/-- Solving leaves the program alone. -/
theorem solve_program : (solver.solve optimizer).2.program = solver.program := by
  rw [solve]
  split
  · rfl
  · exact absorb_program _

theorem next_program (step : Step) :
    (solver.next step).program = step.directive?.toList.foldl Program.tell solver.program := by
  cases step with
  | tell directive => rfl
  | solve optimizer => exact solve_program

/-- A solver keeps the program that it has been told. -/
theorem program_after (backend : Backend) (history : List Step) :
    (after backend history).program = History.program history := by
  induction history using List.reverseRecOn with
  | nil => rfl
  | append_singleton history step ih =>
    rw [after_concat, next_program, ih, History.program, History.program, List.filterMap_append,
      List.foldl_append]
    cases step <;> rfl

/-- A step adds its column to those that there are. -/
theorem next_columns (step : Step) :
    (solver.next step).program.columns = solver.program.columns ++ step.column?.toList := by
  cases step with
  | tell directive =>
    cases directive with
    | realColumn | integerColumn | binaryColumn => rfl
    | row | objective | timeLimit | threads | randomSeed | gapTolerance =>
      exact (List.append_nil _).symm
  | solve optimizer => simp [next, solve_program, Step.column?]

theorem columns_after (backend : Backend) (history : List Step) :
    (after backend history).program.columns = History.columns history := by
  induction history using List.reverseRecOn with
  | nil => rfl
  | append_singleton history step ih =>
    rw [after_concat, next_columns, ih, History.columns, History.columns, List.filterMap_append]
    cases hcolumn : step.column? <;> simp [hcolumn]

/-- An objective stays until the next one. -/
theorem next_objective (step : Step) :
    (solver.next step).program.objective = step.objective?.getD solver.program.objective := by
  cases step with
  | tell directive => cases directive <;> rfl
  | solve optimizer => exact congrArg Program.objective solve_program

theorem objective_after (backend : Backend) (history : List Step) :
    (after backend history).program.objective = History.objective history := by
  induction history using List.reverseRecOn with
  | nil => rfl
  | append_singleton history step ih =>
    rw [after_concat, next_objective, ih, History.objective, History.objective,
      List.filterMap_append]
    cases hobjective : step.objective? <;> simp [hobjective]

/-- **Handles are handed out in order.** A solver that has columns goes on counting. -/
theorem handles_eq (solver : Solver) (history : List Step) :
    solver.handles history =
      List.range' solver.program.columns.length (History.columns history).length := by
  induction history generalizing solver with
  | nil => rfl
  | cons step history ih =>
    rw [handles, ih, next_columns, handle?, History.columns, History.columns, List.filterMap_cons]
    cases step.column? with
    | none => simp
    | some c => simp [List.range'_succ]

/-! ### Steps -/

/-- Telling changes nothing that can be read. -/
theorem value_tell (solver : Solver) (directive : Directive Float) :
    (solver.tell directive).value = solver.value ∧ (solver.tell directive).gap = solver.gap :=
  ⟨rfl, rfl⟩

/-- A solve that does not end optimal leaves nothing. There are three ways: the relaxation settles
it, the optimiser says that there is no optimum, or it fails. -/
theorem solve_of_ne_optimal (h : (solver.solve optimizer).1 ≠ .optimal) :
    (solver.solve optimizer).2 = solver.forget := by
  rw [solve] at h ⊢
  split at h
  · next hsettled => rw [if_pos hsettled]
  · next hsettled =>
    rw [if_neg hsettled]
    cases hanswer : optimizer solver.program.problem with
    | optimal value =>
      rw [hanswer] at h
      exact absurd rfl h
    | infeasible => rfl
    | unbounded => rfl
    | failed => rfl

/-- Behind an optimum there is an answer of the optimiser. -/
theorem exists_answer_of_optimal (h : (solver.solve optimizer).1 = .optimal) :
    ∃ value, optimizer solver.program.problem = .optimal value :=
  (exists_optimal_of_solve rfl (Prod.ext h rfl)).2

/-- The values of the columns that there are, and zero behind them. -/
theorem valueOf_map_range (value : ℕ → Float) (n i : ℕ) :
    Program.valueOf ((List.range n).map value) i = if i < n then value i else 0.0 := by
  rw [Program.valueOf, List.getD_eq_getElem?_getD, List.getElem?_map]
  split
  · next hi => rw [List.getElem?_range hi, Option.map_some, Option.getD_some]
  · next hi =>
    rw [List.getElem?_eq_none (by simp only [List.length_range]; omega), Option.map_none,
      Option.getD_none]
    rfl

theorem isInteger_iff {program : Program Float} :
    program.isInteger = true ↔ ∃ c ∈ program.columns, c.kind = .integer ∨ c.kind = .binary := by
  rw [Program.isInteger, List.any_eq_true]
  refine exists_congr fun c => and_congr_right fun _ => ?_
  cases c.kind <;> decide

/-- What a solve that ends optimal leaves. -/
theorem value_of_optimal {value : ℕ → Float} (h : (solver.solve optimizer).1 = .optimal)
    (hanswer : optimizer solver.program.problem = .optimal value) :
    (solver.solve optimizer).2.value =
        (fun i => if i < solver.program.columns.length then value i else 0.0) ∧
      (solver.solve optimizer).2.gap =
        if ∃ c ∈ solver.program.columns, c.kind = .integer ∨ c.kind = .binary then some 0.0
        else none := by
  have hsettled := (exists_optimal_of_solve rfl (Prod.ext h rfl)).1
  rw [solve_of_optimal rfl hsettled hanswer]
  constructor
  · funext i
    exact valueOf_map_range value _ i
  · exact if_congr isInteger_iff rfl rfl

/-! ### Runs -/

/-- As long as nothing is solved, what can be read stays. -/
theorem value_foldl_next {later : List Step} (hquiet : ∀ step ∈ later, ¬ step.IsSolve)
    (solver : Solver) :
    (later.foldl next solver).value = solver.value ∧
      (later.foldl next solver).gap = solver.gap := by
  induction later generalizing solver with
  | nil => exact ⟨rfl, rfl⟩
  | cons step later ih =>
    obtain ⟨hstep, hlater⟩ := List.forall_mem_cons.1 hquiet
    obtain ⟨hvalue, hgap⟩ := ih hlater (solver.next step)
    cases step with
    | solve optimizer => exact absurd trivial hstep
    | tell directive => exact ⟨hvalue, hgap⟩

/-- What follows the last solve does not matter. -/
theorem value_after_solve {before later : List Step} (hquiet : ∀ step ∈ later, ¬ step.IsSolve) :
    (after backend (before ++ .solve optimizer :: later)).value =
        ((after backend before).solve optimizer).2.value ∧
      (after backend (before ++ .solve optimizer :: later)).gap =
        ((after backend before).solve optimizer).2.gap := by
  rw [after_append, List.foldl_cons]
  exact value_foldl_next hquiet _

/-- What is served is what can be read. -/
theorem Serves.eq {values : ℕ → Float} {gap : Option Float}
    (h : Serves backend history values gap) :
    values = (after backend history).value ∧ gap = (after backend history).gap := by
  cases h with
  | unsolved hquiet =>
    obtain ⟨hvalue, hgap⟩ := value_foldl_next hquiet { backend }
    exact ⟨hvalue.symm, hgap.symm⟩
  | optimum hquiet hstatus hanswer =>
    obtain ⟨hvalue, hgap⟩ := value_after_solve hquiet
    rw [← program_after backend] at hanswer
    obtain ⟨hvalue', hgap'⟩ := value_of_optimal hstatus hanswer
    rw [hvalue, hgap, hvalue', hgap', columns_after]
    exact ⟨rfl, rfl⟩
  | nothing hquiet hstatus =>
    obtain ⟨hvalue, hgap⟩ := value_after_solve hquiet
    rw [hvalue, hgap, solve_of_ne_optimal hstatus]
    exact ⟨rfl, rfl⟩

/-- What is told next is quiet too. -/
theorem Serves.tell {values : ℕ → Float} {gap : Option Float}
    (h : Serves backend history values gap) (directive : Directive Float) :
    Serves backend (history ++ [.tell directive]) values gap := by
  have hquiet {later : List Step} (hlater : ∀ step ∈ later, ¬ step.IsSolve) :
      ∀ step ∈ later ++ [.tell directive], ¬ step.IsSolve :=
    List.forall_mem_append.2 ⟨hlater, List.forall_mem_singleton.2 id⟩
  cases h with
  | unsolved hlater => exact .unsolved (hquiet hlater)
  | optimum hlater hstatus hanswer =>
    rw [List.append_assoc, List.cons_append]
    exact .optimum (hquiet hlater) hstatus hanswer
  | nothing hlater hstatus =>
    rw [List.append_assoc, List.cons_append]
    exact .nothing (hquiet hlater) hstatus

/-- Something is served after every history, by induction on it from its end. -/
theorem exists_serves (backend : Backend) (history : List Step) :
    ∃ values gap, Serves backend history values gap := by
  induction history using List.reverseRecOn with
  | nil => exact ⟨_, _, .unsolved (List.forall_mem_nil _)⟩
  | append_singleton history step ih =>
    cases step with
    | tell directive =>
      obtain ⟨values, gap, h⟩ := ih
      exact ⟨values, gap, h.tell directive⟩
    | solve optimizer =>
      by_cases hstatus : ((after backend history).solve optimizer).1 = .optimal
      · obtain ⟨value, hanswer⟩ := exists_answer_of_optimal hstatus
        rw [program_after] at hanswer
        exact ⟨_, _, .optimum (List.forall_mem_nil _) hstatus hanswer⟩
      · exact ⟨_, _, .nothing (List.forall_mem_nil _) hstatus⟩

theorem serves_iff {values : ℕ → Float} {gap : Option Float} :
    Serves backend history values gap ↔
      values = (after backend history).value ∧ gap = (after backend history).gap := by
  constructor
  · exact Serves.eq
  · rintro ⟨rfl, rfl⟩
    obtain ⟨values, gap, h⟩ := exists_serves backend history
    obtain ⟨rfl, rfl⟩ := h.eq
    exact h

/-- **What a solver serves is what its last solve has found**, after every history. Its handles
count the columns that it was told, it has these columns in their order, and the next one gets the
next number. Its objective is the current one at the values that can be read, and nothing but a
solve changes what can be read. -/
theorem serves_last_solve (backend : Backend) (history : List Step) :
    (∀ values gap, Serves backend history values gap ↔
        values = (after backend history).value ∧ gap = (after backend history).gap) ∧
      handles { backend } history = List.range (History.columns history).length ∧
      (after backend history).program.columns = History.columns history ∧
      (∀ c, ((after backend history).program.addColumn c).1 = (History.columns history).length) ∧
      (after backend history).objectiveValue =
        (History.objective history).evaluate (after backend history).value + 0.0 ∧
      ∀ directive,
        ((after backend history).tell directive).value = (after backend history).value ∧
          ((after backend history).tell directive).gap = (after backend history).gap := by
  refine ⟨fun _ _ => serves_iff, ?_, columns_after backend history, fun c => ?_, ?_,
    fun directive => value_tell _ directive⟩
  · rw [handles_eq, List.range_eq_range']
    rfl
  · rw [← columns_after backend]
    rfl
  · rw [← objective_after backend]
    rfl

end OptModel.Solver
