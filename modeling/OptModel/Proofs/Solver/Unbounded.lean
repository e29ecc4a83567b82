import OptModel.Solver.Basic
import OptModel.Proofs.Solver.Rays

/-!
# Solves that end unbounded

When an integer column is open on one side, the relaxation decides whether a solve ends unbounded
and the optimiser is not handed the integer program at all. For a program that can be satisfied this
is right: it is unbounded when its relaxation is. A program that can be satisfied by fractions only
ends unbounded as well, although nothing satisfies it (`Solver.solve_pinned_one`).

## Main definitions

* `Program.HasOpenInteger` — an integer column that is open on one side
* `Optimizer.IsExactOn` — being right about all that is handed over
* `Program.pinned` — programs with an open integer column and a binary column pinned by a row

## Main results

* `Solver.relaxation_decides` — the relaxation decides when something satisfies the program
* `Solver.solve_eq_unbounded_iff` — so a solve ends unbounded when the program is unbounded
* `Solver.solve_unbounded_satisfied` — what a solve that ends unbounded says of satisfying values
-/

namespace OptModel

/-! ### Open integer columns -/

namespace Program

variable {program : Program Float}

/-- Whether an integer column is open on one side. -/
def HasOpenInteger (program : Program Float) : Prop :=
  ∃ c ∈ program.columns, c.kind = .integer ∧ ¬ (c.lower.isFinite ∧ c.upper.isFinite)

/-- The relaxation has real columns only. -/
theorem isContinuous_relaxation (program : Program Float) : program.relaxation.IsContinuous :=
  List.forall_mem_map.2 fun _ _ => rfl

/-- Binary columns are never open. -/
theorem Tidy.hasOpenIntegerColumn_iff (h : program.Tidy) :
    program.hasOpenIntegerColumn = true ↔ program.HasOpenInteger := by
  rw [hasOpenIntegerColumn, List.any_eq_true]
  refine exists_congr fun c => and_congr_right fun hc => ?_
  have hopen : (!(Scalar.isFinite c.lower && Scalar.isFinite c.upper)) = true ↔
      ¬ (c.lower.isFinite ∧ c.upper.isFinite) := by
    rw [Bool.not_eq_true', Bool.eq_false_iff, Ne, Bool.and_eq_true]
    rfl
  rw [Bool.and_eq_true, hopen]
  refine and_congr_left fun hnot => ?_
  cases hkind : c.kind with
  | continuous => exact iff_of_false nofun nofun
  | integer => exact iff_of_true rfl rfl
  | binary =>
    obtain ⟨hlower, hupper⟩ := h.binary c hc hkind
    rw [hlower, hupper] at hnot
    exact absurd (by decide) hnot

/-! ### A binary column pinned by a row -/

/-- A column, integer or real, to grow without end, and a binary column that is half of `rhs`. -/
def pinned (isInteger : Bool) (rhs : Float) : Program Float :=
  [if isInteger then .integerColumn "x" 0.0 Binary64.infinity
    else .realColumn "x" 0.0 Binary64.infinity,
    .binaryColumn "b", .row ⟨[(1, 2.0)]⟩ .equal rhs, .objective ⟨[(0, 1.0)]⟩ .maximize].foldl
      tell .empty

variable {isInteger : Bool} {rhs : Float}

theorem isTold_pinned (h : rhs.isFinite) : (pinned isInteger rhs).IsTold := by
  refine ⟨_, ?_, rfl⟩
  rintro d (_ | ⟨_, _ | ⟨_, _ | ⟨_, _ | ⟨_, ⟨⟩⟩⟩⟩⟩)
  · cases isInteger <;> exact trivial
  · exact trivial
  · exact ⟨List.forall_mem_singleton.2 (by decide), h⟩
  · exact List.forall_mem_singleton.2 (by decide)

theorem hasOpenInteger_pinned_iff : (pinned isInteger rhs).HasOpenInteger ↔ isInteger = true := by
  cases isInteger with
  | true => exact iff_of_true ⟨_, List.mem_cons_self, rfl, by decide⟩ rfl
  | false =>
    refine iff_of_false ?_ Bool.false_ne_true
    rintro ⟨c, _ | ⟨_, _ | ⟨_, ⟨⟩⟩⟩, hkind, -⟩
    · exact nomatch hkind
    · exact nomatch hkind

/-- The pinned program as a problem, its columns given. -/
def pinnedProblem (columns : List (Problem.Column Float)) (rhs : Float) : Problem Float where
  columns := columns
  rows := [⟨(⟨[(1, 2.0)]⟩ : LinearForm ℕ Float).nonzero, .equal, rhs⟩]
  objective := (⟨[(0, 1.0)]⟩ : LinearForm ℕ Float).nonzero
  direction := .maximize

theorem problem_pinned (isInteger : Bool) (rhs : Float) :
    (pinned isInteger rhs).problem =
      pinnedProblem [⟨isInteger, 0.0, Binary64.infinity⟩, ⟨true, 0.0, 1.0⟩] rhs := by
  cases isInteger <;> rfl

theorem relaxation_pinned (isInteger : Bool) (rhs : Float) :
    (pinned isInteger rhs).relaxation =
      pinnedProblem [⟨false, 0.0, Binary64.infinity⟩, ⟨false, 0.0, 1.0⟩] rhs := by
  cases isInteger <;> rfl

/-- What satisfies a pinned program: the values in turn of the column that grows and of the column
that is pinned. -/
theorem satisfied_pinnedProblem_iff {i j : Bool} {x b : ℚ} :
    (pinnedProblem [⟨i, 0.0, Binary64.infinity⟩, ⟨j, 0.0, 1.0⟩] rhs).Satisfied [x, b] ↔
      (0 ≤ x ∧ (i = true → ∃ k : ℤ, x = k)) ∧
        (0 ≤ b ∧ b ≤ 1 ∧ (j = true → ∃ k : ℤ, b = k)) ∧ 2 * b = Binary64.value rhs := by
  have hlower (y : ℚ) : Scalar.atMost (Extended.ofFloat 0.0) (.rational y) = true ↔ 0 ≤ y := by
    rw [Extended.ofFloat_zero, Extended.atMost_rational, decide_eq_true_iff]
  have hopen (y : ℚ) : Scalar.atMost (.rational y) (Extended.ofFloat Binary64.infinity) = true := by
    rw [Extended.ofFloat_infinity]
    rfl
  have hupper (y : ℚ) : Scalar.atMost (.rational y) (Extended.ofFloat 1.0) = true ↔ y ≤ 1 := by
    rw [Extended.ofFloat_one, Extended.atMost_rational, decide_eq_true_iff]
  have hrow : worthOf (⟨[(1, 2.0)]⟩ : LinearForm ℕ Float).nonzero (fun i => [x, b].getD i 0) =
      2 * b := by
    have htwo : Binary64.value 2.0 = 2 := Extended.value_of_toRat? (by decide)
    rw [LinearForm.worthOf_nonzero, LinearForm.worthOf_cons, htwo]
    exact add_zero _
  constructor
  · rintro ⟨-, hcolumns, hrows⟩
    obtain ⟨hx, -, hxint⟩ := hcolumns (_, x) List.mem_cons_self
    obtain ⟨hb, hb', hbint⟩ := hcolumns (_, b) (List.mem_cons_of_mem _ List.mem_cons_self)
    exact ⟨⟨(hlower x).1 hx, hxint⟩, ⟨(hlower b).1 hb, (hupper b).1 hb', hbint⟩,
      hrow.symm.trans (hrows _ List.mem_cons_self)⟩
  · rintro ⟨⟨hx, hxint⟩, ⟨hb, hb', hbint⟩, hpinned⟩
    refine ⟨rfl, ?_, List.forall_mem_singleton.2 (hrow.trans hpinned)⟩
    rintro cv (_ | ⟨_, _ | ⟨_, ⟨⟩⟩⟩)
    · exact ⟨(hlower x).2 hx, hopen x, hxint⟩
    · exact ⟨(hlower b).2 hb, (hupper b).2 hb', hbint⟩

/-- The relaxation is unbounded when a fraction can be pinned. -/
theorem isUnbounded_relaxation_pinned {b : ℚ} (hb : 0 ≤ b ∧ b ≤ 1)
    (hrow : 2 * b = Binary64.value rhs) : (pinned isInteger rhs).relaxation.IsUnbounded := by
  rw [relaxation_pinned]
  intro bound
  refine ⟨[max 0 (bound + 1), b], satisfied_pinnedProblem_iff.2
    ⟨⟨le_max_left 0 (bound + 1), nofun⟩, ⟨hb.1, hb.2, nofun⟩, hrow⟩, ?_⟩
  have hworth : worthOf (⟨[(0, 1.0)]⟩ : LinearForm ℕ Float).nonzero
      (fun i => [max 0 (bound + 1), b].getD i 0) = max 0 (bound + 1) := by
    rw [LinearForm.worthOf_nonzero, LinearForm.worthOf_cons,
      Extended.value_of_toRat? Binary64.toRat?_one, one_mul]
    exact add_zero _
  show bound < worthOf _ _
  rw [pinnedProblem, hworth]
  exact (lt_add_one bound).trans_le (le_max_right 0 (bound + 1))

theorem two_mul_one_eq : 2 * (1 : ℚ) = Binary64.value 2.0 :=
  (mul_one 2).trans (Extended.value_of_toRat? (by decide)).symm

theorem two_mul_half_eq : 2 * (1 / 2 : ℚ) = Binary64.value 1.0 := by
  rw [mul_one_div_cancel two_ne_zero, Extended.value_of_toRat? Binary64.toRat?_one]

theorem satisfied_pinned_two (isInteger : Bool) :
    (pinned isInteger 2.0).exact.Satisfied 0 [0, 1] := by
  refine (satisfied_problem_iff (isTold_pinned (by decide)).tidy).1 ?_
  rw [problem_pinned]
  exact satisfied_pinnedProblem_iff.2
    ⟨⟨le_rfl, fun _ => ⟨0, rfl⟩⟩, ⟨zero_le_one, le_rfl, fun _ => ⟨1, rfl⟩⟩, two_mul_one_eq⟩

/-- No integer is a half. -/
theorem not_satisfied_pinned_one (values : List ℚ) :
    ¬ (pinned isInteger 1.0).exact.Satisfied 0 values := by
  intro h
  have hproblem := (satisfied_problem_iff (isTold_pinned (by decide)).tidy).2 h
  rw [problem_pinned] at hproblem
  obtain ⟨x, b, rfl⟩ := List.length_eq_two.1 hproblem.length
  obtain ⟨-, ⟨-, -, hint⟩, hrow⟩ := satisfied_pinnedProblem_iff.1 hproblem
  obtain ⟨k, rfl⟩ := hint rfl
  rw [Extended.value_of_toRat? Binary64.toRat?_one] at hrow
  have hk : 2 * k = 1 := by exact_mod_cast hrow
  omega

end Program

/-! ### Solving -/

/-- Whether an optimiser is right about every problem that it is handed for a program. -/
structure Optimizer.IsExactOn (optimizer : Optimizer) (program : Program Float) : Prop where
  relaxation : program.hasOpenIntegerColumn = true →
    (optimizer program.relaxation).Decides program.relaxation
  problem : Solver.isUnboundedByRelaxation optimizer program = false →
    (optimizer program.problem).Decides program.problem

/-- The optimiser that calls every problem unbounded. -/
def Optimizer.boundless : Optimizer := fun _ => .unbounded

/-- The optimiser that calls problems of real columns unbounded and all others infeasible. -/
def Optimizer.boundlessReal : Optimizer := fun problem =>
  if problem.columns.any (·.isInteger) then .infeasible else .unbounded

namespace Solver

variable {optimizer : Optimizer} {solver : Solver} {program : Program Float}

theorem absorb_eq_unbounded_iff {verdict : Verdict Float} :
    (solver.absorb verdict).1 = .unbounded ↔ verdict.isUnbounded = true := by
  cases verdict with
  | optimal => exact iff_of_false nofun nofun
  | infeasible => exact iff_of_false nofun nofun
  | unbounded => exact iff_of_true rfl rfl
  | failed => exact iff_of_false nofun nofun

/-- **A solve ends unbounded** when the relaxation says so or, failing that, the problem itself. -/
theorem solve_unbounded_iff :
    (solver.solve optimizer).1 = .unbounded ↔
      isUnboundedByRelaxation optimizer solver.program = true ∨
        isUnboundedByRelaxation optimizer solver.program = false ∧
          (optimizer solver.program.problem).isUnbounded = true := by
  rw [solve]
  cases isUnboundedByRelaxation optimizer solver.program with
  | true => exact iff_of_true rfl (.inl rfl)
  | false =>
    rw [if_neg Bool.false_ne_true, absorb_eq_unbounded_iff]
    simp

/-- What the relaxation settles when the optimiser is right about it. -/
theorem isUnboundedByRelaxation_iff (h : program.Tidy)
    (hexact : program.hasOpenIntegerColumn = true →
      (optimizer program.relaxation).Decides program.relaxation) :
    isUnboundedByRelaxation optimizer program = true ↔
      program.HasOpenInteger ∧ program.relaxation.IsUnbounded := by
  rw [isUnboundedByRelaxation, Bool.and_eq_true, ← h.hasOpenIntegerColumn_iff]
  exact and_congr_right fun hopen => (hexact hopen).isUnbounded_iff

/-- A program that something satisfies is unbounded when its relaxation is. -/
theorem isUnbounded_relaxation_of_point (h : program.Tidy)
    (hpoint : ∃ values, program.exact.Satisfied 0 values) :
    program.relaxation.IsUnbounded ↔ program.exact.IsUnbounded := by
  obtain ⟨values, hvalues⟩ := hpoint
  rw [← Program.relaxed_problem h, ← Program.isUnbounded_problem_iff h]
  exact Problem.isUnbounded_relaxed_iff ⟨values, (Program.satisfied_problem_iff h).2 hvalues⟩

/-- A solver that has been told a pinned program. -/
def pinned (isInteger : Bool) (rhs : Float) : Solver where
  backend := .microlp
  program := Program.pinned isInteger rhs

/-- The optimiser that calls every problem unbounded is right when an integer is pinned. -/
theorem isExactOn_pinned_two (isInteger : Bool) :
    Optimizer.boundless.IsExactOn (Program.pinned isInteger 2.0) := by
  have htidy : (Program.pinned isInteger 2.0).Tidy := (Program.isTold_pinned (by decide)).tidy
  have hrelaxation : (Program.pinned isInteger 2.0).relaxation.IsUnbounded :=
    Program.isUnbounded_relaxation_pinned ⟨zero_le_one, le_rfl⟩ Program.two_mul_one_eq
  refine ⟨fun _ => hrelaxation, fun _ => (Program.isUnbounded_problem_iff htidy).2 ?_⟩
  exact (isUnbounded_relaxation_of_point htidy
    ⟨_, Program.satisfied_pinned_two isInteger⟩).1 hrelaxation

/-- **The relaxation decides whether a program is unbounded** when an integer column is open on one
side and something satisfies the program. The optimiser has to be right about a problem without
integer columns only, which the relaxation is; and what the relaxation decides is the answer of
every solver that holds the program. -/
theorem relaxation_decides (h : program.IsTold) (hopen : program.HasOpenInteger)
    (hpoint : ∃ values, program.exact.Satisfied 0 values)
    (hexact : program.relaxation.IsContinuous →
      (optimizer program.relaxation).Decides program.relaxation) :
    program.relaxation.IsContinuous ∧
      (isUnboundedByRelaxation optimizer program = true ↔ program.exact.IsUnbounded) ∧
      ∀ solver : Solver, solver.program = program →
        isUnboundedByRelaxation optimizer program = true →
        (solver.solve optimizer).1 = .unbounded := by
  have hcontinuous := Program.isContinuous_relaxation program
  refine ⟨hcontinuous, ?_, ?_⟩
  · rw [isUnboundedByRelaxation_iff h.tidy fun _ => hexact hcontinuous,
      isUnbounded_relaxation_of_point h.tidy hpoint]
    exact and_iff_right hopen
  · rintro solver rfl hsettled
    exact solve_unbounded_iff.2 (.inl hsettled)

/-- With an integer pinned the relaxation decides that the program is unbounded. -/
theorem relaxation_decides_pinned :
    (Program.pinned true 2.0).IsTold ∧ (Program.pinned true 2.0).HasOpenInteger ∧
      (∃ values, (Program.pinned true 2.0).exact.Satisfied 0 values) ∧
      (Optimizer.boundless (Program.pinned true 2.0).relaxation).Decides
        (Program.pinned true 2.0).relaxation ∧
      (Program.pinned true 2.0).relaxation.IsContinuous ∧
      (Program.pinned true 2.0).exact.IsUnbounded ∧
      ((pinned true 2.0).solve Optimizer.boundless).1 = .unbounded := by
  have htold : (Program.pinned true 2.0).IsTold := Program.isTold_pinned (by decide)
  have hopen : (Program.pinned true 2.0).HasOpenInteger := Program.hasOpenInteger_pinned_iff.2 rfl
  have hpoint : ∃ values, (Program.pinned true 2.0).exact.Satisfied 0 values :=
    ⟨_, Program.satisfied_pinned_two true⟩
  have hdecides := (isExactOn_pinned_two true).relaxation
    (htold.tidy.hasOpenIntegerColumn_iff.2 hopen)
  have hsettled : isUnboundedByRelaxation Optimizer.boundless (Program.pinned true 2.0) = true :=
    (isUnboundedByRelaxation_iff htold.tidy fun _ => hdecides).2 ⟨hopen, hdecides⟩
  obtain ⟨hcontinuous, hiff, hsolve⟩ := relaxation_decides htold hopen hpoint fun _ => hdecides
  exact ⟨htold, hopen, hpoint, hdecides, hcontinuous, hiff.1 hsettled, hsolve _ rfl hsettled⟩

/-- **A solve of a program that something satisfies** ends unbounded when the program is. -/
theorem solve_eq_unbounded_iff (h : solver.program.IsTold)
    (hpoint : ∃ values, solver.program.exact.Satisfied 0 values)
    (hexact : optimizer.IsExactOn solver.program) :
    (solver.solve optimizer).1 = .unbounded ↔ solver.program.exact.IsUnbounded := by
  have hrelaxation := isUnboundedByRelaxation_iff h.tidy hexact.relaxation
  rw [isUnbounded_relaxation_of_point h.tidy hpoint] at hrelaxation
  rw [solve_unbounded_iff]
  constructor
  · rintro (hsettled | ⟨hopen, hverdict⟩)
    · exact (hrelaxation.1 hsettled).2
    · exact (Program.isUnbounded_problem_iff h.tidy).1
        ((hexact.problem hopen).isUnbounded_iff.1 hverdict)
  · intro hunbounded
    cases hsettled : isUnboundedByRelaxation optimizer solver.program with
    | true => exact .inl rfl
    | false =>
      exact .inr ⟨rfl, (hexact.problem hsettled).isUnbounded_iff.2
        ((Program.isUnbounded_problem_iff h.tidy).2 hunbounded)⟩

/-- **A solve that ends unbounded** has values that satisfy all but integrality, and unless an
integer column is open on one side it has values that satisfy the program. -/
theorem solve_unbounded_satisfied (h : solver.program.IsTold)
    (hexact : optimizer.IsExactOn solver.program)
    (hsolve : (solver.solve optimizer).1 = .unbounded) :
    (∃ values, solver.program.relaxed.exact.Satisfied 0 values) ∧
      (¬ solver.program.HasOpenInteger → ∃ values, solver.program.exact.Satisfied 0 values) := by
  have hrelaxation := isUnboundedByRelaxation_iff h.tidy hexact.relaxation
  rcases solve_unbounded_iff.1 hsolve with hsettled | ⟨hunsettled, hverdict⟩
  · obtain ⟨hopen, hunbounded⟩ := hrelaxation.1 hsettled
    obtain ⟨values, hvalues, -⟩ := hunbounded 0
    exact ⟨⟨values, (Program.satisfied_relaxation_iff h.tidy).1 hvalues⟩, fun hnot =>
      absurd hopen hnot⟩
  · obtain ⟨values, hvalues, -⟩ := (hexact.problem hunsettled).isUnbounded_iff.1 hverdict 0
    have hrelaxed := hvalues.relaxed
    rw [Program.relaxed_problem h.tidy] at hrelaxed
    exact ⟨⟨values, (Program.satisfied_relaxation_iff h.tidy).1 hrelaxed⟩, fun _ =>
      ⟨values, (Program.satisfied_problem_iff h.tidy).1 hvalues⟩⟩

/-- With an integer pinned and a real column to grow, a solve ends unbounded. -/
theorem solve_unbounded_satisfied_pinned :
    (pinned false 2.0).program.IsTold ∧
      Optimizer.boundless.IsExactOn (pinned false 2.0).program ∧
      ((pinned false 2.0).solve Optimizer.boundless).1 = .unbounded ∧
      (∃ values, (pinned false 2.0).program.relaxed.exact.Satisfied 0 values) ∧
      ¬ (pinned false 2.0).program.HasOpenInteger ∧
      ∃ values, (pinned false 2.0).program.exact.Satisfied 0 values := by
  have htold : (pinned false 2.0).program.IsTold := Program.isTold_pinned (by decide)
  have hclosed : ¬ (pinned false 2.0).program.HasOpenInteger := fun hopen =>
    Bool.false_ne_true (Program.hasOpenInteger_pinned_iff.1 hopen)
  have hexact : Optimizer.boundless.IsExactOn (pinned false 2.0).program :=
    isExactOn_pinned_two false
  have hsolve : ((pinned false 2.0).solve Optimizer.boundless).1 = .unbounded := by
    refine solve_unbounded_iff.2 (.inr ⟨?_, rfl⟩)
    exact Bool.eq_false_iff.2 fun hsettled =>
      hclosed ((isUnboundedByRelaxation_iff htold.tidy hexact.relaxation).1 hsettled).1
  obtain ⟨hrelaxed, hsatisfied⟩ := solve_unbounded_satisfied htold hexact hsolve
  exact ⟨htold, hexact, hsolve, hrelaxed, hclosed, hsatisfied hclosed⟩

/-- **A solve can end unbounded although nothing satisfies the program**: with a fraction pinned and
an integer column to grow, an optimiser that is right about the problem and right about its
relaxation is handed the relaxation only. -/
theorem solve_pinned_one :
    (pinned true 1.0).program.IsTold ∧
      (Optimizer.boundlessReal (pinned true 1.0).program.relaxation).Decides
        (pinned true 1.0).program.relaxation ∧
      (Optimizer.boundlessReal (pinned true 1.0).program.problem).Decides
        (pinned true 1.0).program.problem ∧
      ((pinned true 1.0).solve Optimizer.boundlessReal).1 = .unbounded ∧
      ¬ ∃ values, (pinned true 1.0).program.exact.Satisfied 0 values := by
  have htold : (pinned true 1.0).program.IsTold := Program.isTold_pinned (by decide)
  have hrelaxation : (pinned true 1.0).program.relaxation.IsUnbounded :=
    Program.isUnbounded_relaxation_pinned ⟨by norm_num, by norm_num⟩ Program.two_mul_half_eq
  have hdecides : (Optimizer.boundlessReal (pinned true 1.0).program.relaxation).Decides
      (pinned true 1.0).program.relaxation := hrelaxation
  refine ⟨htold, hdecides, fun values hvalues => ?_, solve_unbounded_iff.2 (.inl ?_),
    fun ⟨values, hvalues⟩ => Program.not_satisfied_pinned_one values hvalues⟩
  · exact Program.not_satisfied_pinned_one values
      ((Program.satisfied_problem_iff htold.tidy).1 hvalues)
  · exact (isUnboundedByRelaxation_iff htold.tidy fun _ => hdecides).2
      ⟨Program.hasOpenInteger_pinned_iff.2 rfl, hrelaxation⟩

end Solver

end OptModel
