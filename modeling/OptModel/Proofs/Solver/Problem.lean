import OptModel.Proofs.Comparison
import OptModel.Proofs.Family.Meaning

/-!
# What an optimiser is handed

A solver does not hand its program over as it stands: terms with a zero coefficient are dropped, and
a binary column becomes an integer column between zero and one. For the question whether the program
is unbounded every column becomes real. The problems that come of this mean what the program means,
provided that the program has been told finite numbers only. What is needed of such a program is
what one directive keeps (`Program.Tidy`).

Of an optimiser nothing is assumed but what its answer says about the problem that it was handed
(`Verdict.Decides`).

## Main definitions

* `Problem.Satisfied`, `Problem.IsUnbounded`, `Verdict.Decides` — problems and answers about them
* `Program.IsUnbounded`, `Program.relaxed` — the same of programs
* `Program.IsTold` — the programs that come of directives with finite numbers
* `Program.Tidy` — what such programs keep

## Main results

* `Program.IsTold.tidy` — told programs are tidy
* `Program.satisfied_problem_iff`, `isUnbounded_problem_iff` — the problem of a program
* `Program.relaxed_problem`, `satisfied_relaxation_iff` — its relaxation
-/

namespace OptModel

/-! ### Problems -/

/-- Whether one value of the objective is better than another. -/
def Direction.Improves : Direction → ℚ → ℚ → Prop
  | minimize, a, b => a < b
  | maximize, a, b => b < a

namespace Problem

/-- Whether a column takes the value `x`. -/
structure Column.Takes (c : Column Float) (x : ℚ) : Prop where
  lower : Scalar.atMost (Extended.ofFloat c.lower) (.rational x) = true
  upper : Scalar.atMost (.rational x) (Extended.ofFloat c.upper) = true
  integral : c.isInteger = true → ∃ k : ℤ, x = k

/-- Whether `values` satisfy a problem, the numbers of the problem taken exactly. -/
structure Satisfied (problem : Problem Float) (values : List ℚ) : Prop where
  length : values.length = problem.columns.length
  columns : ∀ cv ∈ problem.columns.zip values, cv.1.Takes cv.2
  rows : ∀ row ∈ problem.rows,
    row.sense.Compares (worthOf row.terms fun i => values.getD i 0) (Binary64.value row.rhs)

/-- What the objective of a problem is worth. -/
def worth (problem : Problem Float) (values : List ℚ) : ℚ :=
  worthOf problem.objective fun i => values.getD i 0

/-- Whether the objective can be improved on beyond every bound. -/
def IsUnbounded (problem : Problem Float) : Prop :=
  ∀ bound : ℚ, ∃ values, problem.Satisfied values ∧
    problem.direction.Improves (problem.worth values) bound

/-- Whether every column is real. -/
def IsContinuous (problem : Problem Float) : Prop := ∀ c ∈ problem.columns, c.isInteger = false

/-- The problem with every column real. -/
def relaxed (problem : Problem Float) : Problem Float :=
  { problem with columns := problem.columns.map fun c => { c with isInteger := false } }

theorem Column.Takes.relaxed {c : Column Float} {x : ℚ} (h : c.Takes x) :
    Column.Takes { c with isInteger := false } x :=
  ⟨h.lower, h.upper, nofun⟩

/-- What satisfies a problem satisfies it with its columns taken as real. -/
theorem Satisfied.relaxed {problem : Problem Float} {values : List ℚ}
    (h : problem.Satisfied values) : problem.relaxed.Satisfied values where
  length := h.length.trans (List.length_map _).symm
  columns := by
    show ∀ cv ∈ (problem.columns.map _).zip values, _
    rw [List.zip_map_left, List.forall_mem_map]
    exact fun cv hcv => (h.columns cv hcv).relaxed
  rows := h.rows

end Problem

/-- Whether a verdict is right about a problem. -/
def Verdict.Decides (problem : Problem Float) : Verdict Float → Prop
  | optimal _ => (∃ values, problem.Satisfied values) ∧ ¬ problem.IsUnbounded
  | infeasible => ∀ values, ¬ problem.Satisfied values
  | unbounded => problem.IsUnbounded
  | failed => False

/-- A right verdict says unbounded of the unbounded problems and of no others. -/
theorem Verdict.Decides.isUnbounded_iff {problem : Problem Float} {verdict : Verdict Float}
    (h : verdict.Decides problem) : verdict.isUnbounded = true ↔ problem.IsUnbounded := by
  cases verdict with
  | optimal => exact iff_of_false Bool.false_ne_true h.2
  | infeasible =>
    refine iff_of_false Bool.false_ne_true fun hunbounded => ?_
    obtain ⟨values, hvalues, -⟩ := hunbounded 0
    exact h values hvalues
  | unbounded => exact iff_of_true rfl h
  | failed => exact h.elim

/-! ### Programs -/

namespace Program

/-- Whether the objective can be improved on beyond every bound. -/
def IsUnbounded (program : Program Extended) : Prop :=
  ∀ bound : ℚ, ∃ values total, program.Satisfied 0 values ∧
    program.objectiveAt (values.map .rational) = .rational total ∧
    program.direction.Improves total bound

/-- The program with every column real. -/
def relaxed {R : Type} (program : Program R) : Program R :=
  { program with columns := program.columns.map fun c => { c with kind := .continuous } }

end Program

/-- Whether coefficients and right-hand side of a directive are finite. Bounds may be infinite. -/
def Directive.IsFinite : Directive Float → Prop
  | .row form _ rhs => (∀ t ∈ form.terms, t.2.isFinite) ∧ rhs.isFinite
  | .objective form _ => ∀ t ∈ form.terms, t.2.isFinite
  | _ => True

namespace Program

/-- The programs that come of directives with finite coefficients and right-hand sides. -/
def IsTold (program : Program Float) : Prop :=
  ∃ directives : List (Directive Float), (∀ d ∈ directives, d.IsFinite) ∧
    program = directives.foldl tell .empty

/-- What every directive with finite numbers keeps: binary columns lie between zero and one, and
coefficients and right-hand sides are finite. -/
structure Tidy (program : Program Float) : Prop where
  binary : ∀ c ∈ program.columns, c.kind = .binary → c.lower = 0.0 ∧ c.upper = 1.0
  rows : ∀ row ∈ program.rows, (∀ t ∈ row.form.terms, t.2.isFinite) ∧ row.rhs.isFinite
  objective : ∀ t ∈ program.objective.terms, t.2.isFinite

theorem Tidy.empty : (Program.empty : Program Float).Tidy := ⟨nofun, nofun, nofun⟩

theorem Tidy.addColumn {program : Program Float} (h : program.Tidy) {c : Column Float}
    (hbinary : c.kind = .binary → c.lower = 0.0 ∧ c.upper = 1.0) :
    (program.addColumn c).2.Tidy where
  binary := by
    show ∀ c' ∈ program.columns ++ [c], _
    rw [List.forall_mem_append, List.forall_mem_singleton]
    exact ⟨h.binary, hbinary⟩
  rows := h.rows
  objective := h.objective

/-- **Telling a directive keeps a program tidy.** -/
theorem Tidy.tell {program : Program Float} (h : program.Tidy) {d : Directive Float}
    (hd : d.IsFinite) : (program.tell d).Tidy := by
  cases d with
  | realColumn name lower upper => exact h.addColumn nofun
  | integerColumn name lower upper => exact h.addColumn nofun
  | binaryColumn name => exact h.addColumn fun _ => ⟨rfl, rfl⟩
  | row form sense rhs =>
    refine ⟨h.binary, ?_, h.objective⟩
    show ∀ row ∈ program.rows ++ [⟨form, sense, rhs⟩], _
    rw [List.forall_mem_append, List.forall_mem_singleton]
    exact ⟨h.rows, hd⟩
  | objective form direction => exact ⟨h.binary, h.rows, hd⟩
  | timeLimit millis => exact ⟨h.binary, h.rows, h.objective⟩
  | threads n => exact h
  | randomSeed n => exact h
  | gapTolerance gap => exact h

/-- **Told programs are tidy.** -/
theorem IsTold.tidy {program : Program Float} (h : program.IsTold) : program.Tidy := by
  obtain ⟨directives, hfinite, rfl⟩ := h
  induction directives using List.reverseRecOn with
  | nil => exact Tidy.empty
  | append_singleton directives d ih =>
    rw [List.forall_mem_append, List.forall_mem_singleton] at hfinite
    rw [List.foldl_append]
    exact (ih hfinite.1).tell hfinite.2

end Program

/-! ### Terms that are dropped -/

/-- A coefficient that counts as zero is worth nothing. -/
theorem Binary64.value_eq_zero_of_beq {x : Float} (h : (x == 0.0) = true) : value x = 0 := by
  cases hx : toRat? x with
  | none => rw [value, hx, Option.getD_none]
  | some q =>
    have hzero := Extended.ofFloat_eq_zero_of_beq h
    rw [Extended.ofFloat_of_toRat? hx, Extended.rational.injEq] at hzero
    rw [Extended.value_of_toRat? hx, hzero]

namespace LinearForm

variable {H : Type}

@[simp] theorem worthOf_cons (t : H × Float) (terms : List (H × Float)) (v : H → ℚ) :
    worthOf (t :: terms) v = Binary64.value t.2 * v t.1 + worthOf terms v := by
  rw [worthOf, List.map_cons, List.sum_cons, worthOf]

/-- A term that is dropped counts as zero. -/
theorem beq_zero_of_dropped {t : H × Float} (h : (!Scalar.isZero t.2) = false) :
    (t.2 == 0.0) = true := by
  rwa [Bool.not_eq_false'] at h

/-- Dropping the terms with a zero coefficient changes nothing. -/
theorem worthOf_nonzero (form : LinearForm H Float) (v : H → ℚ) :
    worthOf form.nonzero v = worthOf form.terms v :=
  List.sum_map_filter fun t _ hdropped => by
    rw [Binary64.value_eq_zero_of_beq (beq_zero_of_dropped hdropped), zero_mul]

/-- What a form of finite coefficients evaluates to when nothing is rounded. -/
theorem evaluate_map_ofFloat [DecidableEq H] {form : LinearForm H Float}
    (h : ∀ t ∈ form.terms, t.2.isFinite) (v : H → ℚ) :
    (form.map Extended.ofFloat).evaluate (fun i => .rational (v i)) =
      .rational (worthOf form.terms v) := by
  have hform : form.map Extended.ofFloat = (form.map Binary64.value).map .rational := by
    rw [map, map, map, List.map_map]
    exact congrArg LinearForm.mk
      (List.map_congr_left fun t ht => Prod.ext rfl (Extended.ofFloat_of_isFinite (h t ht)))
  rw [hform, evaluate_map_rational, weight, map, List.map_map]
  rfl

end LinearForm

/-! ### The problem of a program -/

namespace Program

variable {program : Program Float} {values : List ℚ}

/-- The column that is handed over takes what the column of the program takes. -/
theorem takes_problemColumn_iff {c : Column Float}
    (hbinary : c.kind = .binary → c.lower = 0.0 ∧ c.upper = 1.0) (x : ℚ) :
    (problemColumn c).Takes x ↔ (c.map Extended.ofFloat).Takes 0 x := by
  have hbounds : (problemColumn c).lower = c.lower ∧ (problemColumn c).upper = c.upper := by
    rcases c with ⟨name, kind, lower, upper⟩
    cases kind with
    | continuous => exact ⟨rfl, rfl⟩
    | integer => exact ⟨rfl, rfl⟩
    | binary => exact ⟨(hbinary rfl).1.symm, (hbinary rfl).2.symm⟩
  have hkind : (problemColumn c).isInteger = true ↔ c.kind ≠ .continuous := by
    rcases c with ⟨name, kind, lower, upper⟩
    cases kind <;> simp [problemColumn]
  constructor
  · rintro ⟨hlower, hupper, hintegral⟩
    rw [hbounds.1] at hlower
    rw [hbounds.2] at hupper
    refine ⟨?_, ?_, fun h => (Family.near_zero_iff x).2 (hintegral (hkind.2 h))⟩
    · rw [Extended.sub_rational_zero]
      exact hlower
    · rw [Extended.add_rational_zero]
      exact hupper
  · rintro ⟨hlower, hupper, hintegral⟩
    rw [Extended.sub_rational_zero] at hlower
    rw [Extended.add_rational_zero] at hupper
    refine ⟨?_, ?_, fun h => (Family.near_zero_iff x).1 (hintegral (hkind.1 h))⟩
    · rw [hbounds.1]
      exact hlower
    · rw [hbounds.2]
      exact hupper

/-- The row that is handed over compares as the row of the program holds. -/
theorem compares_nonzero_iff {row : ProgramRow Float} (hterms : ∀ t ∈ row.form.terms, t.2.isFinite)
    (hrhs : row.rhs.isFinite) (values : List ℚ) :
    row.sense.Compares (worthOf row.form.nonzero fun i => values.getD i 0)
        (Binary64.value row.rhs) ↔
      row.sense.holds
        ((row.form.map Extended.ofFloat).evaluate (valueOf (values.map .rational)))
        (Extended.ofFloat row.rhs) (.rational 0) = true := by
  rw [valueOf_map_rational, LinearForm.evaluate_map_ofFloat hterms, LinearForm.worthOf_nonzero]
  exact (Family.holds_zero_iff row.sense hrhs _).symm

/-- **The problem of a program is satisfied by what satisfies the program.** -/
theorem satisfied_problem_iff (h : program.Tidy) :
    program.problem.Satisfied values ↔ program.exact.Satisfied 0 values := by
  have hcolumns : (∀ cv ∈ program.problem.columns.zip values, cv.1.Takes cv.2) ↔
      ∀ cv ∈ program.exact.columns.zip values, cv.1.Takes 0 cv.2 := by
    show (∀ cv ∈ (program.columns.map _).zip values, _) ↔
      ∀ cv ∈ (program.columns.map _).zip values, _
    rw [List.zip_map_left, List.zip_map_left, List.forall_mem_map, List.forall_mem_map]
    refine forall₂_congr fun cv hcv => ?_
    exact takes_problemColumn_iff (h.binary cv.1 (List.of_mem_zip hcv).1) cv.2
  have hrows : (∀ row ∈ program.problem.rows,
        row.sense.Compares (worthOf row.terms fun i => values.getD i 0)
          (Binary64.value row.rhs)) ↔
      ∀ row ∈ program.exact.rows,
        row.sense.holds (row.form.evaluate (valueOf (values.map .rational))) row.rhs
          (.rational 0) = true := by
    show (∀ row ∈ program.rows.map _, _) ↔ ∀ row ∈ program.rows.map _, _
    rw [List.forall_mem_map, List.forall_mem_map]
    refine forall₂_congr fun row hrow => ?_
    obtain ⟨hterms, hrhs⟩ := h.rows row hrow
    exact compares_nonzero_iff hterms hrhs values
  constructor
  · rintro ⟨hlength, hc, hr⟩
    rw [problem, List.length_map] at hlength
    exact ⟨hlength.trans (List.length_map _).symm, hcolumns.1 hc, hrows.1 hr⟩
  · rintro ⟨hlength, hc, hr⟩
    rw [exact, map, List.length_map] at hlength
    exact ⟨hlength.trans (List.length_map _).symm, hcolumns.2 hc, hrows.2 hr⟩

/-- What the objective of a program is worth is what that of its problem is worth. -/
theorem objectiveAt_exact (h : program.Tidy) (values : List ℚ) :
    program.exact.objectiveAt (values.map .rational) =
      .rational (program.problem.worth values) := by
  show (program.objective.map Extended.ofFloat).evaluate _ + Extended.rational 0 = _
  rw [valueOf_map_rational, LinearForm.evaluate_map_ofFloat h.objective, Extended.add_rational_zero,
    ← LinearForm.worthOf_nonzero]
  rfl

/-- **The problem of a program is unbounded when the program is.** -/
theorem isUnbounded_problem_iff (h : program.Tidy) :
    program.problem.IsUnbounded ↔ program.exact.IsUnbounded := by
  refine forall_congr' fun bound => exists_congr fun values => ?_
  rw [satisfied_problem_iff h]
  constructor
  · rintro ⟨hvalues, himproves⟩
    exact ⟨_, hvalues, objectiveAt_exact h values, himproves⟩
  · rintro ⟨total, hvalues, htotal, himproves⟩
    obtain rfl := Extended.rational.inj ((objectiveAt_exact h values).symm.trans htotal)
    exact ⟨hvalues, himproves⟩

/-! ### The relaxation of a program -/

theorem Tidy.relaxed (h : program.Tidy) : program.relaxed.Tidy where
  binary := by
    show ∀ c ∈ program.columns.map _, _
    rw [List.forall_mem_map]
    exact fun c _ hkind => nomatch hkind
  rows := h.rows
  objective := h.objective

/-- The relaxation is the problem of the relaxed program. -/
theorem problem_relaxed (program : Program Float) :
    program.relaxed.problem = program.relaxation := by
  simp only [problem, relaxation, Program.relaxed, List.map_map]
  rfl

/-- The relaxation is the problem with its columns taken as real. -/
theorem relaxed_problem (h : program.Tidy) : program.problem.relaxed = program.relaxation := by
  have hcolumns : (program.columns.map problemColumn).map
        (fun c => { c with isInteger := false }) =
      program.columns.map fun c => ⟨false, c.lower, c.upper⟩ := by
    rw [List.map_map]
    refine List.map_congr_left fun c hc => ?_
    rcases c with ⟨name, kind, lower, upper⟩
    cases kind with
    | continuous => rfl
    | integer => rfl
    | binary =>
      obtain ⟨hlower, hupper⟩ : lower = 0.0 ∧ upper = 1.0 := h.binary _ hc rfl
      rw [hlower, hupper]
      rfl
  simp only [Problem.relaxed, relaxation, problem, hcolumns]

/-- The relaxation is satisfied by what satisfies the relaxed program. -/
theorem satisfied_relaxation_iff (h : program.Tidy) :
    program.relaxation.Satisfied values ↔ program.relaxed.exact.Satisfied 0 values := by
  rw [← problem_relaxed]
  exact satisfied_problem_iff h.relaxed

end Program

end OptModel
