import OptModel.Engine.Scripted
import OptModel.Proofs.Dispatch.Conversation

/-!
# Where families agree

The families of mixed-integer, linear and constraint programs build from the same model in ways of
their own. A constraint program takes bounds from the variable, where a missing one is infinite; the
others put the infinity of the engine in place of a missing one. On models that two of the families
understand alike this shows nowhere: the engine sees the same calls, and the outcome is the same but
for the gap, which only the mixed-integer family reads.

The one thing to see is that two families tell the same columns. Everything after the columns is
common to all of them, up to the options.

## Main definitions

* `Family.run` — building and then solving
* `Family.AgreesButGap` — two runs that differ in the gap of the outcome at most

## Main results

* `Family.attempt_eq_run` — a solve is a run of its family
* `Family.build_eq_of_columns` — families that tell the same columns build the same
* `Family.families_agree` — models on which two families agree
-/

namespace OptModel

/-- The outcome as it is without a gap. -/
def Outcome.withoutGap (outcome : Outcome) : Outcome := { outcome with gap := none }

namespace Family

variable {engine : Engine} {config : Config} {model built : Model Float} {family other : Family}

/-! ### Runs -/

/-- Build a model and solve it: what the engine sees, and the outcome. -/
def run (family : Family) (engine : Engine) (config : Config) (model : Model Float) :
    List Call × Except Stop Outcome :=
  match family.build engine config model with
  | (calls, .error fault) => (calls, .error (.fault fault))
  | (calls, .ok prepared) =>
    let (further, outcome) := family.solve engine config prepared
    (calls ++ further, outcome)

/-- A solve whose settings and model have passed the checks is a run of the family of the model. -/
theorem attempt_eq_run (h : checked model config = .ok family) :
    engine.attempt model config = family.run engine config model := by
  rw [Engine.attempt, h]
  rfl

theorem run_of_error {calls : List Call} {fault : Fault}
    (h : family.build engine config model = (calls, .error fault)) :
    family.run engine config model = (calls, .error (.fault fault)) := by
  rw [run, h]

theorem run_of_ok {calls : List Call} {prepared : Prepared engine}
    (h : family.build engine config model = (calls, .ok prepared)) :
    family.run engine config model =
      (calls ++ (family.solve engine config prepared).1,
        (family.solve engine config prepared).2) := by
  rw [run, h]

/-- Two runs with the same calls that stop in the same way or come to the same outcome, except that
the first one has no gap. -/
structure AgreesButGap (first second : List Call × Except Stop Outcome) : Prop where
  calls : first.1 = second.1
  outcome : first.2 = second.2.map Outcome.withoutGap

/-! ### Columns -/

/-- A bound that stands for a missing one is not finite, so a finite one has been declared. -/
theorem getD_of_isFinite {bound : Option Float} {missing : Float}
    (hmissing : missing.isFinite = false)
    (h : (bound.getD missing).isFinite = true) (infinity : Float) :
    bound.getD missing = bound.getD infinity := by
  cases bound with
  | none => exact absurd (hmissing.symm.trans h) Bool.false_ne_true
  | some b => rfl

/-- A variable with a finite domain is the same column for a constraint program. -/
theorem column_constraint {v : Variable Float} (h : v.hasFiniteDomain = true) (infinity : Float) :
    constraint.column infinity v = mixedInteger.column infinity v := by
  rcases v with ⟨name, kind, lower, upper, start⟩
  cases kind with
  | continuous => exact absurd h Bool.false_ne_true
  | binary => rfl
  | integer =>
    obtain ⟨hlower, hupper⟩ := Bool.and_eq_true_iff.1 h
    show Directive.integerColumn name _ _ = Directive.integerColumn name _ _
    congr 1
    · exact getD_of_isFinite (by decide) hlower _
    · exact getD_of_isFinite (by decide) hupper _

/-- A real variable is the same column for a linear program. -/
theorem column_linear {v : Variable Float} (h : v.kind = .continuous) (infinity : Float) :
    linear.column infinity v = mixedInteger.column infinity v := by
  rcases v with ⟨name, kind, lower, upper, start⟩
  cases kind with
  | continuous => rfl
  | integer => exact nomatch h
  | binary => exact nomatch h

/-! ### Building -/

/-- **Families that tell the same columns build the same.** -/
theorem build_eq_of_columns
    (hformulate : family.formulate model = .ok (built, none))
    (hother : other.formulate model = .ok (built, none))
    (hcolumns : ∀ v ∈ built.vars,
      family.column engine.infinity v = other.column engine.infinity v) :
    family.build engine config model = other.build engine config model := by
  have hdirectives : family.directives engine.infinity built =
      other.directives engine.infinity built := by
    rw [directives, directives, List.map_congr_left hcolumns]
  simp only [build, hformulate, hother, hdirectives]

theorem build_constraint (engine : Engine) (config : Config)
    (h : ∀ v ∈ model.vars, v.hasFiniteDomain = true) :
    constraint.build engine config model = mixedInteger.build engine config model :=
  build_eq_of_columns (formulate_constraint h) rfl fun v hv => column_constraint (h v hv) _

theorem build_linear (engine : Engine) (config : Config)
    (h : ∀ v ∈ model.vars, v.kind = .continuous) :
    linear.build engine config model = mixedInteger.build engine config model :=
  build_eq_of_columns rfl rfl fun v hv => column_linear (h v hv) _

/-! ### Solving -/

/-- What is read without the gap is what a family reads that does not look at it. -/
theorem readOutcome_withoutGap (h : family.readsGap = false) (names : List String)
    (status : Engine.Status) (solver : engine.Session) :
    family.readOutcome engine names status solver =
      (other.readOutcome engine names status solver).withoutGap := by
  rw [readOutcome, readOutcome, h]
  cases status.hasSolution with
  | true => rfl
  | false => rfl

/-- The calls of a solve do not depend on what comes of it. -/
theorem calls_solveProgram (prepared : Prepared engine) :
    (family.solveProgram engine config prepared).1 =
      (family.options config).map .tell ++ [.solve] := by
  rw [solveProgram]
  split
  · rfl
  · rfl

/-- Families that tell the same options solve the same program in the same way. -/
theorem solveProgram_agrees (h : family.readsGap = false)
    (hoptions : family.options config = other.options config) (prepared : Prepared engine) :
    AgreesButGap (family.solveProgram engine config prepared)
      (other.solveProgram engine config prepared) where
  calls := by rw [calls_solveProgram, calls_solveProgram, hoptions]
  outcome := by
    rw [solveProgram, solveProgram, hoptions]
    rcases engine.solve (tellAll engine prepared.solver (other.options config)) with
      ⟨status | text, solver⟩
    · exact congrArg Except.ok (readOutcome_withoutGap h prepared.names status solver)
    · rfl

/-- The family of constraint programs tells all that the mixed-integer one does but the gap
tolerance. -/
theorem options_mixedInteger (config : Config) :
    mixedInteger.options config =
      constraint.options config ++ (config.gapTolerance.map .gapTolerance).toList := rfl

theorem options_constraint_of_eq_none (h : config.gapTolerance = none) :
    constraint.options config = mixedInteger.options config := by
  rw [options_mixedInteger, h]
  exact (List.append_nil _).symm

/-- Without a time limit the linear family leaves out nothing but the gap tolerance. -/
theorem options_linear_of_eq_none (hgap : config.gapTolerance = none)
    (hlimit : config.timeLimit = none) : linear.options config = mixedInteger.options config := by
  rw [options, options, Config.timeLimitMillis?, hgap, hlimit]
  exact ((List.append_nil _).trans (List.append_nil _)).symm

/-! ### Whole runs -/

/-- Runs that build the same agree when their solves do. -/
theorem run_agrees (hbuild : family.build engine config model = other.build engine config model)
    (hsolve : ∀ prepared : Prepared engine,
      AgreesButGap (family.solve engine config prepared) (other.solve engine config prepared)) :
    AgreesButGap (family.run engine config model) (other.run engine config model) := by
  rcases hother : other.build engine config model with ⟨calls, fault | prepared⟩
  · rw [run_of_error hother, run_of_error (hbuild.trans hother)]
    exact ⟨rfl, rfl⟩
  · rw [run_of_ok hother, run_of_ok (hbuild.trans hother)]
    exact ⟨congrArg (calls ++ ·) (hsolve prepared).calls, (hsolve prepared).outcome⟩

/-- The calls of a mixed-integer program with a gap tolerance have one call more than those of the
same constraint program, the last one before the call to solve. -/
theorem calls_run_of_gapTolerance {gap : Float} {prepared : Prepared engine}
    (hbuild : constraint.build engine config model = mixedInteger.build engine config model)
    (hprepared : (mixedInteger.build engine config model).2 = .ok prepared)
    (hgap : config.gapTolerance = some gap) :
    ∃ calls, (constraint.run engine config model).1 = calls ++ [.solve] ∧
      (mixedInteger.run engine config model).1 =
        calls ++ [.tell (.gapTolerance gap), .solve] := by
  rcases hmixed : mixedInteger.build engine config model with ⟨calls, answer⟩
  rw [hmixed] at hprepared
  obtain rfl : answer = .ok prepared := hprepared
  refine ⟨calls ++ (constraint.options config).map .tell, ?_, ?_⟩
  · rw [run_of_ok (hbuild.trans hmixed)]
    show calls ++ (constraint.solveProgram engine config prepared).1 = _
    rw [calls_solveProgram, List.append_assoc]
  · rw [run_of_ok hmixed]
    show calls ++ (mixedInteger.solveProgram engine config prepared).1 = _
    rw [calls_solveProgram, options_mixedInteger, hgap, List.map_append, List.append_assoc,
      List.append_assoc]
    rfl

/-- **Where families agree.** If every variable has a finite domain, a constraint program and a
mixed-integer program are built by the same calls to the same end, and without a gap tolerance they
are solved by the same calls to the same end but for the gap; with one, it is the only call by which
they differ. If every variable is real, so are a linear and a mixed-integer program, when there is
no time limit either. -/
theorem families_agree (engine : Engine) (config : Config) (model : Model Float) :
    ((∀ v ∈ model.vars, v.hasFiniteDomain = true) →
      constraint.build engine config model = mixedInteger.build engine config model ∧
        (config.gapTolerance = none →
          AgreesButGap (constraint.run engine config model)
            (mixedInteger.run engine config model)) ∧
        ∀ gap, config.gapTolerance = some gap →
          (∀ fault, (mixedInteger.build engine config model).2 = .error fault →
            (constraint.run engine config model).1 = (mixedInteger.run engine config model).1) ∧
          ∀ prepared, (mixedInteger.build engine config model).2 = .ok prepared →
            ∃ calls, (constraint.run engine config model).1 = calls ++ [.solve] ∧
              (mixedInteger.run engine config model).1 =
                calls ++ [.tell (.gapTolerance gap), .solve]) ∧
    ((∀ v ∈ model.vars, v.kind = .continuous) →
      linear.build engine config model = mixedInteger.build engine config model ∧
        (config.gapTolerance = none → config.timeLimit = none →
          AgreesButGap (linear.run engine config model)
            (mixedInteger.run engine config model))) := by
  constructor
  · intro hdomains
    have hbuild := build_constraint engine config hdomains
    refine ⟨hbuild, fun hgap => ?_,
      fun gap hgap => ⟨fun fault hfault => ?_, fun prepared hok => ?_⟩⟩
    · exact run_agrees hbuild (solveProgram_agrees rfl (options_constraint_of_eq_none hgap))
    · rcases hmixed : mixedInteger.build engine config model with ⟨calls, answer⟩
      rw [hmixed] at hfault
      obtain rfl : answer = .error fault := hfault
      rw [run_of_error hmixed, run_of_error (hbuild.trans hmixed)]
    · exact calls_run_of_gapTolerance hbuild hok hgap
  · intro hreal
    have hbuild := build_linear engine config hreal
    exact ⟨hbuild, fun hgap hlimit => run_agrees hbuild
      (solveProgram_agrees rfl (options_linear_of_eq_none hgap hlimit))⟩

/-- A binary variable and an integer between zero and four. -/
def domains : Model Float where
  type := .constraintProgramming
  vars := [{ name := "b", kind := .binary },
    { name := "n", kind := .integer, lowerBound := some 0.0, upperBound := some 4.0 }]

/-- A real variable without an upper bound. -/
def reals : Model Float where
  type := .linearProgramming
  vars := [{ name := "x", lowerBound := some 0.0 }]

/-- An engine that finds an optimum up to a gap. -/
def gapped : Engine := .scripted { status := .optimal, gap := some 0.25 }

/-- Finite domains and real variables on which families agree. -/
theorem families_agree_domains :
    (∀ v ∈ domains.vars, v.hasFiniteDomain = true) ∧ (∀ v ∈ reals.vars, v.kind = .continuous) ∧
      AgreesButGap (constraint.run gapped {} domains) (mixedInteger.run gapped {} domains) ∧
      (∃ calls,
        (constraint.run gapped { gapTolerance := some 0.5 } domains).1 = calls ++ [.solve] ∧
          (mixedInteger.run gapped { gapTolerance := some 0.5 } domains).1 =
            calls ++ [.tell (.gapTolerance 0.5), .solve]) ∧
      AgreesButGap (linear.run gapped {} reals) (mixedInteger.run gapped {} reals) := by
  have hdomains : ∀ v ∈ domains.vars, v.hasFiniteDomain = true := by decide
  have hreals : ∀ v ∈ reals.vars, v.kind = .continuous := by decide
  have hplain := (families_agree gapped {} domains).1 hdomains
  have hgapped := (families_agree gapped { gapTolerance := some 0.5 } domains).1 hdomains
  have hlinear := (families_agree gapped {} reals).2 hreals
  exact ⟨hdomains, hreals, hplain.2.1 rfl, (hgapped.2.2 0.5 rfl).2 _ rfl, hlinear.2 rfl rfl⟩

end Family

end OptModel
