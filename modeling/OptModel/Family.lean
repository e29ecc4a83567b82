import OptModel.Fault
import OptModel.Outcome

/-!
# Families

Every problem type that can be solved has a family, which knows how to build the engine's problem
from a model and how to read an outcome back.

* The *linear* family takes every variable as real.
* The *mixed-integer* family takes variables by their kind; binaries ignore their bounds.
* The *constraint* family wants finite domains and takes every variable that is not binary as an
  integer.
* The *routing* family compiles the routing payload and hands it to the mixed-integer family. It
  remembers the plan, by which the routes are read back.

What a family tells a solver is a list of directives that depends on the model and not on the
engine: a column per variable, a row per row, the objective. An expression that cannot be read ends
the list.

## Main definitions

* `Family` and `Family.ofType?` — the families and what they solve
* `Family.directives` — what building tells a solver, and the fault it ends with
* `Family.build` — a solver that has been told a model
* `Family.solve` — options, solving, and reading the outcome
-/

namespace OptModel

/-- The families of problems that can be solved. -/
inductive Family where
  | linear
  | mixedInteger
  | constraint
  | routing
  deriving Repr, DecidableEq

namespace Family

/-- The family that solves models of a type. -/
def ofType? : ProblemType → Option Family
  | .linearProgramming => some linear
  | .mixedIntegerProgramming => some mixedInteger
  | .constraintProgramming => some constraint
  | .vehicleRouting => some routing
  | .jobShopScheduling | .binPacking => none

/-- The type of the models that a family solves. -/
def type : Family → ProblemType
  | linear => .linearProgramming
  | mixedInteger => .mixedIntegerProgramming
  | constraint => .constraintProgramming
  | routing => .vehicleRouting

/-! ### What a solver is told -/

section Directives

variable {R : Type} [Scalar R]

/-- The column of a variable for an engine whose missing bounds are `∓infinity`. -/
def column (infinity : R) (v : Variable R) : Family → Directive R
  | linear =>
    .realColumn v.name (v.lowerBound.getD (-infinity)) (v.upperBound.getD infinity)
  | mixedInteger | routing =>
    match v.kind with
    | .continuous =>
      .realColumn v.name (v.lowerBound.getD (-infinity)) (v.upperBound.getD infinity)
    | .integer =>
      .integerColumn v.name (v.lowerBound.getD (-infinity)) (v.upperBound.getD infinity)
    | .binary => .binaryColumn v.name
  | constraint =>
    match v.kind with
    | .binary => .binaryColumn v.name
    | .continuous | .integer => .integerColumn v.name v.lower v.upper

/-- The last position of `name` in a list. -/
def lastIndex? (name : String) : List String → Option Nat
  | [] => none
  | n :: names =>
    match lastIndex? name names with
    | some i => some (i + 1)
    | none => if n = name then some 0 else none

/-- The column that a name stands for in the expressions of a model: the last one, if several
variables have that name. -/
def columnOf? (model : Model R) (name : String) : Option Nat :=
  lastIndex? name (model.vars.map (·.name))

/-- The directives for `rows` and then the objective, up to the first expression that cannot be
read. -/
def rowsAndObjective (handle? : String → Option Nat) (objective : Objective) :
    List (Row R) → List (Directive R) × Option Expression.Fault
  | [] =>
    match Expression.parse handle? objective.expression with
    | .error fault => ([], some fault)
    | .ok form => ([.objective form objective.sense], none)
  | row :: rows =>
    match Expression.parse handle? row.expression with
    | .error fault => ([], some fault)
    | .ok form =>
      let (directives, fault?) := rowsAndObjective handle? objective rows
      (.row form row.sense row.rhs :: directives, fault?)

theorem rowsAndObjective_nil (handle? : String → Option Nat) (objective : Objective) :
    rowsAndObjective (R := R) handle? objective [] =
      match Expression.parse handle? objective.expression with
      | .error fault => ([], some fault)
      | .ok form => ([.objective form objective.sense], none) := rfl

theorem rowsAndObjective_cons_of_error {handle? : String → Option Nat} {objective : Objective}
    {row : Row R} {rows : List (Row R)} {fault : Expression.Fault}
    (h : Expression.parse (R := R) handle? row.expression = .error fault) :
    rowsAndObjective handle? objective (row :: rows) = ([], some fault) := by
  simp only [rowsAndObjective, h]

theorem rowsAndObjective_cons_of_ok {handle? : String → Option Nat} {objective : Objective}
    {row : Row R} {rows : List (Row R)} {form : LinearForm Nat R}
    (h : Expression.parse handle? row.expression = .ok form) :
    rowsAndObjective handle? objective (row :: rows) =
      (.row form row.sense row.rhs :: (rowsAndObjective handle? objective rows).1,
        (rowsAndObjective handle? objective rows).2) := by
  simp only [rowsAndObjective, h]

/-- What building a model tells a solver, and the fault that cuts it short. -/
def directives (family : Family) (infinity : R) (model : Model R) :
    List (Directive R) × Option Expression.Fault :=
  let columns := model.vars.map fun v => family.column infinity v
  let (rest, fault?) := rowsAndObjective (columnOf? model) model.objective model.rows
  (columns ++ rest, fault?)

end Directives

/-! ### Building -/

/-- A solver that has been told a model. The name of every column and, for a routing problem, the
plan are what reading the outcome needs. -/
structure Prepared (engine : Engine) where
  solver : engine.Session
  names : List String
  plan : Option Plan := none

/-- The model that is built and the plan, or why the model cannot be built. No engine is needed to
find out. -/
def formulate (family : Family) (model : Model Float) :
    Except Fault (Model Float × Option Plan) :=
  match family with
  | linear | mixedInteger => .ok (model, none)
  | constraint =>
    let offending := model.vars.filter fun v => !v.hasFiniteDomain
    if offending.isEmpty then .ok (model, none)
    else .error (.openDomains (offending.map (·.name)))
  | routing =>
    match Plan.ofModel model with
    | .error flaw => .error (.routing flaw)
    | .ok plan => .ok (plan.compile, some plan)

/-- Tell a solver a list of directives. -/
def tellAll (engine : Engine) (solver : engine.Session) (directives : List (Directive Float)) :
    engine.Session :=
  directives.foldl engine.tell solver

/-- Build a model: what the engine sees, and the solver or the fault. -/
def build (family : Family) (engine : Engine) (config : Config) (model : Model Float) :
    List Call × Except Fault (Prepared engine) :=
  match family.formulate model with
  | .error fault => ([], .error fault)
  | .ok (built, plan) =>
    match engine.create config.backend with
    | .error reason => ([.create config.backend], .error (.unavailable reason))
    | .ok solver =>
      let (directives, fault?) := family.directives engine.infinity built
      let calls := .create config.backend :: directives.map .tell
      match fault? with
      | some fault => (calls, .error (.expression fault))
      | none =>
        (calls, .ok
          { solver := tellAll engine solver directives
            names := built.vars.map (·.name)
            plan := plan })

section Equations

variable {family : Family} {engine : Engine} {config : Config} {model built : Model Float}
  {plan : Option Plan}

theorem build_of_fault {fault : Fault} (h : family.formulate model = .error fault) :
    family.build engine config model = ([], .error fault) := by
  simp only [build, h]

theorem build_of_refused {reason : String}
    (hformulate : family.formulate model = .ok (built, plan))
    (hcreate : engine.create config.backend = .error reason) :
    family.build engine config model =
      ([.create config.backend], .error (.unavailable reason)) := by
  simp only [build, hformulate, hcreate]

/-- What the engine sees does not depend on whether the build is cut short. -/
theorem build_fst_of_created {solver : engine.Session}
    (hformulate : family.formulate model = .ok (built, plan))
    (hcreate : engine.create config.backend = .ok solver) :
    (family.build engine config model).1 =
      .create config.backend :: (family.directives engine.infinity built).1.map .tell := by
  simp only [build, hformulate, hcreate]
  split <;> rfl

theorem build_of_cut {solver : engine.Session} {directives : List (Directive Float)}
    {fault : Expression.Fault} (hformulate : family.formulate model = .ok (built, plan))
    (hcreate : engine.create config.backend = .ok solver)
    (htold : family.directives engine.infinity built = (directives, some fault)) :
    family.build engine config model =
      (.create config.backend :: directives.map .tell, .error (.expression fault)) := by
  simp only [build, hformulate, hcreate, htold]

theorem build_of_told {solver : engine.Session} {directives : List (Directive Float)}
    (hformulate : family.formulate model = .ok (built, plan))
    (hcreate : engine.create config.backend = .ok solver)
    (htold : family.directives engine.infinity built = (directives, none)) :
    family.build engine config model =
      (.create config.backend :: directives.map .tell,
        .ok ⟨tellAll engine solver directives, built.vars.map (·.name), plan⟩) := by
  simp only [build, hformulate, hcreate, htold]

end Equations

/-! ### Solving -/

/-- Why solving has no outcome. -/
inductive Stop where
  | fault (fault : Fault)
  /-- The solver crashed, with a text unless it left something else behind. -/
  | crashed (text : Option String)

/-- The text of the result of a solve that stopped. -/
def Stop.message : Stop → String
  | fault cause => cause.message
  | crashed text => "Solver panicked: " ++ text.getD "unknown panic"

/-- The options that a family passes on: threads and seed, all but the linear one the time limit,
and those with a gap its tolerance. -/
def options (family : Family) (config : Config) : List (Directive Float) :=
  let common := (config.threads.map .threads).toList ++ (config.randomSeed.map .randomSeed).toList
  let timeLimit := (config.timeLimitMillis?.map .timeLimit).toList
  let gapTolerance := (config.gapTolerance.map .gapTolerance).toList
  match family with
  | linear => common
  | constraint => common ++ timeLimit
  | mixedInteger | routing => common ++ timeLimit ++ gapTolerance

/-- Whether a family reads the gap of a solution. -/
def readsGap : Family → Bool
  | mixedInteger | routing => true
  | linear | constraint => false

/-- What is read off a solver that ended with `status`. The value of a repeated name is that of its
last column. -/
def readOutcome (family : Family) (engine : Engine) (names : List String)
    (status : Engine.Status) (solver : engine.Session) : Outcome :=
  if status.hasSolution then
    { status := status
      objectiveValue := some (engine.objectiveValue solver)
      values := some (.ofList (names.zipIdx.map fun (name, i) => (name, engine.value solver i)))
      gap := if family.readsGap then engine.gap solver else none }
  else
    { status := status }

/-- Solve a program: the options, the solve, and the outcome. -/
def solveProgram (family : Family) (engine : Engine) (config : Config)
    (prepared : Prepared engine) : List Call × Except Stop Outcome :=
  let options := family.options config
  let calls := options.map .tell ++ [.solve]
  match engine.solve (tellAll engine prepared.solver options) with
  | (.crashed text, _) => (calls, .error (.crashed text))
  | (.status status, solver) =>
    (calls, .ok (family.readOutcome engine prepared.names status solver))

/-- The outcome of a routing problem that has only a depot. -/
def stayHome : Outcome where
  status := .optimal
  objectiveValue := some 0.0
  values := some .empty
  gap := some 0.0
  routes := some []

/-- The outcome of a routing problem: that of its program, with the routes of its values. -/
def addRoutes (plan : Plan) (outcome : Outcome) : Except Stop Outcome :=
  match outcome.values with
  | none => .ok outcome
  | some values =>
    match plan.routes values with
    | .error cause => .error (.fault (.tours cause))
    | .ok routes => .ok { outcome with routes := some routes }

theorem addRoutes_of_none {plan : Plan} {outcome : Outcome} (h : outcome.values = none) :
    addRoutes plan outcome = .ok outcome := by
  simp only [addRoutes, h]

theorem addRoutes_of_error {plan : Plan} {outcome : Outcome} {values : Assignment}
    {cause : Plan.TourFault} (h : outcome.values = some values)
    (hroutes : plan.routes values = .error cause) :
    addRoutes plan outcome = .error (.fault (.tours cause)) := by
  simp only [addRoutes, h, hroutes]

theorem addRoutes_of_ok {plan : Plan} {outcome : Outcome} {values : Assignment}
    {routes : List Route} (h : outcome.values = some values)
    (hroutes : plan.routes values = .ok routes) :
    addRoutes plan outcome = .ok { outcome with routes := some routes } := by
  simp only [addRoutes, h, hroutes]

/-- Solve what has been built: what the engine sees, and the outcome. -/
def solve (family : Family) (engine : Engine) (config : Config) (prepared : Prepared engine) :
    List Call × Except Stop Outcome :=
  match family with
  | linear | mixedInteger | constraint => family.solveProgram engine config prepared
  | routing =>
    match prepared.plan with
    | none => ([], .error (.fault .planMissing))
    | some plan =>
      if plan.size = 1 then ([], .ok stayHome)
      else
        let (calls, outcome) := solveProgram routing engine config prepared
        (calls, outcome.bind (addRoutes plan))

section Equations

variable {family : Family} {engine : Engine} {config : Config} {prepared : Prepared engine}
  {plan : Plan} {after : engine.Session}

theorem solveProgram_of_crashed {text : Option String}
    (h : engine.solve (tellAll engine prepared.solver (family.options config)) =
      (.crashed text, after)) :
    family.solveProgram engine config prepared =
      ((family.options config).map .tell ++ [.solve], .error (.crashed text)) := by
  simp only [solveProgram, h]

theorem solveProgram_of_status {status : Engine.Status}
    (h : engine.solve (tellAll engine prepared.solver (family.options config)) =
      (.status status, after)) :
    family.solveProgram engine config prepared =
      ((family.options config).map .tell ++ [.solve],
        .ok (family.readOutcome engine prepared.names status after)) := by
  simp only [solveProgram, h]

theorem solve_routing_of_depot (hplan : prepared.plan = some plan) (hdepot : plan.size = 1) :
    routing.solve engine config prepared = ([], .ok stayHome) := by
  simp only [solve, hplan, hdepot, if_true]

theorem solve_routing_of_size (hplan : prepared.plan = some plan) (hsize : plan.size ≠ 1) :
    routing.solve engine config prepared =
      ((routing.solveProgram engine config prepared).1,
        (routing.solveProgram engine config prepared).2.bind (addRoutes plan)) := by
  simp only [solve, hplan, hsize, if_false]

end Equations

end Family

end OptModel
