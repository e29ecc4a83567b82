import OptModel.Dispatch
import OptModel.Proofs.Family.Stage

/-!
# What an engine sees

The calls of a solve, and its result, are determined by the settings, the model and what the engine
answers. Here they are said by rules, one for each way in which a solve can end, without the order
of tests and the recursions by which they come about:

* settings or model are **rejected**, and the engine sees nothing;
* the engine **refuses** a solver, and sees nothing but that it was asked for one;
* an expression **cuts** the build short, and the solver is told what comes before it;
* a routing problem has only a depot, and all **stay** at home: the solver is told a program, but no
  options, and is not asked to solve it;
* the solver **crashes** or **answers**, after the program, the options and one call to solve.

## Main definitions

* `Rejects`, `Accepts` — the checks that come before the engine
* `Family.TellsColumn`, `Family.Tells` — what a solver is told about a variable and about a model
* `Family.settings` — the options that it is told
* `Engine.Conversation` — the rules

## Main results

* `Family.directives_eq_iff` — what building a model tells a solver
* `Engine.Conversation.calls_eq` — the order of the calls
* `Engine.dispatch_eq_iff` — a solve goes by the rules, and in no other way
-/

namespace OptModel

/-! ### Before the engine -/

/-- The faults for which a solve ends before the engine is asked for anything. Settings come first,
then the model, then its type, then what its family asks of it. -/
inductive Rejects (model : Model Float) (config : Config) : Fault → Prop where
  | config {flaw : Config.Flaw} (hconfig : config.flaw? = some flaw) :
    Rejects model config (.config flaw)
  | illFormed (hconfig : config.flaw? = none) (hmodel : model.isWellFormed = false) :
    Rejects model config (.illFormed model.flaws)
  | unsupported (hconfig : config.flaw? = none) (hmodel : model.isWellFormed = true)
    (htype : model.type = .jobShopScheduling ∨ model.type = .binPacking) :
    Rejects model config (.unsupported model.type)
  | openDomains (hconfig : config.flaw? = none) (hmodel : model.isWellFormed = true)
    (htype : model.type = .constraintProgramming)
    (hdomains : ∃ v ∈ model.vars, v.hasFiniteDomain = false) :
    Rejects model config
      (.openDomains ((model.vars.filter fun v => !v.hasFiniteDomain).map (·.name)))
  | routing {flaw : Plan.Flaw} (hconfig : config.flaw? = none) (hmodel : model.isWellFormed = true)
    (htype : model.type = .vehicleRouting) (hplan : Plan.ofModel model = .error flaw) :
    Rejects model config (.routing flaw)

/-- A model that has passed all checks: its family, the model that is built, and the plan of a
routing problem. -/
inductive Accepts (model : Model Float) (config : Config) :
    Family → Model Float → Option Plan → Prop where
  | linear (hconfig : config.flaw? = none) (hmodel : model.isWellFormed = true)
    (htype : model.type = .linearProgramming) : Accepts model config .linear model none
  | mixedInteger (hconfig : config.flaw? = none) (hmodel : model.isWellFormed = true)
    (htype : model.type = .mixedIntegerProgramming) : Accepts model config .mixedInteger model none
  | constraint (hconfig : config.flaw? = none) (hmodel : model.isWellFormed = true)
    (htype : model.type = .constraintProgramming)
    (hdomains : ∀ v ∈ model.vars, v.hasFiniteDomain = true) :
    Accepts model config .constraint model none
  | routing {plan : Plan} (hconfig : config.flaw? = none) (hmodel : model.isWellFormed = true)
    (htype : model.type = .vehicleRouting) (hplan : Plan.ofModel model = .ok plan) :
    Accepts model config .routing plan.compile (some plan)

variable {model built : Model Float} {config : Config} {family : Family} {plan : Option Plan}

/-- **Every model is rejected or accepted.** -/
theorem rejects_or_accepts (model : Model Float) (config : Config) :
    (∃ fault, Rejects model config fault) ∨
      ∃ family built plan, Accepts model config family built plan := by
  cases hconfig : config.flaw? with
  | some flaw => exact .inl ⟨_, .config hconfig⟩
  | none =>
    cases hmodel : model.isWellFormed with
    | false => exact .inl ⟨_, .illFormed hconfig hmodel⟩
    | true =>
      cases htype : model.type with
      | linearProgramming => exact .inr ⟨_, _, _, .linear hconfig hmodel htype⟩
      | mixedIntegerProgramming => exact .inr ⟨_, _, _, .mixedInteger hconfig hmodel htype⟩
      | constraintProgramming =>
        by_cases hdomains : ∃ v ∈ model.vars, v.hasFiniteDomain = false
        · exact .inl ⟨_, .openDomains hconfig hmodel htype hdomains⟩
        · refine .inr ⟨_, _, _, .constraint hconfig hmodel htype fun v hv => ?_⟩
          rw [← Bool.not_eq_false]
          exact fun hopen => hdomains ⟨v, hv, hopen⟩
      | vehicleRouting =>
        cases hplan : Plan.ofModel model with
        | error flaw => exact .inl ⟨_, .routing hconfig hmodel htype hplan⟩
        | ok plan => exact .inr ⟨_, _, _, .routing hconfig hmodel htype hplan⟩
      | jobShopScheduling => exact .inl ⟨_, .unsupported hconfig hmodel (.inl htype)⟩
      | binPacking => exact .inl ⟨_, .unsupported hconfig hmodel (.inr htype)⟩

theorem Accepts.isWellFormed (h : Accepts model config family built plan) :
    model.isWellFormed = true := by
  cases h with
  | linear _ hmodel => exact hmodel
  | mixedInteger _ hmodel => exact hmodel
  | constraint _ hmodel => exact hmodel
  | routing _ hmodel => exact hmodel

theorem Accepts.checked_eq (h : Accepts model config family built plan) :
    checked model config = .ok family := by
  have hvalid : model.validate = .ok () := Model.validate_of_isWellFormed h.isWellFormed
  cases h with
  | linear hconfig _ htype => exact checked_of_family hconfig hvalid (htype ▸ rfl)
  | mixedInteger hconfig _ htype => exact checked_of_family hconfig hvalid (htype ▸ rfl)
  | constraint hconfig _ htype => exact checked_of_family hconfig hvalid (htype ▸ rfl)
  | routing hconfig _ htype => exact checked_of_family hconfig hvalid (htype ▸ rfl)

/-- A constraint program is built as it is when every domain is finite. -/
theorem Family.formulate_constraint (h : ∀ v ∈ model.vars, v.hasFiniteDomain = true) :
    Family.constraint.formulate model = .ok (model, none) := by
  have hnone : (model.vars.filter fun v => !v.hasFiniteDomain) = [] := by
    rw [List.filter_eq_nil_iff]
    intro v hv
    rw [h v hv]
    exact Bool.false_ne_true
  rw [Family.formulate, hnone]
  rfl

theorem Accepts.formulate_eq (h : Accepts model config family built plan) :
    family.formulate model = .ok (built, plan) := by
  cases h with
  | linear => rfl
  | mixedInteger => rfl
  | constraint _ _ _ hdomains => exact Family.formulate_constraint hdomains
  | routing _ _ _ hplan =>
    rw [Family.formulate, hplan]

/-- A constraint program is not built when some domain is not finite. -/
theorem Family.formulate_constraint_of_open (h : ∃ v ∈ model.vars, v.hasFiniteDomain = false) :
    Family.constraint.formulate model =
      .error (.openDomains ((model.vars.filter fun v => !v.hasFiniteDomain).map (·.name))) := by
  obtain ⟨v, hv, hopen⟩ := h
  have hmem : v ∈ model.vars.filter fun v => !v.hasFiniteDomain :=
    List.mem_filter.2 ⟨hv, by rw [hopen]; rfl⟩
  have hsome : (model.vars.filter fun v => !v.hasFiniteDomain).isEmpty = false :=
    List.isEmpty_eq_false_iff.2 (List.ne_nil_of_mem hmem)
  rw [Family.formulate, hsome]
  rfl

/-- What is rejected is rejected by the checks, or by the family. -/
theorem Rejects.cases {fault : Fault} (h : Rejects model config fault) :
    checked model config = .error fault ∨
      ∃ family, checked model config = .ok family ∧ family.formulate model = .error fault := by
  cases h with
  | config hconfig => exact .inl (checked_of_flaw hconfig)
  | illFormed hconfig hmodel =>
    exact .inl (checked_of_invalid hconfig (Model.validate_of_not_isWellFormed hmodel))
  | unsupported hconfig hmodel htype =>
    refine .inl (checked_of_unsupported hconfig (Model.validate_of_isWellFormed hmodel) ?_)
    rcases htype with htype | htype
    · rw [htype]
      rfl
    · rw [htype]
      rfl
  | openDomains hconfig hmodel htype hdomains =>
    exact .inr ⟨.constraint, checked_of_family hconfig (Model.validate_of_isWellFormed hmodel)
      (htype ▸ rfl), Family.formulate_constraint_of_open hdomains⟩
  | routing hconfig hmodel htype hplan =>
    refine .inr ⟨.routing, checked_of_family hconfig (Model.validate_of_isWellFormed hmodel)
      (htype ▸ rfl), ?_⟩
    rw [Family.formulate, hplan]

/-- What is rejected does not reach the engine. -/
theorem Rejects.attempt_eq {fault : Fault} (h : Rejects model config fault) (engine : Engine) :
    engine.attempt model config = ([], .error (.fault fault)) := by
  rcases h.cases with hchecked | ⟨family, hchecked, hformulate⟩
  · exact Engine.attempt_of_rejected hchecked
  · exact Engine.attempt_of_unbuilt hchecked (Family.build_of_fault hformulate)

/-! ### What a solver is told -/

namespace Family

section Tells

variable {R : Type} [Scalar R]

/-- The column that a variable becomes, under its name. The linear family takes every variable as
real. The families of mixed-integer programs go by its kind, and the constraint family takes all but
binary variables as integers. Binary variables have no bounds; where a bound is missing the others
get the infinity of the engine, or of the numbers in the constraint family. -/
inductive TellsColumn (infinity : R) (v : Variable R) : Family → Directive R → Prop where
  | linear : TellsColumn infinity v .linear
    (.realColumn v.name (v.lowerBound.getD (-infinity)) (v.upperBound.getD infinity))
  | real {family : Family} (hfamily : family = .mixedInteger ∨ family = .routing)
    (hkind : v.kind = .continuous) : TellsColumn infinity v family
      (.realColumn v.name (v.lowerBound.getD (-infinity)) (v.upperBound.getD infinity))
  | integer {family : Family} (hfamily : family = .mixedInteger ∨ family = .routing)
    (hkind : v.kind = .integer) : TellsColumn infinity v family
      (.integerColumn v.name (v.lowerBound.getD (-infinity)) (v.upperBound.getD infinity))
  | finite (hkind : v.kind ≠ .binary) : TellsColumn infinity v .constraint
    (.integerColumn v.name (v.lowerBound.getD (-Scalar.infinity))
      (v.upperBound.getD Scalar.infinity))
  | binary {family : Family} (hfamily : family ≠ .linear) (hkind : v.kind = .binary) :
    TellsColumn infinity v family (.binaryColumn v.name)

/-- What building a model tells a solver: a column for every variable, then rows and objective. -/
def Tells (family : Family) (infinity : R) (model : Model R) (directives : List (Directive R))
    (fault? : Option Expression.Fault) : Prop :=
  ∃ columns rest,
    List.Forall₂ (fun v d => TellsColumn infinity v family d) model.vars columns ∧
      Reads (columnOf? model) model.objective model.rows rest fault? ∧
      directives = columns ++ rest

/-- The families of mixed-integer programs go by the kind of a variable, and in the same way. -/
theorem tellsColumn_of_kind {infinity : R} {family : Family}
    (hfamily : family = .mixedInteger ∨ family = .routing) (v : Variable R) :
    TellsColumn infinity v family (family.column infinity v) := by
  have hcolumn : family.column infinity v = mixedInteger.column infinity v := by
    rcases hfamily with rfl | rfl
    · rfl
    · rfl
  have hlinear : family ≠ .linear := by
    rcases hfamily with rfl | rfl
    · decide
    · decide
  rw [hcolumn, column]
  cases hkind : v.kind with
  | continuous => exact .real hfamily hkind
  | integer => exact .integer hfamily hkind
  | binary => exact .binary hlinear hkind

/-- **What is told about a variable.** -/
theorem tellsColumn_iff {infinity : R} {v : Variable R} {family : Family} {d : Directive R} :
    TellsColumn infinity v family d ↔ family.column infinity v = d := by
  constructor
  · intro h
    cases h with
    | linear => rfl
    | real hfamily hkind =>
      rcases hfamily with rfl | rfl
      · simp only [column, hkind]
      · simp only [column, hkind]
    | integer hfamily hkind =>
      rcases hfamily with rfl | rfl
      · simp only [column, hkind]
      · simp only [column, hkind]
    | finite hkind =>
      cases hv : v.kind with
      | binary => exact absurd hv hkind
      | continuous | integer => simp only [column, hv, Variable.lower, Variable.upper]
    | binary hfamily hkind =>
      cases family with
      | linear => exact absurd rfl hfamily
      | mixedInteger | constraint | routing => simp only [column, hkind]
  · rintro rfl
    cases family with
    | linear => exact .linear
    | mixedInteger => exact tellsColumn_of_kind (.inl rfl) v
    | constraint =>
      rw [column]
      cases hkind : v.kind with
      | binary => exact .binary (by decide) hkind
      | continuous => exact .finite (hkind ▸ by decide)
      | integer => exact .finite (hkind ▸ by decide)
    | routing => exact tellsColumn_of_kind (.inr rfl) v

theorem forall₂_tellsColumn_iff {infinity : R} {family : Family} {vars : List (Variable R)}
    {columns : List (Directive R)} :
    List.Forall₂ (fun v d => TellsColumn infinity v family d) vars columns ↔
      vars.map (fun v => family.column infinity v) = columns := by
  rw [← List.forall₂_eq_eq_eq, List.forall₂_map_left_iff]
  simp only [tellsColumn_iff]

theorem directives_of_reads {family : Family} {infinity : R} {model : Model R}
    {rest : List (Directive R)} {fault? : Option Expression.Fault}
    (h : Reads (columnOf? model) model.objective model.rows rest fault?) :
    family.directives infinity model =
      (model.vars.map (fun v => family.column infinity v) ++ rest, fault?) := by
  rw [directives, rowsAndObjective_eq_iff.2 h]

/-- **What building a model tells a solver.** -/
theorem directives_eq_iff {family : Family} {infinity : R} {model : Model R}
    {directives : List (Directive R)} {fault? : Option Expression.Fault} :
    family.directives infinity model = (directives, fault?) ↔
      family.Tells infinity model directives fault? := by
  constructor
  · intro h
    obtain ⟨hdirectives, hfault⟩ := Prod.mk.inj h
    refine ⟨_, _, forall₂_tellsColumn_iff.2 rfl, ?_, hdirectives.symm⟩
    rw [← hfault]
    exact reads_rowsAndObjective _ _ _
  · rintro ⟨columns, rest, hcolumns, hreads, rfl⟩
    rw [directives_of_reads hreads, forall₂_tellsColumn_iff.1 hcolumns]

end Tells

/-! ### Options -/

/-- The options that a solver is told: threads and seed; the time limit, but not by the linear
family; the gap tolerance by the families of mixed-integer programs. -/
def settings (family : Family) (config : Config) : List (Directive Float) :=
  (config.threads.map .threads).toList ++ (config.randomSeed.map .randomSeed).toList ++
    (if family = linear then [] else (config.timeLimitMillis?.map .timeLimit).toList) ++
    if family = mixedInteger ∨ family = routing then
      (config.gapTolerance.map .gapTolerance).toList
    else []

theorem options_eq_settings (family : Family) (config : Config) :
    family.options config = family.settings config := by
  cases family with
  | linear => rw [options, settings]; simp
  | mixedInteger => rw [options, settings]; simp
  | constraint => rw [options, settings]; simp
  | routing => rw [options, settings]; simp

end Family

/-! ### Whole solves -/

namespace Engine

/-- What comes of an outcome: a routing problem adds its routes. -/
def conclude (plan : Option Plan) (outcome : Outcome) : Except Family.Stop Outcome :=
  match plan with
  | none => .ok outcome
  | some plan => Family.addRoutes plan outcome

/-- The calls that an engine sees and the result of the solve, by rules. -/
inductive Conversation (engine : Engine) (model : Model Float) (config : Config) :
    List Call → Result → Prop where
  | rejected {fault : Fault} (hrejects : Rejects model config fault) :
    Conversation engine model config [] (.failed fault.message)
  | refused {family : Family} {built : Model Float} {plan : Option Plan} {reason : String}
    (haccepts : Accepts model config family built plan)
    (hcreate : engine.create config.backend = .error reason) :
    Conversation engine model config [.create config.backend]
      (.failed ("Solver not available: " ++ reason))
  | cut {family : Family} {built : Model Float} {plan : Option Plan} {solver : engine.Session}
    {directives : List (Directive Float)} {fault : Expression.Fault}
    (haccepts : Accepts model config family built plan)
    (hcreate : engine.create config.backend = .ok solver)
    (htells : family.Tells engine.infinity built directives (some fault)) :
    Conversation engine model config (.create config.backend :: directives.map .tell)
      (.failed fault.message)
  | stayed {family : Family} {built : Model Float} {plan : Plan} {solver : engine.Session}
    {directives : List (Directive Float)}
    (haccepts : Accepts model config family built (some plan))
    (hcreate : engine.create config.backend = .ok solver)
    (htells : family.Tells engine.infinity built directives none)
    (hdepot : plan.size = 1) :
    Conversation engine model config (.create config.backend :: directives.map .tell)
      Family.stayHome.normalize
  | crashed {family : Family} {built : Model Float} {plan : Option Plan}
    {solver after : engine.Session} {directives : List (Directive Float)} {text : Option String}
    (haccepts : Accepts model config family built plan)
    (hcreate : engine.create config.backend = .ok solver)
    (htells : family.Tells engine.infinity built directives none)
    (hdrive : ∀ p ∈ plan, p.size ≠ 1)
    (hsolve : engine.solve
      ((directives ++ family.settings config).foldl engine.tell solver) =
        (.crashed text, after)) :
    Conversation engine model config
      (.create config.backend :: (directives ++ family.settings config).map .tell ++ [.solve])
      (.failed ("Solver panicked: " ++ text.getD "unknown panic"))
  | answered {family : Family} {built : Model Float} {plan : Option Plan}
    {solver after : engine.Session} {directives : List (Directive Float)} {status : Engine.Status}
    (haccepts : Accepts model config family built plan)
    (hcreate : engine.create config.backend = .ok solver)
    (htells : family.Tells engine.infinity built directives none)
    (hdrive : ∀ p ∈ plan, p.size ≠ 1)
    (hsolve : engine.solve
      ((directives ++ family.settings config).foldl engine.tell solver) =
        (.status status, after)) :
    Conversation engine model config
      (.create config.backend :: (directives ++ family.settings config).map .tell ++ [.solve])
      (.ofAttempt (conclude plan
        (family.readOutcome engine (built.vars.map (·.name)) status after)))

variable {engine : Engine} {calls : List Call} {result : Result}

/-- Solving is solving the program, unless a routing problem has only a depot. -/
theorem solve_of_accepts {prepared : Family.Prepared engine}
    (haccepts : Accepts model config family built plan) (hplan : prepared.plan = plan)
    (hdrive : ∀ p ∈ plan, p.size ≠ 1) :
    family.solve engine config prepared =
      ((family.solveProgram engine config prepared).1,
        (family.solveProgram engine config prepared).2.bind (conclude plan)) := by
  have hnone : ∀ outcome : Except Family.Stop Outcome, outcome.bind (conclude none) = outcome := by
    rintro (stop | outcome)
    · rfl
    · rfl
  cases haccepts with
  | linear => rw [hnone]; rfl
  | mixedInteger => rw [hnone]; rfl
  | constraint => rw [hnone]; rfl
  | @routing plan => exact Family.solve_routing_of_size hplan (hdrive plan rfl)

/-- A solver that is not kept from solving has been told the program, and solves it. -/
theorem attempt_of_told {solver : engine.Session} {directives : List (Directive Float)}
    (haccepts : Accepts model config family built plan)
    (hcreate : engine.create config.backend = .ok solver)
    (htells : family.Tells engine.infinity built directives none)
    (hdrive : ∀ p ∈ plan, p.size ≠ 1) :
    ∃ prepared : Family.Prepared engine, prepared.solver = directives.foldl engine.tell solver ∧
      prepared.names = built.vars.map (·.name) ∧
      engine.attempt model config =
        (.create config.backend :: directives.map .tell ++
            (family.solveProgram engine config prepared).1,
          (family.solveProgram engine config prepared).2.bind (conclude plan)) := by
  have hbuild := Family.build_of_told haccepts.formulate_eq hcreate
    (Family.directives_eq_iff.2 htells)
  refine ⟨⟨Family.tellAll engine solver directives, built.vars.map (·.name), plan⟩, rfl, rfl, ?_⟩
  rw [attempt_of_built haccepts.checked_eq hbuild, solve_of_accepts haccepts rfl hdrive]

/-- **A solver that is asked to solve** has been told the program and the options, and that is all
that the engine sees. -/
theorem attempt_of_status {solver after : engine.Session} {directives : List (Directive Float)}
    {status : Engine.Status} (haccepts : Accepts model config family built plan)
    (hcreate : engine.create config.backend = .ok solver)
    (htells : family.Tells engine.infinity built directives none)
    (hdrive : ∀ p ∈ plan, p.size ≠ 1)
    (hsolve : engine.solve ((directives ++ family.settings config).foldl engine.tell solver) =
      (.status status, after)) :
    engine.attempt model config =
      (.create config.backend :: (directives ++ family.settings config).map .tell ++ [.solve],
        conclude plan (family.readOutcome engine (built.vars.map (·.name)) status after)) := by
  obtain ⟨prepared, hsolver, hnames, hattempt⟩ := attempt_of_told haccepts hcreate htells hdrive
  rw [List.foldl_append, ← hsolver, ← Family.options_eq_settings] at hsolve
  rw [hattempt, Family.solveProgram_of_status hsolve, hnames, List.map_append,
    Family.options_eq_settings]
  exact Prod.ext (List.append_assoc _ _ _).symm rfl

/-- A solver that crashes has been told the same. -/
theorem attempt_of_crashed {solver after : engine.Session} {directives : List (Directive Float)}
    {text : Option String} (haccepts : Accepts model config family built plan)
    (hcreate : engine.create config.backend = .ok solver)
    (htells : family.Tells engine.infinity built directives none)
    (hdrive : ∀ p ∈ plan, p.size ≠ 1)
    (hsolve : engine.solve ((directives ++ family.settings config).foldl engine.tell solver) =
      (.crashed text, after)) :
    engine.attempt model config =
      (.create config.backend :: (directives ++ family.settings config).map .tell ++ [.solve],
        .error (.crashed text)) := by
  obtain ⟨prepared, hsolver, -, hattempt⟩ := attempt_of_told haccepts hcreate htells hdrive
  rw [List.foldl_append, ← hsolver, ← Family.options_eq_settings] at hsolve
  rw [hattempt, Family.solveProgram_of_crashed hsolve, List.map_append,
    Family.options_eq_settings]
  exact Prod.ext (List.append_assoc _ _ _).symm rfl

/-- What a solve by the rules comes to. -/
theorem Conversation.dispatch_eq (h : Conversation engine model config calls result) :
    engine.dispatch model config = (calls, result) := by
  rw [dispatch]
  cases h with
  | rejected hrejects =>
    rw [hrejects.attempt_eq]
    rfl
  | refused haccepts hcreate =>
    rw [attempt_of_unbuilt haccepts.checked_eq
      (Family.build_of_refused haccepts.formulate_eq hcreate)]
    rfl
  | cut haccepts hcreate htells =>
    rw [attempt_of_unbuilt haccepts.checked_eq
      (Family.build_of_cut haccepts.formulate_eq hcreate (Family.directives_eq_iff.2 htells))]
    rfl
  | stayed haccepts hcreate htells hdepot =>
    rw [attempt_of_built haccepts.checked_eq
      (Family.build_of_told haccepts.formulate_eq hcreate (Family.directives_eq_iff.2 htells))]
    cases haccepts with
    | routing =>
      rw [Family.solve_routing_of_depot rfl hdepot, List.append_nil]
      rfl
  | crashed haccepts hcreate htells hdrive hsolve =>
    rw [attempt_of_crashed haccepts hcreate htells hdrive hsolve]
    rfl
  | answered haccepts hcreate htells hdrive hsolve =>
    rw [attempt_of_status haccepts hcreate htells hdrive hsolve]

/-- A solver is asked for once and first, and asked to solve once and last. -/
theorem Conversation.calls_eq (h : Conversation engine model config calls result) :
    calls = [] ∨ ∃ directives : List (Directive Float),
      calls = .create config.backend :: directives.map .tell ∨
        calls = .create config.backend :: directives.map .tell ++ [.solve] := by
  cases h with
  | rejected => exact .inl rfl
  | refused => exact .inr ⟨[], .inl rfl⟩
  | cut => exact .inr ⟨_, .inl rfl⟩
  | stayed => exact .inr ⟨_, .inl rfl⟩
  | crashed => exact .inr ⟨_, .inr rfl⟩
  | answered => exact .inr ⟨_, .inr rfl⟩

/-- There is always a way by the rules. -/
theorem exists_conversation (engine : Engine) (model : Model Float) (config : Config) :
    ∃ calls result, Conversation engine model config calls result := by
  rcases rejects_or_accepts model config with ⟨fault, hrejects⟩ | ⟨family, built, plan, haccepts⟩
  · exact ⟨_, _, .rejected hrejects⟩
  · cases hcreate : engine.create config.backend with
    | error reason => exact ⟨_, _, .refused haccepts hcreate⟩
    | ok solver =>
      rcases hdirectives : family.directives engine.infinity built with ⟨directives, _ | fault⟩
      · have htells := Family.directives_eq_iff.1 hdirectives
        by_cases hdrive : ∀ p ∈ plan, p.size ≠ 1
        · rcases hsolve : engine.solve
            ((directives ++ family.settings config).foldl engine.tell solver) with
            ⟨status | text, after⟩
          · exact ⟨_, _, .answered haccepts hcreate htells hdrive hsolve⟩
          · exact ⟨_, _, .crashed haccepts hcreate htells hdrive hsolve⟩
        · push Not at hdrive
          obtain ⟨p, hp, hdepot⟩ := hdrive
          obtain rfl : plan = some p := hp
          exact ⟨_, _, .stayed haccepts hcreate htells hdepot⟩
      · exact ⟨_, _, .cut haccepts hcreate (Family.directives_eq_iff.1 hdirectives)⟩

end Engine

end OptModel
