import OptModel.Proofs.Dispatch.Conversation

/-!
# What a result holds

A caller reads a result by its status: a solution has an objective value and values, a failure has a
message, and nothing else has either. The rule is kept in pieces. A family reads values when the
solver says that there are some, routes are read off these values and may fail, and normalising
drops what does not go with the status. Here the pieces are put together, for every engine: one that
refuses a solver, one that crashes, and one that answers with any status and whatever numbers it has
left.

An engine is asked to solve at most once, so *its answer* is a matter of the calls that it has seen
(`Engine.Answers`), and so is the gap that it tells afterwards.

## Main definitions

* `Engine.Status.Matches` — a solver and a result ending in the same way
* `Engine.Answers` — what calls that end in a call to solve come to
* `Engine.Presence` — which fields a result has

## Main results

* `Engine.Conversation.presence` — the fields of a solve by the rules
* `Engine.dispatch_presence` — the fields of every solve
-/

namespace OptModel

/-! ### Statuses -/

/-- A solver ends in the way that a result says. -/
inductive Engine.Status.Matches : Engine.Status → SolveStatus → Prop where
  | optimal : Matches .optimal .optimal
  | feasible : Matches .feasible .feasible
  | infeasible : Matches .infeasible .infeasible
  | unbounded : Matches .unbounded .unbounded

/-- Whether a result is a solution, proven optimal or not. -/
def Result.IsSolution (result : Result) : Prop :=
  result.status = .optimal ∨ result.status = .feasible

theorem Result.isSolution_iff {result : Result} :
    result.IsSolution ↔ result.status.hasSolution = true := by
  rw [IsSolution]
  cases result.status <;> decide

namespace Engine.Status.Matches

variable {status : Engine.Status} {result : SolveStatus}

theorem unified?_eq (h : status.Matches result) : status.unified? = some result := by
  cases h <;> rfl

theorem hasSolution_eq (h : status.Matches result) :
    status.hasSolution = result.hasSolution := by
  cases h <;> rfl

theorem ne_error (h : status.Matches result) : result ≠ .error := by
  rintro rfl
  exact nomatch h

end Engine.Status.Matches

/-- A solver ends in a way that results have, or in a failure. -/
theorem Engine.Status.matches_or_failed (status : Engine.Status) :
    (∃ result, status.Matches result) ∨
      status.unified? = none ∧ status.hasSolution = false := by
  cases status with
  | optimal => exact .inl ⟨_, .optimal⟩
  | feasible => exact .inl ⟨_, .feasible⟩
  | infeasible => exact .inl ⟨_, .infeasible⟩
  | unbounded => exact .inl ⟨_, .unbounded⟩
  | abnormal => exact .inr ⟨rfl, rfl⟩
  | modelInvalid => exact .inr ⟨rfl, rfl⟩
  | notSolved => exact .inr ⟨rfl, rfl⟩

/-! ### The rule -/

/-- A routing problem whose only location is the depot. -/
def Model.IsDepotOnly (model : Model Float) : Prop :=
  model.type = .vehicleRouting ∧ ∃ plan, Plan.ofModel model = .ok plan ∧ plan.size = 1

/-- What calls to an engine come to that end in a call to solve: the answer, and the solver after
it. -/
inductive Engine.Answers (engine : Engine) : List Call → Engine.Answer → engine.Session → Prop where
  | intro {backend : Backend} {directives : List (Directive Float)}
    {solver after : engine.Session} {answer : Engine.Answer}
    (hcreate : engine.create backend = .ok solver)
    (hsolve : engine.solve (Family.tellAll engine solver directives) = (answer, after)) :
    Answers engine (.create backend :: directives.map .tell ++ [.solve]) answer after

/-- **Which fields a result has** when the engine has seen `calls`. -/
structure Engine.Presence (engine : Engine) (model : Model Float) (calls : List Call)
    (result : Result) : Prop where
  objectiveValue : result.objectiveValue.isSome ↔ result.IsSolution
  values : result.values.isSome ↔ result.IsSolution
  message : result.message.isSome ↔ result.status = .error
  routes : result.routes.isSome ↔ result.IsSolution ∧ model.type = .vehicleRouting
  /-- Neither a result without a solution nor one of the families without a gap has one. -/
  noGap : ¬ result.IsSolution ∨ model.type = .linearProgramming ∨
    model.type = .constraintProgramming → result.gap = none
  /-- Every other solution has the gap that the solver tells after its answer. -/
  gap : result.IsSolution → model.type ≠ .linearProgramming →
    model.type ≠ .constraintProgramming → ¬ model.IsDepotOnly →
    ∃ answer after, engine.Answers calls answer after ∧ result.gap = engine.gap after
  depotGap : result.IsSolution → model.IsDepotOnly → result.gap = some 0.0
  /-- A result is no failure because the solver ended in the same way, or because all stay at the
  depot. -/
  status : result.status ≠ .error →
    model.IsDepotOnly ∧ result.status = .optimal ∨
      ¬ model.IsDepotOnly ∧
        ∃ status after, engine.Answers calls (.status status) after ∧
          status.Matches result.status

namespace Engine

variable {engine : Engine} {model : Model Float} {config : Config} {calls : List Call}

/-- The fields of a failure. -/
theorem Presence.of_failed (message : String) :
    engine.Presence model calls (.failed message) := by
  have hnot : ¬ (Result.failed message).IsSolution := by
    rw [Result.isSolution_iff]
    exact Bool.false_ne_true
  exact {
    objectiveValue := iff_of_false Bool.false_ne_true hnot
    values := iff_of_false Bool.false_ne_true hnot
    message := iff_of_true rfl rfl
    routes := iff_of_false Bool.false_ne_true fun h => hnot h.1
    noGap := fun _ => rfl
    gap := fun h => absurd h hnot
    depotGap := fun h => absurd h hnot
    status := fun h => absurd rfl h }

/-- The fields of a problem without a solution. -/
theorem Presence.of_unsolved {ending : Engine.Status} {status : SolveStatus}
    {after : engine.Session} (hdepot : ¬ model.IsDepotOnly)
    (hanswers : engine.Answers calls (.status ending) after) (hmatches : ending.Matches status)
    (hsolution : status.hasSolution = false) :
    engine.Presence model calls (.unsolved status) := by
  have hnot : ¬ (Result.unsolved status).IsSolution := by
    rw [Result.isSolution_iff]
    exact ne_true_of_eq_false hsolution
  exact {
    objectiveValue := iff_of_false Bool.false_ne_true hnot
    values := iff_of_false Bool.false_ne_true hnot
    message := iff_of_false Bool.false_ne_true hmatches.ne_error
    routes := iff_of_false Bool.false_ne_true fun h => hnot h.1
    noGap := fun _ => rfl
    gap := fun h => absurd h hnot
    depotGap := fun h => absurd h hnot
    status := fun _ => .inr ⟨hdepot, _, _, hanswers, hmatches⟩ }

/-- The fields of a solution that a solver has found. -/
theorem Presence.of_solution {ending : Engine.Status} {status : SolveStatus}
    {after : engine.Session} {objective : Float} {values : Assignment} {gap : Option Float}
    {routes : Option (List Route)} (hdepot : ¬ model.IsDepotOnly)
    (hanswers : engine.Answers calls (.status ending) after) (hmatches : ending.Matches status)
    (hsolution : status.hasSolution = true)
    (hnoGap : model.type = .linearProgramming ∨ model.type = .constraintProgramming → gap = none)
    (hgap : model.type ≠ .linearProgramming → model.type ≠ .constraintProgramming →
      gap = engine.gap after)
    (hroutes : routes.isSome ↔ model.type = .vehicleRouting) :
    engine.Presence model calls
      { status := status, objectiveValue := some objective, values := some values,
        gap := gap, routes := routes } := by
  have hsolved : Result.IsSolution
      { status := status, objectiveValue := some objective, values := some values,
        gap := gap, routes := routes } := Result.isSolution_iff.2 hsolution
  exact {
    objectiveValue := iff_of_true rfl hsolved
    values := iff_of_true rfl hsolved
    message := iff_of_false Bool.false_ne_true hmatches.ne_error
    routes := hroutes.trans (and_iff_right hsolved).symm
    noGap := fun h => hnoGap (h.resolve_left fun hnot => hnot hsolved)
    gap := fun _ hlinear hconstraint _ => ⟨_, _, hanswers, hgap hlinear hconstraint⟩
    depotGap := fun _ h => absurd h hdepot
    status := fun _ => .inr ⟨hdepot, _, _, hanswers, hmatches⟩ }

/-- The fields of a routing problem in which all stay at the depot. -/
theorem Presence.of_stayHome (hdepot : model.IsDepotOnly) :
    engine.Presence model calls Family.stayHome.normalize where
  objectiveValue := iff_of_true rfl (.inl rfl)
  values := iff_of_true rfl (.inl rfl)
  message := iff_of_false Bool.false_ne_true (by decide)
  routes := iff_of_true rfl ⟨.inl rfl, hdepot.1⟩
  noGap := by
    rintro (hnot | hlinear | hconstraint)
    · exact absurd (.inl rfl) hnot
    · exact nomatch hdepot.1.symm.trans hlinear
    · exact nomatch hdepot.1.symm.trans hconstraint
  gap := fun _ _ _ h => absurd hdepot h
  depotGap := fun _ _ => rfl
  status := fun _ => .inl ⟨hdepot, rfl⟩

end Engine

/-! ### What the checks leave open -/

namespace Accepts

variable {model built : Model Float} {config : Config} {family : Family} {plan : Option Plan}

/-- The gap is read by the families of mixed-integer programs. -/
theorem readsGap_eq_false_iff (h : Accepts model config family built plan) :
    family.readsGap = false ↔
      model.type = .linearProgramming ∨ model.type = .constraintProgramming := by
  cases h with
  | linear _ _ htype => exact iff_of_true rfl (.inl htype)
  | mixedInteger _ _ htype => exact iff_of_false Bool.false_ne_true.symm (by rw [htype]; decide)
  | constraint _ _ htype => exact iff_of_true rfl (.inr htype)
  | routing _ _ htype => exact iff_of_false Bool.false_ne_true.symm (by rw [htype]; decide)

theorem gap_eq_none (h : Accepts model config family built plan)
    (htype : model.type = .linearProgramming ∨ model.type = .constraintProgramming)
    (gap : Option Float) : (if family.readsGap then gap else none) = none := by
  rw [h.readsGap_eq_false_iff.2 htype]
  rfl

theorem gap_eq (h : Accepts model config family built plan)
    (hlinear : model.type ≠ .linearProgramming)
    (hconstraint : model.type ≠ .constraintProgramming) (gap : Option Float) :
    (if family.readsGap then gap else none) = gap := by
  refine if_pos (Bool.eq_true_of_not_eq_false fun hreads => ?_)
  exact (h.readsGap_eq_false_iff.1 hreads).elim hlinear hconstraint

/-- There is a plan when the problem is a routing problem. -/
theorem isSome_plan_iff (h : Accepts model config family built plan) :
    plan.isSome ↔ model.type = .vehicleRouting := by
  cases h with
  | linear _ _ htype => exact iff_of_false Bool.false_ne_true (by rw [htype]; decide)
  | mixedInteger _ _ htype => exact iff_of_false Bool.false_ne_true (by rw [htype]; decide)
  | constraint _ _ htype => exact iff_of_false Bool.false_ne_true (by rw [htype]; decide)
  | routing _ _ htype => exact iff_of_true rfl htype

theorem isDepotOnly_iff (h : Accepts model config family built plan) :
    model.IsDepotOnly ↔ ∃ p ∈ plan, p.size = 1 := by
  have hother (htype : model.type ≠ .vehicleRouting) :
      model.IsDepotOnly ↔ ∃ p ∈ (none : Option Plan), p.size = 1 :=
    iff_of_false (fun hdepot => htype hdepot.1) nofun
  cases h with
  | linear _ _ htype => exact hother (by rw [htype]; decide)
  | mixedInteger _ _ htype => exact hother (by rw [htype]; decide)
  | constraint _ _ htype => exact hother (by rw [htype]; decide)
  | @routing plan _ _ htype hplan =>
    constructor
    · rintro ⟨-, other, hother, hsize⟩
      obtain rfl := Except.ok.inj (hplan.symm.trans hother)
      exact ⟨plan, rfl, hsize⟩
    · rintro ⟨other, hmem, hsize⟩
      obtain rfl := Option.some.inj hmem
      exact ⟨htype, plan, hplan, hsize⟩

end Accepts

/-! ### Solves -/

namespace Engine

variable {engine : Engine} {model built : Model Float} {config : Config} {calls : List Call}
  {family : Family} {plan : Option Plan}

/-- Routes are added to values, and where there are none there is nothing to add. -/
theorem conclude_of_values_eq_none {outcome : Outcome} (h : outcome.values = none) :
    conclude plan outcome = .ok outcome := by
  cases plan with
  | none => rfl
  | some plan => exact Family.addRoutes_of_none h

/-- A solver without a solution is not asked for values. -/
theorem readOutcome_of_unsolved {status : Engine.Status} {after : engine.Session}
    (h : status.hasSolution = false) (names : List String) :
    family.readOutcome engine names status after = { status := status } := by
  rw [Family.readOutcome, h]
  rfl

/-- The fields of a solve to which the solver has answered with a solution. -/
theorem Presence.of_answered_solution {ending : Engine.Status} {status : SolveStatus}
    {after : engine.Session} (haccepts : Accepts model config family built plan)
    (hdepot : ¬ model.IsDepotOnly) (hanswers : engine.Answers calls (.status ending) after)
    (hmatches : ending.Matches status) (hsolution : status.hasSolution = true)
    (names : List String) :
    engine.Presence model calls
      (.ofAttempt (conclude plan (family.readOutcome engine names ending after))) := by
  have hnoGap := fun htype => haccepts.gap_eq_none htype (engine.gap after)
  have hgap := fun hlinear hconstraint => haccepts.gap_eq hlinear hconstraint (engine.gap after)
  have hroutes := haccepts.isSome_plan_iff
  rw [Family.readOutcome, if_pos (hmatches.hasSolution_eq.trans hsolution)]
  cases plan with
  | none =>
    show engine.Presence model calls (Outcome.normalize _)
    rw [Outcome.normalize_of_values hmatches.unified?_eq hsolution rfl rfl]
    exact .of_solution hdepot hanswers hmatches hsolution hnoGap hgap hroutes
  | some plan =>
    -- the routes may not add up to tours although there is a solution
    rw [conclude]
    cases htours : plan.routes _ with
    | error cause =>
      rw [Family.addRoutes_of_error rfl htours]
      exact .of_failed _
    | ok routes =>
      rw [Family.addRoutes_of_ok rfl htours]
      show engine.Presence model calls (Outcome.normalize _)
      rw [Outcome.normalize_of_values hmatches.unified?_eq hsolution rfl rfl]
      exact .of_solution hdepot hanswers hmatches hsolution hnoGap hgap hroutes

/-- The fields of a solve that the solver has answered. -/
theorem Presence.of_answer {status : Engine.Status} {after : engine.Session}
    (haccepts : Accepts model config family built plan) (hdrive : ∀ p ∈ plan, p.size ≠ 1)
    (hanswers : engine.Answers calls (.status status) after) (names : List String) :
    engine.Presence model calls
      (.ofAttempt (conclude plan (family.readOutcome engine names status after))) := by
  have hdepot : ¬ model.IsDepotOnly := by
    rw [haccepts.isDepotOnly_iff]
    rintro ⟨p, hp, hsize⟩
    exact hdrive p hp hsize
  rcases status.matches_or_failed with ⟨ending, hmatches⟩ | ⟨hfailed, hsolution⟩
  · cases hsolution : ending.hasSolution with
    | false =>
      rw [readOutcome_of_unsolved (hmatches.hasSolution_eq.trans hsolution),
        conclude_of_values_eq_none rfl]
      show engine.Presence model calls (Outcome.normalize _)
      rw [Outcome.normalize_of_unified hmatches.unified?_eq hsolution]
      exact .of_unsolved hdepot hanswers hmatches hsolution
    | true => exact .of_answered_solution haccepts hdepot hanswers hmatches hsolution names
  · rw [readOutcome_of_unsolved hsolution, conclude_of_values_eq_none rfl]
    show engine.Presence model calls (Outcome.normalize _)
    rw [Outcome.normalize_of_undecided hfailed]
    exact .of_failed _

/-- The fields of a solve by the rules. -/
theorem Conversation.presence {result : Result}
    (h : Conversation engine model config calls result) : engine.Presence model calls result := by
  cases h with
  | rejected => exact .of_failed _
  | refused => exact .of_failed _
  | cut => exact .of_failed _
  | stayed haccepts _ _ hdepot =>
    exact .of_stayHome (haccepts.isDepotOnly_iff.2 ⟨_, rfl, hdepot⟩)
  | crashed => exact .of_failed _
  | answered haccepts hcreate _ hdrive hsolve =>
    exact .of_answer haccepts hdrive (.intro hcreate hsolve) _

/-- **Which fields the result of a solve has**, whatever the model, the settings and the engine. -/
theorem dispatch_presence (engine : Engine) (model : Model Float) (config : Config) :
    engine.Presence model (engine.dispatch model config).1
      (engine.dispatch model config).2 := by
  obtain ⟨calls, result, h⟩ := exists_conversation engine model config
  rw [h.dispatch_eq]
  exact h.presence

end Engine

end OptModel
