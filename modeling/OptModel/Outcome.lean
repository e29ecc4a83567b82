import OptModel.Engine.Basic
import OptModel.Result

/-!
# Outcomes

An outcome is what a family has made of an engine's answer. Normalising turns it into a result: the
statuses of engines become those of results, and what does not go with a status is dropped.

## Main definitions

* `Outcome` — status, objective, values, gap and routes as read off an engine
* `Engine.Status.unified?` — the status of the result
* `Outcome.normalize` — the result
-/

namespace OptModel

/-- What a family has read off an engine. -/
structure Outcome where
  status : Engine.Status
  objectiveValue : Option Float := none
  values : Option Assignment := none
  gap : Option Float := none
  routes : Option (List Route) := none

/-- The status of the result, when the solver came to one. -/
def Engine.Status.unified? : Engine.Status → Option SolveStatus
  | optimal => some .optimal
  | feasible => some .feasible
  | infeasible => some .infeasible
  | unbounded => some .unbounded
  | abnormal | modelInvalid | notSolved => none

/-- The result of an outcome. A solution needs an objective value and values; without a solution
nothing is kept. -/
def Outcome.normalize (outcome : Outcome) : Result :=
  match outcome.status.unified? with
  | none => .failed ("Solver failed with status " ++ Vocabulary.word outcome.status)
  | some status =>
    if !status.hasSolution then .unsolved status
    else
      match outcome.objectiveValue, outcome.values with
      | some objective, some values =>
        { status := status, objectiveValue := some objective, values := some values,
          gap := outcome.gap, routes := outcome.routes }
      | _, _ =>
        .failed ("Solver reported " ++ Vocabulary.word outcome.status ++ " without a solution")

namespace Outcome

variable {outcome : Outcome} {status : SolveStatus}

theorem normalize_of_undecided (h : outcome.status.unified? = none) :
    outcome.normalize =
      .failed ("Solver failed with status " ++ Vocabulary.word outcome.status) := by
  simp only [normalize, h]

theorem normalize_of_unified (h : outcome.status.unified? = some status)
    (hsolution : status.hasSolution = false) : outcome.normalize = .unsolved status := by
  simp only [normalize, h, hsolution, Bool.not_false, if_true]

theorem normalize_of_values {objective : Float} {values : Assignment}
    (h : outcome.status.unified? = some status) (hsolution : status.hasSolution = true)
    (hobjective : outcome.objectiveValue = some objective)
    (hvalues : outcome.values = some values) :
    outcome.normalize =
      { status := status, objectiveValue := some objective, values := some values,
        gap := outcome.gap, routes := outcome.routes } := by
  simp only [normalize, h, hsolution, hobjective, hvalues, Bool.not_true, Bool.false_eq_true,
    if_false]

end Outcome

end OptModel
