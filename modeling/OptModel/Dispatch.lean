import OptModel.Family

/-!
# Dispatch

The one entry point that takes a model and settings to a result. Settings are checked first, then
the model, then whether there is a family for its type; after that the family builds and solves.
Every failure on the way becomes a result with a message.

## Main definitions

* `Model.validate` — the checks of a model
* `checked` — settings, model and type, in this order
* `Engine.attempt` — the calls the engine sees, and the outcome or what stopped the solve
* `Engine.dispatch` — the calls, and the result
* `Engine.dispatchAll` — several jobs, in order
-/

namespace OptModel

/-- What the checks of a model say: nothing, or everything that is wrong with it. -/
def Model.validate (model : Model Float) : Except Fault Unit :=
  if model.isWellFormed then .ok () else .error (.illFormed model.flaws)

/-- The family of a model, once settings and model have been checked. -/
def checked (model : Model Float) (config : Config) : Except Fault Family :=
  match config.flaw? with
  | some flaw => .error (.config flaw)
  | none =>
    match model.validate with
    | .error fault => .error fault
    | .ok () =>
      match Family.ofType? model.type with
      | none => .error (.unsupported model.type)
      | some family => .ok family

section Checks

variable {model : Model Float} {config : Config}

theorem Model.validate_of_isWellFormed (h : model.isWellFormed = true) : model.validate = .ok () :=
  if_pos h

theorem Model.validate_of_not_isWellFormed (h : model.isWellFormed = false) :
    model.validate = .error (.illFormed model.flaws) :=
  if_neg (Bool.not_eq_true _ ▸ h)

theorem checked_of_flaw {flaw : Config.Flaw} (h : config.flaw? = some flaw) :
    checked model config = .error (.config flaw) := by
  simp only [checked, h]

theorem checked_of_invalid {fault : Fault} (hconfig : config.flaw? = none)
    (h : model.validate = .error fault) : checked model config = .error fault := by
  simp only [checked, hconfig, h]

theorem checked_of_unsupported (hconfig : config.flaw? = none) (hmodel : model.validate = .ok ())
    (h : Family.ofType? model.type = none) :
    checked model config = .error (.unsupported model.type) := by
  simp only [checked, hconfig, hmodel, h]

theorem checked_of_family {family : Family} (hconfig : config.flaw? = none)
    (hmodel : model.validate = .ok ()) (h : Family.ofType? model.type = some family) :
    checked model config = .ok family := by
  simp only [checked, hconfig, hmodel, h]

end Checks

/-- The result of a solve that came to an outcome or stopped. -/
def Result.ofAttempt : Except Family.Stop Outcome → Result
  | .ok outcome => outcome.normalize
  | .error stop => .failed stop.message

namespace Engine

variable (engine : Engine)

/-- Check, build and solve: what the engine sees, and what comes of it. -/
def attempt (model : Model Float) (config : Config) : List Call × Except Family.Stop Outcome :=
  match checked model config with
  | .error fault => ([], .error (.fault fault))
  | .ok family =>
    match family.build engine config model with
    | (calls, .error fault) => (calls, .error (.fault fault))
    | (calls, .ok prepared) =>
      let (further, outcome) := family.solve engine config prepared
      (calls ++ further, outcome)

section Equations

variable {engine} {model : Model Float} {config : Config} {family : Family} {fault : Fault}
  {calls : List Call}

theorem attempt_of_rejected (h : checked model config = .error fault) :
    engine.attempt model config = ([], .error (.fault fault)) := by
  simp only [attempt, h]

theorem attempt_of_unbuilt (hchecked : checked model config = .ok family)
    (h : family.build engine config model = (calls, .error fault)) :
    engine.attempt model config = (calls, .error (.fault fault)) := by
  simp only [attempt, hchecked, h]

theorem attempt_of_built {prepared : Family.Prepared engine}
    (hchecked : checked model config = .ok family)
    (h : family.build engine config model = (calls, .ok prepared)) :
    engine.attempt model config =
      (calls ++ (family.solve engine config prepared).1,
        (family.solve engine config prepared).2) := by
  simp only [attempt, hchecked, h]

end Equations

/-- Solve a model: what the engine sees, and the result. -/
def dispatch (model : Model Float) (config : Config) : List Call × Result :=
  let (calls, outcome) := engine.attempt model config
  (calls, Result.ofAttempt outcome)

/-- Solve several models, each on a solver of its own: what the engine sees, and the results in the
order of the jobs. -/
def dispatchAll (jobs : List (Model Float × Config)) : List Call × List Result :=
  let answers := jobs.map fun (model, config) => engine.dispatch model config
  (answers.flatMap Prod.fst, answers.map Prod.snd)

end Engine

end OptModel
