import OptModel.Json.Record
import OptModel.Model.Basic

/-!
# Models as JSON records

The layouts of a model and of its parts. Of a model only the type has to be given; of a variable its
name; of a row its expression, its type and its right-hand side; of a location its coordinates.

## Main definitions

* `Variable.layout`, `Row.layout`, `Objective.layout`, `Location.layout`, `Model.layout`
* `Model.decode`, `Model.encode` — models as texts
-/

namespace OptModel

open Json

/-- The record of a variable. -/
def Variable.layout : Layout (Variable Float) where
  title := "struct Variable"
  blank := { name := "" }
  fields := [
    .required "name" text (·.name) (fun a r => { r with name := a }),
    .defaulted "type" (word VariableKind) (·.kind) (fun a r => { r with kind := a })
      (fun _ => false),
    .optional "lowerBound" number (·.lowerBound) (fun a r => { r with lowerBound := a }),
    .optional "upperBound" number (·.upperBound) (fun a r => { r with upperBound := a }),
    .optional "initialValue" number (·.initialValue) (fun a r => { r with initialValue := a })]

/-- The record of a row. -/
def Row.layout : Layout (Row Float) where
  title := "struct Constraint"
  blank := { expression := "", sense := .equal, rhs := 0.0 }
  fields := [
    .defaulted "name" text (·.name) (fun a r => { r with name := a }) (fun _ => false),
    .required "expression" text (·.expression) (fun a r => { r with expression := a }),
    .required "type" (word RowSense) (·.sense) (fun a r => { r with sense := a }),
    .required "rhs" number (·.rhs) (fun a r => { r with rhs := a })]

/-- The record of an objective. -/
def Objective.layout : Layout Objective where
  title := "struct Objective"
  blank := {}
  fields := [
    .defaulted "name" text (·.name) (fun a r => { r with name := a }) (fun _ => false),
    .defaulted "sense" (word Direction) (·.sense) (fun a r => { r with sense := a })
      (fun _ => false),
    .defaulted "expression" text (·.expression) (fun a r => { r with expression := a })
      (fun _ => false)]

/-- The record of a location. -/
def Location.layout : Layout Location where
  title := "struct Location"
  blank := { x := 0.0, y := 0.0 }
  fields := [
    .optional "name" text (·.name) (fun a r => { r with name := a }),
    .required "x" number (·.x) (fun a r => { r with x := a }),
    .required "y" number (·.y) (fun a r => { r with y := a })]

/-- The record of a model. -/
def Model.layout : Layout (Model Float) where
  title := "struct ModelDescription"
  blank := { type := .linearProgramming }
  fields := [
    .defaulted "name" text (·.name) (fun a r => { r with name := a }) (fun _ => false),
    .required "type" (word ProblemType) (·.type) (fun a r => { r with type := a }),
    .defaulted "variables" (list Variable.layout.codec) (·.vars)
      (fun a r => { r with vars := a }) (fun _ => false),
    .defaulted "constraints" (list Row.layout.codec) (·.rows) (fun a r => { r with rows := a })
      (fun _ => false),
    .defaulted "objective" Objective.layout.codec (·.objective)
      (fun a r => { r with objective := a }) (fun _ => false),
    .defaulted "locations" (list Location.layout.codec) (·.locations)
      (fun a r => { r with locations := a }) List.isEmpty,
    .optional "vehicles" count (·.vehicles) (fun a r => { r with vehicles := a }),
    .optional "depot" count (·.depot) (fun a r => { r with depot := a }),
    .optional "distanceMatrix" (list (list number)) (·.distances)
      (fun a r => { r with distances := a })]

/-- The model that a text describes. -/
def Model.decode (text : String) : Except Json.Fault (Model Float) := Model.layout.codec.decode text

/-- The text of a model. -/
def Model.encode (model : Model Float) : String := Model.layout.codec.encode model

end OptModel
