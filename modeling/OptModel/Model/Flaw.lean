import OptModel.Model.Basic
import OptModel.Decimal.Text
import OptModel.Text.Blank

/-!
# Well-formed models

A model is well formed when its variable names are not blank and pairwise distinct, no bound is a
NaN, no variable that is not binary has its bounds the wrong way round, and every right-hand side is
finite. What is wrong with a model that is not is listed in full: for each variable in turn first
what is wrong with its name and then what is wrong with its bounds, and after them the rows.
Expressions are not looked into.

## Main definitions

* `Model.Flaw` — one thing that is wrong
* `Model.flaws` — everything that is wrong
-/

namespace OptModel

/-- One way in which a model is not well formed. -/
inductive Model.Flaw where
  | blankName
  | repeatedName (name : String)
  | nanBound (name : String)
  | crossedBounds (name : String) (lower upper : Float)
  | nonFiniteRhs (position : Nat) (name : String)

/-- The text of a flaw. -/
def Model.Flaw.message : Model.Flaw → String
  | blankName => "Variable names must not be empty"
  | repeatedName name => s!"Duplicate variable '{name}'"
  | nanBound name => s!"Variable '{name}' has a NaN bound"
  | crossedBounds name lower upper =>
    s!"Variable '{name}' has lower bound (" ++ plainText lower ++ ") > upper bound (" ++
      plainText upper ++ ")"
  | nonFiniteRhs position name =>
    s!"Constraint {position} '{name}' has a non-finite right-hand side"

/-- What is wrong with the name of a variable that comes after variables named `earlier`. -/
def Variable.nameFlaw? (earlier : List String) (v : Variable Float) : Option Model.Flaw :=
  if Text.allBlank v.name.toList then some .blankName
  else if earlier.contains v.name then some (.repeatedName v.name)
  else none

/-- Whether a bound is declared and is a NaN. -/
private def isNaNBound (bound : Option Float) : Bool := bound.any Float.isNaN

/-- What is wrong with the bounds of a variable. -/
def Variable.boundFlaw? (v : Variable Float) : Option Model.Flaw :=
  if isNaNBound v.lowerBound || isNaNBound v.upperBound then some (.nanBound v.name)
  else if v.kind != .binary && v.upper < v.lower then
    some (.crossedBounds v.name v.lower v.upper)
  else none

/-- What is wrong with `vars`, which come after variables named `earlier`. -/
def variableFlaws : List String → List (Variable Float) → List Model.Flaw
  | _, [] => []
  | earlier, v :: rest =>
    (v.nameFlaw? earlier).toList ++ v.boundFlaw?.toList ++ variableFlaws (v.name :: earlier) rest

/-- What is wrong with the row at `position`. -/
def Row.flaw? (row : Row Float) (position : Nat) : Option Model.Flaw :=
  if row.rhs.isFinite then none else some (.nonFiniteRhs position row.name)

/-- Everything that keeps a model from being well formed. -/
def Model.flaws (model : Model Float) : List Model.Flaw :=
  variableFlaws [] model.vars ++
    model.rows.zipIdx.filterMap fun (row, position) => row.flaw? position

/-- Whether a model is well formed. -/
def Model.isWellFormed (model : Model Float) : Bool := model.flaws.isEmpty

end OptModel
