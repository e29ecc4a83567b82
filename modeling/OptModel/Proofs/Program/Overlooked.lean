import OptModel.Proofs.Program.Violations

/-!
# Rows that are overlooked

The coefficients of a row may be finite and the values too, and yet their products may overflow.
Where an infinite partial sum of the left side then meets the opposite infinity, the left side is a
NaN and so is the violation of the row. What is no number gives way in a running maximum, so the
row is not counted at all: the values pass although the row is not met.

That is the only way in which a row can be overlooked. A row whose products do not overflow is
always counted.

## Main definitions

* `LinearForm.Clashes` — an infinite partial sum meets the opposite infinity
* `ProgramRow.Met` — a row whose violation is within the tolerance

## Main results

* `LinearForm.isNaN_evaluate_iff` — what makes a left side a NaN
* `Program.isFeasible_met_or_clashes` — what the feasibility check says about the rows
* `Program.isFeasible_overflowing` — values that pass without meeting the only row
-/

namespace OptModel

open Scalar

/-! ### Left sides -/

namespace LinearForm

variable {H : Type} {form : LinearForm H Float} {value : H → Float}

/-- Whether, added up from the left, an infinite partial sum meets the opposite infinity. -/
def Clashes (form : LinearForm H Float) (value : H → Float) : Prop :=
  ∃ before t after, form.terms = before ++ t :: after ∧
    Binary64.Opposite (evaluate ⟨before⟩ value) (t.2 * value t.1)

theorem evaluate_eq_foldl (terms : List (H × Float)) (value : H → Float) :
    evaluate ⟨terms⟩ value = (terms.map fun t => t.2 * value t.1).foldl (· + ·) (-0.0) := by
  rw [List.foldl_map]
  rfl

/-- **A left side is a NaN** just when it clashes, if its products are numbers. -/
theorem isNaN_evaluate_iff (hproducts : ∀ t ∈ form.terms, (t.2 * value t.1).isNaN = false) :
    (form.evaluate value).isNaN ↔ form.Clashes value := by
  rw [evaluate_eq_foldl form.terms,
    Binary64.isNaN_foldl_add_iff (by decide) (List.forall_mem_map.2 hproducts)]
  constructor
  · rintro ⟨before, c, after, hsplit, hopposite⟩
    obtain ⟨before, rest, hterms, rfl, hrest⟩ := List.map_eq_append_iff.1 hsplit
    obtain ⟨t, after, rfl, rfl, rfl⟩ := List.map_eq_cons_iff.1 hrest
    rw [← evaluate_eq_foldl] at hopposite
    exact ⟨before, t, after, hterms, hopposite⟩
  · rintro ⟨before, t, after, hterms, hopposite⟩
    rw [evaluate_eq_foldl] at hopposite
    exact ⟨_, _, after.map fun t => t.2 * value t.1, by rw [hterms]; simp, hopposite⟩

/-- Products that do not overflow do not clash. -/
theorem not_clashes_of_isFinite (h : ∀ t ∈ form.terms, (t.2 * value t.1).isFinite) :
    ¬ form.Clashes value := by
  rintro ⟨before, t, after, hterms, hopposite⟩
  have hmem : t ∈ form.terms := by
    rw [hterms]
    exact List.mem_append_right _ List.mem_cons_self
  exact Binary64.not_opposite_of_isFinite (.inr (h t hmem)) hopposite

end LinearForm

/-! ### Rows -/

/-- A row whose coefficients and right-hand side are finite. -/
structure ProgramRow.IsFinite (row : ProgramRow Float) : Prop where
  coefficients : ∀ t ∈ row.form.terms, t.2.isFinite
  rhs : row.rhs.isFinite

/-- Whether the violation of a row is within the tolerance. -/
def ProgramRow.Met (row : ProgramRow Float) (values : List Float) : Prop :=
  row.violation (Program.valueOf values) ≤ Program.feasibilityTolerance

instance (row : ProgramRow Float) (values : List Float) : Decidable (row.Met values) :=
  inferInstanceAs (Decidable (_ ≤ _))

theorem Program.isFinite_valueOf {values : List Float} (hvalues : ∀ x ∈ values, x.isFinite)
    (i : ℕ) : (valueOf values i).isFinite := by
  rw [valueOf, List.getD_eq_getElem?_getD]
  cases hi : values[i]? with
  | none => exact (by decide : (0.0 : Float).isFinite)
  | some x => exact hvalues x (List.mem_of_getElem? hi)

namespace ProgramRow

variable {row : ProgramRow Float} {values : List Float}

/-- The violation of a row is a NaN just when its left side is. -/
theorem isNaN_violation (hrhs : row.rhs.isFinite) (value : ℕ → Float) :
    (row.violation value).isNaN = (row.form.evaluate value).isNaN := by
  rw [violation]
  cases row.sense with
  | equal => exact (Binary64.isNaN_abs _).trans (Binary64.isNaN_sub_finite hrhs)
  | atMost => exact Binary64.isNaN_sub_finite hrhs
  | atLeast => exact Binary64.isNaN_finite_sub hrhs

theorem IsFinite.isNaN_evaluate_iff (h : row.IsFinite) (hvalues : ∀ x ∈ values, x.isFinite) :
    (row.form.evaluate (Program.valueOf values)).isNaN ↔
      row.form.Clashes (Program.valueOf values) :=
  LinearForm.isNaN_evaluate_iff fun t ht =>
    Binary64.isNaN_mul (h.coefficients t ht) (Program.isFinite_valueOf hvalues t.1)

/-- A row that clashes is not met. -/
theorem IsFinite.not_clashes_of_met (h : row.IsFinite) (hvalues : ∀ x ∈ values, x.isFinite)
    (hmet : row.Met values) : ¬ row.form.Clashes (Program.valueOf values) := by
  rw [← h.isNaN_evaluate_iff hvalues, ← isNaN_violation h.rhs, Bool.not_eq_true]
  exact (Binary64.isNaN_of_le hmet).1

/-- **A row passes** when it is met and when it clashes. -/
theorem IsFinite.violation_atMost_iff (h : row.IsFinite) (hvalues : ∀ x ∈ values, x.isFinite) :
    (IsNumber (row.violation (Program.valueOf values)) →
      atMost (row.violation (Program.valueOf values)) Program.feasibilityTolerance = true) ↔
      row.Met values ∨ row.form.Clashes (Program.valueOf values) := by
  rw [atMost_if_isNumber_iff, isNaN_violation h.rhs, h.isNaN_evaluate_iff hvalues, or_comm]
  rfl

end ProgramRow

/-! ### Programs -/

namespace Program

/-- The values that pass the feasibility check. -/
theorem isFeasible_iff {program : Program Float} {values : List Float}
    (hrows : ∀ row ∈ program.rows, row.IsFinite) :
    program.isFeasible values = true ↔
      values.length = program.columns.length ∧ (∀ x ∈ values, x.isFinite) ∧
        (∀ cv ∈ program.columns.zip values, ∀ v ∈ cv.1.violations cv.2,
          v.isNaN ∨ v ≤ feasibilityTolerance) ∧
        ∀ row ∈ program.rows, row.Met values ∨ row.form.Clashes (valueOf values) := by
  rw [isFeasible, isFeasibleWithin, maxViolation_atMost_iff (by decide) (by decide)]
  refine and_congr_right fun _ => and_congr_right fun hvalues => and_congr ?_ ?_
  · exact forall₂_congr fun _ _ => forall₂_congr fun _ _ => atMost_if_isNumber_iff
  · exact forall₂_congr fun row hrow => (hrows row hrow).violation_atMost_iff hvalues

/-- **What the feasibility check says about rows** with finite coefficients and right-hand sides:
each of them is met or clashes. The values that pass meet just the rows whose left side is no NaN,
among them all those whose products do not overflow. -/
theorem isFeasible_met_or_clashes (program : Program Float) (values : List Float)
    (hrows : ∀ row ∈ program.rows, row.IsFinite) :
    (program.isFeasible values = true ↔
      values.length = program.columns.length ∧ (∀ x ∈ values, x.isFinite) ∧
        (∀ cv ∈ program.columns.zip values, ∀ v ∈ cv.1.violations cv.2,
          v.isNaN ∨ v ≤ feasibilityTolerance) ∧
        ∀ row ∈ program.rows, row.Met values ∨ row.form.Clashes (valueOf values)) ∧
    (program.isFeasible values = true → ∀ row ∈ program.rows,
      ((row.form.evaluate (valueOf values)).isNaN ↔ row.form.Clashes (valueOf values)) ∧
      (row.Met values ↔ ¬ row.form.Clashes (valueOf values)) ∧
      ((∀ t ∈ row.form.terms, (t.2 * valueOf values t.1).isFinite) → row.Met values)) := by
  refine ⟨isFeasible_iff hrows, fun hfeasible row hrow => ?_⟩
  obtain ⟨-, hvalues, -, hpasses⟩ := (isFeasible_iff hrows).1 hfeasible
  have hmet : row.Met values ↔ ¬ row.form.Clashes (valueOf values) :=
    ⟨(hrows row hrow).not_clashes_of_met hvalues, (hpasses row hrow).resolve_right⟩
  exact ⟨(hrows row hrow).isNaN_evaluate_iff hvalues, hmet, fun hproducts =>
    hmet.2 (LinearForm.not_clashes_of_isFinite hproducts)⟩

/-- Two numbers, the first of which is at most half the other. -/
def halved : Program Float where
  columns := [⟨"x", .continuous, 0.0, 10.0⟩, ⟨"y", .integer, 0.0, Binary64.infinity⟩]
  rows := [⟨⟨[(0, 2.0), (1, -1.0)]⟩, .atMost, 0.0⟩]

theorem isFeasible_halved :
    (∀ row ∈ halved.rows, row.IsFinite) ∧ halved.isFeasible [1.5, 3.0] = true ∧
      ∀ row ∈ halved.rows, row.Met [1.5, 3.0] := by
  have hrows : ∀ row ∈ halved.rows, row.IsFinite := by
    intro row hrow
    rw [List.mem_singleton.1 hrow]
    exact ⟨by decide, by decide⟩
  have hfeasible : halved.isFeasible [1.5, 3.0] = true := by decide +kernel
  refine ⟨hrows, hfeasible, fun row hrow => ?_⟩
  obtain ⟨-, -, hmet⟩ := (isFeasible_met_or_clashes halved [1.5, 3.0] hrows).2 hfeasible row hrow
  exact hmet (by rw [List.mem_singleton.1 hrow]; decide)

/-- Two numbers whose sum, times `1e308`, is not negative. -/
def overflowing : Program Float where
  columns := [⟨"x", .continuous, -Binary64.infinity, Binary64.infinity⟩,
    ⟨"y", .continuous, -Binary64.infinity, Binary64.infinity⟩]
  rows := [⟨⟨[(0, 1e308), (1, 1e308)]⟩, .atLeast, 0.0⟩]

/-- The products for `10` and `-20` are opposite infinities, so these values pass the check. The
row is finite, is over the columns of the program, and is not met. -/
theorem isFeasible_overflowing :
    overflowing.isFeasible [10.0, -20.0] = true ∧
      ∀ row ∈ overflowing.rows, row.IsFinite ∧
        (∀ t ∈ row.form.terms, t.1 < overflowing.columns.length) ∧
        (row.form.evaluate (valueOf [10.0, -20.0])).isNaN ∧ ¬ row.Met [10.0, -20.0] := by
  refine ⟨by decide +kernel, fun row hrow => ?_⟩
  rw [List.mem_singleton.1 hrow]
  exact ⟨⟨by decide +kernel, by decide⟩, by decide, by decide +kernel, by decide +kernel⟩

end Program

end OptModel
