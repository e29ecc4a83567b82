import OptModel.Proofs.Program.Satisfied
import OptModel.Proofs.Program.Violations
import Mathlib.Algebra.Order.Round
import Mathlib.Data.Rat.Floor

/-!
# What the largest violation measures

In exact arithmetic every violation says how far a condition is from holding: the largest violation
is below a tolerance just when the program is satisfied within that tolerance. The conditions are
those of `Program.Satisfied`, which tests rows as `RowSense.holds` does and asks an integer to be
near, whichever it is; the largest violation subtracts the two sides of a row and rounds.

Violations and rows disagree where a side of a row is no number, and where an equation compares an
infinity with itself: such a row has no violation, so nothing is measured of it, and it does not
hold. Neither happens if coefficients are rational and right-hand sides are numbers, infinities
among them.

## Main definitions

* `ProgramRow.IsMeasured` — a row whose violation says whether it holds
* `ProgramRow.IsExact` — a row with rational coefficients
* `Program.Overlooks` — a program that is not satisfied by values without a violation

## Main results

* `abs_sub_roundHalfAway_le_iff` — rounding finds a near integer if there is one
* `Column.violations_atMost_iff`, `ProgramRow.IsMeasured.violation_atMost_iff` — a column and a row
* `Program.maxViolation_measures` — the whole program
* `Program.maxViolation_equating` — rows of which nothing is measured
-/

namespace OptModel

open Scalar

/-- **Rounding finds a near integer** if there is one. -/
theorem abs_sub_roundHalfAway_le_iff (q t : ℚ) :
    |q - Binary64.roundHalfAway q| ≤ t ↔ ∃ k : ℤ, |q - k| ≤ t := by
  constructor
  · exact fun h => ⟨_, h⟩
  · rintro ⟨k, hk⟩
    refine le_trans ?_ hk
    by_cases hq : q < 0
    · -- A negative number is rounded as its opposite is.
      have hround : Binary64.roundHalfAway q = -round (-q) := by
        rw [Binary64.roundHalfAway, if_pos hq, round_eq]
        rfl
      calc |q - Binary64.roundHalfAway q| = |(-q) - round (-q)| := by
            rw [hround, ← abs_neg]
            push_cast
            ring_nf
        _ ≤ |(-q) - (-k : ℤ)| := round_le _ _
        _ = |q - k| := by
            rw [← abs_neg]
            push_cast
            ring_nf
    · have hround : Binary64.roundHalfAway q = round q := by
        rw [Binary64.roundHalfAway, if_neg hq, round_eq]
        rfl
      rw [hround]
      exact round_le q k

namespace Extended

theorem isNumber_rational (q : ℚ) : IsNumber (rational q) := isNumber_iff.2 nofun

theorem isNumber_rational_sub {b : Extended} (hb : b ≠ undefined) (x : ℚ) :
    IsNumber (rational x - b) := by
  rw [isNumber_iff]
  cases b with
  | undefined => exact absurd rfl hb
  | _ => exact nofun

/-- How far a number is above another. -/
theorem sub_within_iff {a b : Extended} (ha : a ≠ undefined) (hb : b ≠ undefined) (t : ℚ) :
    (IsNumber (a - b) → atMost (a - b) (rational t) = true) ↔
      atMost a (b + rational t) = true := by
  cases a with
  | rational p =>
    cases b with
    | rational q =>
      rw [rational_sub, rational_add, imp_iff_right (isNumber_rational _), atMost_rational,
        atMost_rational, decide_eq_true_iff, decide_eq_true_iff, sub_le_iff_le_add']
    | top => exact iff_of_true (fun _ => rfl) rfl
    | bottom => exact iff_of_false (fun h => Bool.false_ne_true (h rfl)) Bool.false_ne_true
    | undefined => exact absurd rfl hb
  | top =>
    cases b with
    | top => exact iff_of_true (fun h => absurd h (isNumber_iff.not.2 (not_not_intro rfl))) rfl
    | rational | bottom =>
      exact iff_of_false (fun h => Bool.false_ne_true (h rfl)) Bool.false_ne_true
    | undefined => exact absurd rfl hb
  | bottom =>
    cases b with
    | rational | top => exact iff_of_true (fun _ => rfl) rfl
    | bottom => exact iff_of_true (fun h => absurd h (isNumber_iff.not.2 (not_not_intro rfl))) rfl
    | undefined => exact absurd rfl hb
  | undefined => exact absurd rfl ha

/-- The tolerance can be given to either side. -/
theorem atMost_add_iff {a b : Extended} (ha : a ≠ undefined) (hb : b ≠ undefined) (t : ℚ) :
    atMost a (b + rational t) = true ↔ atMost (a - rational t) b = true := by
  cases a with
  | rational p =>
    cases b with
    | rational q =>
      rw [rational_sub, rational_add, atMost_rational, atMost_rational, decide_eq_true_iff,
        decide_eq_true_iff, sub_le_iff_le_add]
    | top | bottom => exact Iff.rfl
    | undefined => exact absurd rfl hb
  | top | bottom => cases b <;> exact Iff.rfl
  | undefined => exact absurd rfl ha

theorem isNumber_magnitude {a : Extended} (ha : IsNumber a) : IsNumber (magnitude a) := by
  rw [isNumber_iff] at ha ⊢
  cases a with
  | undefined => exact absurd rfl ha
  | _ => exact nofun

end Extended

/-! ### Columns and rows -/

/-- **What is checked of a column** is within a tolerance just when the column takes the value
within it. -/
theorem Column.violations_atMost_iff {c : Column Extended} (hlower : c.lower ≠ .undefined)
    (hupper : c.upper ≠ .undefined) (x t : ℚ) :
    (∀ v ∈ c.violations (.rational x), IsNumber v → atMost v (.rational t) = true) ↔
      c.Takes t x := by
  have hbounds : (∀ v ∈ [c.lower - .rational x, .rational x - c.upper],
      IsNumber v → atMost v (.rational t) = true) ↔
      atMost (c.lower - .rational t) (.rational x) = true ∧
        atMost (.rational x) (c.upper + .rational t) = true := by
    have hx : Extended.rational x ≠ .undefined := nofun
    rw [List.forall_mem_cons, List.forall_mem_singleton, Extended.sub_within_iff hlower hx,
      Extended.sub_within_iff hx hupper, Extended.atMost_add_iff hlower hx]
  have hgap : magnitude (Extended.rational x - nearestInteger (.rational x)) =
      .rational |x - Binary64.roundHalfAway x| := by
    show magnitude (Extended.rational x - .rational (Binary64.roundHalfAway x)) = _
    rw [Extended.rational_sub]
    rfl
  have hintegral : (∀ v ∈ (if c.kind = .continuous then [] else
      [magnitude (Extended.rational x - nearestInteger (.rational x))]),
      IsNumber v → atMost v (.rational t) = true) ↔
      (c.kind ≠ .continuous → ∃ k : ℤ, |x - k| ≤ t) := by
    rw [← abs_sub_roundHalfAway_le_iff]
    split
    · next hkind => exact iff_of_true nofun fun hne => absurd hkind hne
    · next hkind =>
      rw [List.forall_mem_singleton, imp_iff_right hkind, hgap,
        imp_iff_right (Extended.isNumber_rational _), Extended.atMost_rational, decide_eq_true_iff]
  rw [Column.violations, List.forall_mem_append, hbounds, hintegral]
  constructor
  · rintro ⟨⟨hlower, hupper⟩, hintegral⟩
    exact ⟨hlower, hupper, hintegral⟩
  · rintro ⟨hlower, hupper, hintegral⟩
    exact ⟨⟨hlower, hupper⟩, hintegral⟩

/-- A row whose violation at `values` says whether it holds: its sides are numbers, and if it is an
equation they are not the same infinity. -/
structure ProgramRow.IsMeasured (row : ProgramRow Extended) (values : List ℚ) : Prop where
  lhs : row.form.evaluate (Program.valueOf (values.map .rational)) ≠ .undefined
  rhs : row.rhs ≠ .undefined
  difference : row.sense = .equal →
    row.form.evaluate (Program.valueOf (values.map .rational)) - row.rhs ≠ .undefined

/-- **What is checked of a row** is within a tolerance just when the row holds within it. -/
theorem ProgramRow.IsMeasured.violation_atMost_iff {row : ProgramRow Extended} {values : List ℚ}
    (h : row.IsMeasured values) (t : ℚ) :
    (IsNumber (row.violation (Program.valueOf (values.map .rational))) →
      atMost (row.violation (Program.valueOf (values.map .rational))) (.rational t) = true) ↔
      row.sense.holds (row.form.evaluate (Program.valueOf (values.map .rational))) row.rhs
        (.rational t) = true := by
  obtain ⟨hlhs, hrhs, hdifference⟩ := h
  rw [ProgramRow.violation]
  cases hsense : row.sense with
  | equal =>
    exact imp_iff_right (Extended.isNumber_magnitude (Extended.isNumber_iff.2 (hdifference hsense)))
  | atMost => exact Extended.sub_within_iff hlhs hrhs t
  | atLeast =>
    exact (Extended.sub_within_iff hrhs hlhs t).trans (Extended.atMost_add_iff hrhs hlhs t)

/-- A row whose coefficients are rationals and whose right-hand side is a number. -/
structure ProgramRow.IsExact (row : ProgramRow Extended) : Prop where
  coefficients : ∃ form : LinearForm ℕ ℚ, row.form = form.map .rational
  rhs : row.rhs ≠ .undefined

/-- Rows with rational coefficients are measured at all values. -/
theorem ProgramRow.IsExact.isMeasured {row : ProgramRow Extended} (h : row.IsExact)
    (values : List ℚ) : row.IsMeasured values := by
  obtain ⟨⟨form, hform⟩, hrhs⟩ := h
  have hlhs : row.form.evaluate (Program.valueOf (values.map .rational)) =
      .rational (form.weight fun i => values.getD i 0) := by
    rw [hform, Program.valueOf_map_rational, LinearForm.evaluate_map_rational]
  refine ⟨hlhs ▸ nofun, hrhs, fun _ => ?_⟩
  rw [hlhs]
  exact Extended.isNumber_iff.1 (Extended.isNumber_rational_sub hrhs _)

/-! ### Programs -/

namespace Program

variable {program : Program Extended}

/-- Satisfying a program is what the largest violation asks for. -/
theorem maxViolation_atMost_iff_satisfied
    (hbounds : ∀ c ∈ program.columns, c.lower ≠ .undefined ∧ c.upper ≠ .undefined)
    {values : List ℚ} (hrows : ∀ row ∈ program.rows, row.IsMeasured values) {t : ℚ}
    (ht : 0 ≤ t) :
    atMost (program.maxViolation (values.map .rational)) (.rational t) = true ↔
      program.Satisfied t values := by
  have hcolumns : (∀ cv ∈ program.columns.zip (values.map Extended.rational),
      ∀ v ∈ cv.1.violations cv.2, IsNumber v → atMost v (.rational t) = true) ↔
      ∀ cv ∈ program.columns.zip values, cv.1.Takes t cv.2 := by
    rw [List.zip_map_right, List.forall_mem_map]
    refine forall₂_congr fun cv hcv => ?_
    obtain ⟨hlower, hupper⟩ := hbounds cv.1 (List.of_mem_zip hcv).1
    exact Column.violations_atMost_iff hlower hupper cv.2 t
  rw [maxViolation_atMost_iff (decide_eq_true ht) Bool.false_ne_true, List.length_map, hcolumns,
    forall₂_congr fun row hrow => (hrows row hrow).violation_atMost_iff t]
  constructor
  · rintro ⟨hlength, -, hcolumns, hrows⟩
    exact ⟨hlength, hcolumns, hrows⟩
  · rintro ⟨hlength, hcolumns, hrows⟩
    exact ⟨hlength, List.forall_mem_map.2 fun _ _ => rfl, hcolumns, hrows⟩

/-- **The largest violation measures feasibility**, unless a row is not measured. In exact
arithmetic it is below a tolerance just when the values satisfy the program within it, so this is
what the feasibility check decides at its own tolerance, and a larger tolerance is satisfied as
well. -/
theorem maxViolation_measures (program : Program Extended) (values : List ℚ)
    (hbounds : ∀ c ∈ program.columns, c.lower ≠ .undefined ∧ c.upper ≠ .undefined)
    (hrows : ∀ row ∈ program.rows, row.IsMeasured values) :
    (∀ t : ℚ, 0 ≤ t →
      (atMost (program.maxViolation (values.map .rational)) (.rational t) = true ↔
        program.Satisfied t values)) ∧
    (program.isFeasibleWithin (.ofFloat feasibilityTolerance) (values.map .rational) = true ↔
      program.Satisfied (Binary64.value feasibilityTolerance) values) ∧
    ∀ s t : ℚ, 0 ≤ s → s ≤ t → program.Satisfied s values → program.Satisfied t values := by
  have hmeasure {t : ℚ} (ht : 0 ≤ t) :=
    maxViolation_atMost_iff_satisfied hbounds hrows ht
  refine ⟨fun t ht => hmeasure ht, ?_, ?_⟩
  · have hfinite : feasibilityTolerance.isFinite := by decide
    rw [isFeasibleWithin, Extended.ofFloat_of_isFinite hfinite]
    exact hmeasure (by decide +kernel)
  · intro s t hs hst hsatisfied
    exact (hmeasure (hs.trans hst)).1
      (LawfulScalar.trans ((hmeasure hs).2 hsatisfied) (decide_eq_true hst))

/-- Taking an article or not and a number of another, up to a capacity. -/
def capacity : Program Extended where
  columns := [⟨"take", .binary, .rational 0, .rational 1⟩, ⟨"count", .integer, .rational 0, .top⟩]
  rows := [⟨⟨[(0, .rational 2), (1, .rational 1)]⟩, .atMost, .rational 4⟩]

/-- The capacity is used up by two of the other article, and exceeded by one with three of them. -/
theorem satisfied_capacity :
    (∀ c ∈ capacity.columns, c.lower ≠ .undefined ∧ c.upper ≠ .undefined) ∧
      (∀ row ∈ capacity.rows, row.IsExact) ∧
      capacity.Satisfied (Binary64.value feasibilityTolerance) [1, 2] ∧
      capacity.Satisfied 1 [1, 3] ∧ ¬ capacity.Satisfied (1 / 2) [1, 3] := by
  have hbounds : ∀ c ∈ capacity.columns, c.lower ≠ .undefined ∧ c.upper ≠ .undefined := by decide
  have hrows : ∀ row ∈ capacity.rows, row.IsExact := by
    intro row hrow
    rw [List.mem_singleton.1 hrow]
    exact ⟨⟨⟨[(0, 2), (1, 1)]⟩, rfl⟩, nofun⟩
  obtain ⟨-, hcheck, -⟩ := maxViolation_measures capacity [1, 2] hbounds
    fun row hrow => (hrows row hrow).isMeasured _
  obtain ⟨hmeasure, -, -⟩ := maxViolation_measures capacity [1, 3] hbounds
    fun row hrow => (hrows row hrow).isMeasured _
  refine ⟨hbounds, hrows, hcheck.1 (by decide +kernel), ?_, ?_⟩
  · exact (hmeasure 1 zero_le_one).1 (by decide +kernel)
  · exact mt (hmeasure (1 / 2) (by norm_num)).2 (by decide +kernel)

/-! ### Rows of which nothing is measured -/

/-- A column that takes every number and a row that equates a multiple of it with something. -/
def equating (coefficient rhs : Float) : Program Float where
  columns := [⟨"x", .continuous, -Binary64.infinity, Binary64.infinity⟩]
  rows := [⟨⟨[(0, coefficient)]⟩, .equal, rhs⟩]

/-- Values that violate a program by nothing and do not satisfy it, whatever the tolerance, although
its bounds are numbers and its rows are over its columns. -/
structure Overlooks (program : Program Float) (values : List ℚ) : Prop where
  bounds : ∀ c ∈ program.columns, c.lower.isNaN = false ∧ c.upper.isNaN = false
  columns : ∀ row ∈ program.rows, ∀ t ∈ row.form.terms, t.1 < program.columns.length
  violation : program.exact.maxViolation (values.map .rational) = .rational 0
  notSatisfied : ∀ t : ℚ, ¬ program.exact.Satisfied t values

/-- **The largest violation overlooks rows** whose right-hand side is no number, and rows that
equate an infinity with itself. -/
theorem maxViolation_equating :
    (equating 1.0 (0.0 / 0.0)).Overlooks [1] ∧
      (equating Binary64.infinity Binary64.infinity).Overlooks [1] := by
  constructor
  · refine ⟨by decide, by decide, by decide +kernel, fun t h => ?_⟩
    have hholds := h.rows _ List.mem_cons_self
    exact nomatch hholds
  · refine ⟨by decide, by decide, by decide +kernel, fun t h => ?_⟩
    have hholds := h.rows _ List.mem_cons_self
    exact nomatch hholds

end Program

end OptModel
