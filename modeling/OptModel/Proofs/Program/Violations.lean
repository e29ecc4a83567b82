import OptModel.Program
import OptModel.Proofs.Comparison

/-!
# Violations

The largest violation is a running maximum over everything that is checked: both bounds of every
column, being an integer where a column asks for it, and every row. It is below a tolerance just
when each of these violations is below it or is no number, because what is no number gives way to
the other operand of `larger` wherever it comes up.

This is said over all scalars with a lawful order. For unrounded numbers and for doubles it differs
in which violations are no numbers.

## Main definitions

* `Column.violations`, `ProgramRow.violation` — what is checked of a column and of a row
* `Program.violations` — everything that is checked

## Main results

* `Program.maxViolation_eq` — the largest violation is the largest of those
* `Program.maxViolation_atMost_iff` — when it is below a tolerance
-/

namespace OptModel

open Scalar

variable {R : Type} [Scalar R]

/-- What is checked of a column at a value. -/
def Column.violations (c : Column R) (x : R) : List R :=
  [c.lower - x, x - c.upper] ++
    if c.kind = .continuous then [] else [magnitude (x - nearestInteger x)]

/-- What is checked of a row. -/
def ProgramRow.violation (row : ProgramRow R) (value : ℕ → R) : R :=
  Program.rowViolation row.sense (row.form.evaluate value) row.rhs

namespace Program

/-- Everything that is checked at `values`, in that order. -/
def violations (program : Program R) (values : List R) : List R :=
  ((program.columns.zip values).flatMap fun cv => cv.1.violations cv.2) ++
    program.rows.map fun row => row.violation (valueOf values)

variable {program : Program R} {values : List R} {t : R}

theorem columnViolation_eq (worst : R) (c : Column R) (x : R) :
    columnViolation worst c x = (c.violations x).foldl larger worst := by
  rw [columnViolation, Column.violations]
  split <;> rfl

/-- What the guard of the largest violation asks of the values. -/
theorem guard_eq_true_iff (program : Program R) (values : List R) :
    (values.length ≠ program.columns.length || !values.all isFinite) = true ↔
      ¬ (values.length = program.columns.length ∧ ∀ x ∈ values, isFinite x = true) := by
  rw [Bool.or_eq_true, decide_eq_true_iff, Bool.not_eq_true', ← Bool.not_eq_true, List.all_eq_true,
    not_and_or]

/-- **The largest violation** of one finite value per column. -/
theorem maxViolation_eq
    (h : values.length = program.columns.length ∧ ∀ x ∈ values, isFinite x = true) :
    program.maxViolation values = (program.violations values).foldl larger zero := by
  rw [maxViolation, if_neg (mt (guard_eq_true_iff program values).1 (not_not_intro h)), violations,
    List.foldl_append, List.foldl_flatMap, List.foldl_map]
  simp only [columnViolation_eq]
  rfl

theorem maxViolation_of_not
    (h : ¬ (values.length = program.columns.length ∧ ∀ x ∈ values, isFinite x = true)) :
    program.maxViolation values = infinity :=
  if_pos ((guard_eq_true_iff program values).2 h)

/-- **The largest violation is below a tolerance** when there is one finite value per column and
every violation that is a number is below the tolerance. -/
theorem maxViolation_atMost_iff [LawfulScalar R] (hzero : atMost (zero : R) t = true)
    (hinfinity : ¬ atMost (infinity : R) t = true) :
    atMost (program.maxViolation values) t = true ↔
      values.length = program.columns.length ∧ (∀ x ∈ values, isFinite x = true) ∧
        (∀ cv ∈ program.columns.zip values, ∀ v ∈ cv.1.violations cv.2,
          IsNumber v → atMost v t = true) ∧
        ∀ row ∈ program.rows, IsNumber (row.violation (valueOf values)) →
          atMost (row.violation (valueOf values)) t = true := by
  by_cases h : values.length = program.columns.length ∧ ∀ x ∈ values, isFinite x = true
  · rw [maxViolation_eq h,
      LawfulScalar.foldl_larger_atMost_iff (LawfulScalar.isNumber_of_atMost hzero).1, violations,
      List.forall_mem_append, List.forall_mem_flatMap, List.forall_mem_map]
    constructor
    · rintro ⟨-, hcolumns, hrows⟩
      exact ⟨h.1, h.2, hcolumns, hrows⟩
    · rintro ⟨-, -, hcolumns, hrows⟩
      exact ⟨hzero, hcolumns, hrows⟩
  · rw [maxViolation_of_not h]
    refine iff_of_false hinfinity ?_
    rintro ⟨hlength, hfinite, -⟩
    exact h ⟨hlength, hfinite⟩

end Program

end OptModel
