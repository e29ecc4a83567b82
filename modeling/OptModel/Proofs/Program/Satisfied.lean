import OptModel.Program
import OptModel.Proofs.LinearForm

/-!
# Programs in exact arithmetic

What it means that rationals satisfy a program whose numbers are not rounded: one value for every
column, each within the bounds of its column and near an integer if the column takes integers only,
and every row comparing as it says. All of this holds up to a tolerance, zero included.

## Main definitions

* `Program.exact` — a program of doubles, its numbers taken at their exact values
* `Column.Takes`, `Program.Satisfied` — satisfying a program within a tolerance
* `Program.byName` — the values of the columns, from those of their names

## Main results

* `Column.takes_rational_iff` — what a column between two rationals takes
* `Program.satisfied_byName_iff` — a program that is satisfied by named values
-/

namespace OptModel

/-! ### Replacing numbers -/

section Map

variable {R S : Type}

/-- The column with its bounds replaced. -/
def Column.map (f : R → S) (c : Column R) : Column S := ⟨c.name, c.kind, f c.lower, f c.upper⟩

/-- The row with its numbers replaced. -/
def ProgramRow.map (f : R → S) (row : ProgramRow R) : ProgramRow S :=
  ⟨row.form.map f, row.sense, f row.rhs⟩

/-- The program with its numbers replaced. -/
def Program.map (f : R → S) (program : Program R) : Program S where
  columns := program.columns.map (·.map f)
  rows := program.rows.map (·.map f)
  objective := program.objective.map f
  direction := program.direction
  timeLimit := program.timeLimit

end Map

/-- A program of doubles, its numbers taken at their exact values. -/
def Program.exact (program : Program Float) : Program Extended := program.map Extended.ofFloat

/-! ### Satisfying a program -/

/-- Whether a column takes the value `x` within `t`. -/
structure Column.Takes (c : Column Extended) (t x : ℚ) : Prop where
  lower : Scalar.atMost (c.lower - .rational t) (.rational x) = true
  upper : Scalar.atMost (.rational x) (c.upper + .rational t) = true
  integral : c.kind ≠ .continuous → ∃ k : ℤ, |x - k| ≤ t

/-- What a column between two rationals takes. -/
theorem Column.takes_rational_iff (name : String) (kind : VariableKind) (lower upper t x : ℚ) :
    (⟨name, kind, .rational lower, .rational upper⟩ : Column Extended).Takes t x ↔
      lower - t ≤ x ∧ x ≤ upper + t ∧ (kind ≠ .continuous → ∃ k : ℤ, |x - k| ≤ t) := by
  constructor
  · rintro ⟨hlower, hupper, hintegral⟩
    rw [Extended.rational_sub, Extended.atMost_rational, decide_eq_true_iff] at hlower
    rw [Extended.rational_add, Extended.atMost_rational, decide_eq_true_iff] at hupper
    exact ⟨hlower, hupper, hintegral⟩
  · rintro ⟨hlower, hupper, hintegral⟩
    refine ⟨?_, ?_, hintegral⟩
    · rw [Extended.rational_sub, Extended.atMost_rational, decide_eq_true_iff]
      exact hlower
    · rw [Extended.rational_add, Extended.atMost_rational, decide_eq_true_iff]
      exact hupper

/-- Whether `values` satisfy a program within `t`. -/
structure Program.Satisfied (program : Program Extended) (t : ℚ) (values : List ℚ) : Prop where
  length : values.length = program.columns.length
  columns : ∀ cv ∈ program.columns.zip values, cv.1.Takes t cv.2
  rows : ∀ row ∈ program.rows,
    row.sense.holds (row.form.evaluate (Program.valueOf (values.map .rational))) row.rhs
      (.rational t) = true

/-- The values of the columns when `value` gives those of their names. -/
def Program.byName {R : Type} (program : Program R) (value : String → ℚ) : List ℚ :=
  program.columns.map fun c => value c.name

namespace Program

/-- Rationals are the values of columns, with zero beyond the end of the list. -/
theorem valueOf_map_rational (values : List ℚ) :
    valueOf (values.map Extended.rational) = fun i => .rational (values.getD i 0) := by
  funext i
  rw [valueOf, List.getD_eq_getElem?_getD, List.getD_eq_getElem?_getD, List.getElem?_map]
  cases values[i]? with
  | none => rfl
  | some q => rfl

/-- Only the columns and the rows matter. -/
theorem satisfied_congr {program other : Program Extended}
    (hcolumns : program.columns = other.columns) (hrows : program.rows = other.rows) {t : ℚ}
    {values : List ℚ} : program.Satisfied t values ↔ other.Satisfied t values := by
  constructor
  · rintro ⟨hlength, htakes, hholds⟩
    exact ⟨hcolumns ▸ hlength, hcolumns ▸ htakes, hrows ▸ hholds⟩
  · rintro ⟨hlength, htakes, hholds⟩
    exact ⟨hcolumns ▸ hlength, hcolumns ▸ htakes, hrows ▸ hholds⟩

/-- **Satisfying a program by named values** is a matter of each column and of each row. -/
theorem satisfied_byName_iff {program : Program Extended} {t : ℚ} {value : String → ℚ} :
    program.Satisfied t (program.byName value) ↔
      (∀ c ∈ program.columns, c.Takes t (value c.name)) ∧
        ∀ row ∈ program.rows,
          row.sense.holds
            (row.form.evaluate fun i => .rational ((program.byName value).getD i 0)) row.rhs
            (.rational t) = true := by
  have hzip : program.columns.zip (program.byName value) =
      program.columns.map fun c => (c, value c.name) := by
    have hmap := @List.zip_map' _ _ _ id (fun c : Column Extended => value c.name)
      program.columns
    rwa [List.map_id] at hmap
  constructor
  · rintro ⟨-, hcolumns, hrows⟩
    rw [hzip, List.forall_mem_map] at hcolumns
    rw [valueOf_map_rational] at hrows
    exact ⟨hcolumns, hrows⟩
  · rintro ⟨hcolumns, hrows⟩
    refine ⟨List.length_map _, ?_, ?_⟩
    · rw [hzip, List.forall_mem_map]
      exact hcolumns
    · rw [valueOf_map_rational]
      exact hrows

end Program

end OptModel
