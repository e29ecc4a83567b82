import OptModel.Proofs.Comparison
import OptModel.Proofs.LinearForm.Reachable
import OptModel.Proofs.Solver.Problem
import Mathlib.Algebra.BigOperators.Group.Finset.Piecewise

/-!
# Readings of a linear form

The objective of a program is read in three ways. It has a coefficient for every column, most of
them zero; it is handed over as a list of terms without those whose coefficient is zero; and it is
evaluated as it stands. The rows are handed over and evaluated as well. These readings are made in
different places, and here they are shown to be readings of one function, so that what is optimised
is what is reported and what is asked of the columns is what the rows say.

Nothing is assumed of the coefficients: a handle may be repeated, and a coefficient may be zero, an
infinity or no number at all. The values of the columns are rationals. The handles of the objective
are those of columns, or else its coefficients would leave out what its evaluation counts. Of the
rows not even that is needed, because handles beyond the columns have the value zero wherever rows
are read.

## Main definitions

* `Program.pairing` — the coefficients of the objective, paired with values
* `Problem.Row.Holds`, `ProgramRow.Holds` — rows after and before they are handed over
* `ProgramRow.IsReadAs` — a row that is handed over for a row

## Main results

* `LinearForm.totalOf_nonzero` — terms without a coefficient are worth nothing
* `LinearForm.sum_range_columnTotal` — columns and terms count the same
* `Program.readings_agree` — all readings of a program are one
-/

namespace OptModel

/-- Whether a row that is handed over compares as it says within `t`, its numbers taken exactly. -/
def Problem.Row.Holds (row : Problem.Row Float) (t : ℚ) (values : List ℚ) : Prop :=
  row.sense.holds (LinearForm.totalOf (exactTerms row.terms) fun i => values.getD i 0)
    (Extended.ofFloat row.rhs) (.rational t) = true

/-- Whether a row compares as it says within `t`. -/
def ProgramRow.Holds (row : ProgramRow Extended) (t : ℚ) (values : List ℚ) : Prop :=
  row.sense.holds (row.form.evaluate (Program.valueOf (values.map .rational))) row.rhs
    (.rational t) = true

/-- A row that is handed over has no zero among its coefficients and holds when the row does, within
every tolerance. If all numbers are finite, the two sides are rationals and compare as the sense
says. -/
structure ProgramRow.IsReadAs (row : ProgramRow Float) (values : List ℚ)
    (handed : Problem.Row Float) : Prop where
  nonzero : ∀ c ∈ handed.terms, (c.2 == 0.0) = false
  holds_iff : ∀ t, handed.Holds t values ↔ (row.map Extended.ofFloat).Holds t values
  compares_iff : (∀ c ∈ row.form.terms, c.2.isFinite) → row.rhs.isFinite →
    (handed.sense.Compares (worthOf handed.terms fun i => values.getD i 0)
        (Binary64.value handed.rhs) ↔
      (row.map Extended.ofFloat).Holds 0 values)

/-- The coefficients of the objective, each times the value of its column. -/
def Program.pairing (program : Program Extended) (values : List ℚ) : Extended :=
  Extended.sum (List.zipWith (· * ·) program.objectiveCoefficients (values.map .rational))

theorem Extended.zero_mul_rational (q : ℚ) : rational 0 * rational q = rational 0 := by
  rw [rational_mul, zero_mul]

namespace LinearForm

theorem beq_zero_of_mem_nonzero {H : Type} {form : LinearForm H Float} {t : H × Float}
    (ht : t ∈ form.nonzero) : (t.2 == 0.0) = false := by
  have hkept : (!Scalar.isZero t.2) = true := (List.mem_filter.1 ht).2
  rwa [Bool.not_eq_true'] at hkept

/-- **Terms without a coefficient are worth nothing**, so they may be dropped. -/
theorem totalOf_nonzero {H : Type} (form : LinearForm H Float) (v : H → ℚ) :
    totalOf (exactTerms form.nonzero) v = totalOf (exactTerms form.terms) v := by
  rw [totalOf, totalOf, exactTerms, exactTerms, List.map_map, List.map_map]
  let := Extended.addCommMonoid
  refine List.sum_map_filter fun t _ hdropped => ?_
  rw [Function.comp_apply, Extended.ofFloat_eq_zero_of_beq (beq_zero_of_dropped hdropped)]
  exact Extended.zero_mul_rational (v t.1)

/-! ### Columns -/

/-- The coefficients of one column, added up. -/
def columnTotal (terms : List (ℕ × Extended)) (i : ℕ) : Extended :=
  Extended.sum (terms.map fun t => if t.1 = i then t.2 else .rational 0)

@[simp] theorem columnTotal_cons (t : ℕ × Extended) (terms : List (ℕ × Extended)) (i : ℕ) :
    columnTotal (t :: terms) i = (if t.1 = i then t.2 else .rational 0) + columnTotal terms i :=
  rfl

theorem foldl_eq_columnTotal (terms : List (ℕ × Extended)) (i : ℕ) :
    terms.foldl (fun sum t => if t.1 = i then sum + t.2 else sum) Scalar.zero =
      columnTotal terms i := by
  have hfold := Extended.foldl_add (terms.map fun t => if t.1 = i then t.2 else .rational 0)
    (.rational 0)
  rw [List.foldl_map, Extended.add_comm, Extended.add_rational_zero] at hfold
  refine (List.foldl_ext _ _ _ fun sum t _ => ?_).trans hfold
  split
  · rfl
  · exact (Extended.add_rational_zero sum).symm

/-- A term counts in its own column and in no other. -/
theorem sum_range_column {j n : ℕ} (hj : j < n) (c : Extended) (v : ℕ → ℚ) :
    Extended.sum ((List.range n).map fun i =>
      (if j = i then c else .rational 0) * .rational (v i)) = c * .rational (v j) := by
  let := Extended.addCommMonoid
  show ∑ i ∈ Finset.range n, (if j = i then c else .rational 0) * .rational (v i) = _
  rw [Finset.sum_eq_single_of_mem j (Finset.mem_range.2 hj), if_pos rfl]
  intro i _ hi
  rw [if_neg (Ne.symm hi)]
  exact Extended.zero_mul_rational (v i)

/-- **Columns and terms count the same**, if every handle is a column. -/
theorem sum_range_columnTotal {terms : List (ℕ × Extended)} {n : ℕ} (h : ∀ t ∈ terms, t.1 < n)
    (v : ℕ → ℚ) :
    Extended.sum ((List.range n).map fun i => columnTotal terms i * .rational (v i)) =
      totalOf terms v := by
  induction terms with
  | nil =>
    let := Extended.addCommMonoid
    show ∑ i ∈ Finset.range n, columnTotal [] i * .rational (v i) = 0
    exact Finset.sum_eq_zero fun i _ => Extended.zero_mul_rational (v i)
  | cons t rest ih =>
    obtain ⟨ht, hrest⟩ := List.forall_mem_cons.1 h
    calc Extended.sum ((List.range n).map fun i => columnTotal (t :: rest) i * .rational (v i))
        = Extended.sum ((List.range n).map fun i =>
            (if t.1 = i then t.2 else .rational 0) * .rational (v i) +
              columnTotal rest i * .rational (v i)) := by
          simp only [columnTotal_cons, Extended.add_mul_rational]
      _ = t.2 * .rational (v t.1) + totalOf rest v := by
          rw [Extended.sum_map_add, sum_range_column ht, ih hrest]
      _ = totalOf (t :: rest) v := (totalOf_cons t rest v).symm

end LinearForm

/-! ### Programs -/

namespace Program

/-- The coefficients of the objective count what its terms count. -/
theorem pairing_eq_totalOf {program : Program Extended} {values : List ℚ}
    (hlength : values.length = program.columns.length)
    (hobjective : ∀ t ∈ program.objective.terms, t.1 < program.columns.length) :
    program.pairing values =
      LinearForm.totalOf program.objective.terms fun i => values.getD i 0 := by
  have hcoefficients : program.objectiveCoefficients =
      (List.range program.columns.length).map
        (LinearForm.columnTotal program.objective.terms) :=
    List.map_congr_left fun i _ => LinearForm.foldl_eq_columnTotal program.objective.terms i
  have hvalues : values.map Extended.rational =
      (List.range program.columns.length).map fun i => .rational (values.getD i 0) := by
    refine List.ext_getElem (by simp [hlength]) fun i hi hi' => ?_
    rw [List.length_map] at hi
    simp [hi]
  rw [pairing, hcoefficients, hvalues, List.zipWith_map, List.zipWith_self]
  exact LinearForm.sum_range_columnTotal hobjective fun i => values.getD i 0

theorem objectiveAt_eq_totalOf (program : Program Extended) (values : List ℚ) :
    program.objectiveAt (values.map .rational) =
      LinearForm.totalOf program.objective.terms fun i => values.getD i 0 := by
  rw [objectiveAt, valueOf_map_rational, LinearForm.evaluate_eq_totalOf]
  exact Extended.add_rational_zero _

/-- The terms of the objective that are handed over count what all its terms count. -/
theorem totalOf_nonzero_objective (program : Program Float) (values : List ℚ) :
    LinearForm.totalOf (exactTerms program.objective.nonzero) (fun i => values.getD i 0) =
      program.exact.objectiveAt (values.map .rational) := by
  rw [LinearForm.totalOf_nonzero, objectiveAt_eq_totalOf]
  rfl

/-- **A row is read as it is handed over.** -/
theorem isReadAs_nonzero (row : ProgramRow Float) (values : List ℚ) :
    row.IsReadAs values ⟨row.form.nonzero, row.sense, row.rhs⟩ where
  nonzero _ hc := LinearForm.beq_zero_of_mem_nonzero hc
  holds_iff t := by
    rw [Problem.Row.Holds, ProgramRow.Holds, LinearForm.totalOf_nonzero, valueOf_map_rational,
      LinearForm.evaluate_eq_totalOf]
    rfl
  compares_iff hterms hrhs := compares_nonzero_iff hterms hrhs values

/-- The rows that are handed over are those of the program, one for one and in order. -/
theorem forall₂_isReadAs (program : Program Float) (values : List ℚ) :
    List.Forall₂ (ProgramRow.IsReadAs · values ·) program.rows program.problemRows := by
  rw [problemRows, List.forall₂_map_right_iff, List.forall₂_same]
  exact fun row _ => isReadAs_nonzero row values

/-- **All readings of a program are one.** In exact arithmetic the coefficients of the objective
paired with the values, the terms that are handed over and the evaluated objective are worth the
same, and every row is handed over as a row that holds just when it does. The relaxation is handed
over in the same way. -/
theorem readings_agree (program : Program Float) (values : List ℚ)
    (hlength : values.length = program.columns.length)
    (hobjective : ∀ t ∈ program.objective.terms, t.1 < program.columns.length) :
    program.exact.pairing values = program.exact.objectiveAt (values.map .rational) ∧
    ∀ handed ∈ [program.problem, program.relaxation],
      (∀ t ∈ handed.objective, (t.2 == 0.0) = false) ∧
      LinearForm.totalOf (exactTerms handed.objective) (fun i => values.getD i 0) =
        program.exact.objectiveAt (values.map .rational) ∧
      List.Forall₂ (fun row handedRow => row.IsReadAs values handedRow)
        program.rows handed.rows := by
  have hcolumns : program.exact.columns.length = program.columns.length := List.length_map _
  have hexact : ∀ t ∈ program.exact.objective.terms, t.1 < program.exact.columns.length := by
    rw [hcolumns]
    exact List.forall_mem_map.2 hobjective
  refine ⟨?_, ?_⟩
  · rw [pairing_eq_totalOf (hlength.trans hcolumns.symm) hexact, objectiveAt_eq_totalOf]
  · intro handed hhanded
    have hnonzero : ∀ t ∈ program.objective.nonzero, (t.2 == 0.0) = false :=
      fun _ ht => LinearForm.beq_zero_of_mem_nonzero ht
    have htotal := totalOf_nonzero_objective program values
    have hrows := forall₂_isReadAs program values
    rcases List.mem_pair.1 hhanded with rfl | rfl
    · exact ⟨hnonzero, htotal, hrows⟩
    · exact ⟨hnonzero, htotal, hrows⟩

/-- Three columns, the second of which the objective does not mention. Its first coefficient is a
negative zero. -/
def blend : Program Float where
  columns := [⟨"x", .continuous, 0.0, Binary64.infinity⟩, ⟨"y", .integer, 0.0, 5.0⟩,
    ⟨"z", .binary, 0.0, 1.0⟩]
  rows := [⟨⟨[(1, -1.0), (0, 0.0)]⟩, .atMost, 4.0⟩]
  objective := ⟨[(0, -0.0), (2, 3.0)]⟩
  direction := .maximize

theorem readings_agree_blend :
    ([1, 2, 1 / 2] : List ℚ).length = blend.columns.length ∧
    (∀ t ∈ blend.objective.terms, t.1 < blend.columns.length) ∧
    blend.problem.objective.length = 1 ∧
    blend.exact.pairing [1, 2, 1 / 2] = .rational (3 / 2) ∧
    LinearForm.totalOf (exactTerms blend.problem.objective)
      (fun i => ([1, 2, 1 / 2] : List ℚ).getD i 0) = .rational (3 / 2) ∧
    List.Forall₂ (fun row handedRow => row.IsReadAs [1, 2, 1 / 2] handedRow)
      blend.rows blend.relaxation.rows := by
  have hobjective : ∀ t ∈ blend.objective.terms, t.1 < blend.columns.length := by decide
  have hvalue : blend.exact.objectiveAt (([1, 2, 1 / 2] : List ℚ).map .rational) =
      .rational (3 / 2) := by decide +kernel
  obtain ⟨hpairing, hhanded⟩ := readings_agree blend [1, 2, 1 / 2] rfl hobjective
  have hproblem := (hhanded blend.problem (by simp)).2.1
  have hrelaxation := (hhanded blend.relaxation (by simp)).2.2
  exact ⟨rfl, hobjective, by decide +kernel, hpairing.trans hvalue, hproblem.trans hvalue,
    hrelaxation⟩

end Program

end OptModel
