import OptModel.Proofs.Halfspaces
import OptModel.Proofs.Solver.Problem
import Mathlib

/-!
# Problems that grow along a ray

A problem whose columns are all real is unbounded when its objective grows along a direction that
keeps every bound and every row. The numbers of a problem are doubles and so rationals; a direction
of rationals can be stretched to one of integers, and integer steps keep the integer columns. So a
problem with integer columns that can be satisfied at all is unbounded as soon as it is unbounded
with every column real.

A direction is a function from columns to rationals. What it says beyond the last column does not
count (`Problem.cut`).

## Main definitions

* `Problem.halfspaces` — the bounds and the rows of a problem
* `Problem.gain` — the objective, turned so that more is better

## Main results

* `Problem.satisfied_valuesAt_iff` — satisfying a problem is a matter of halfspaces and integers
* `Problem.isUnbounded_relaxed_iff` — integer columns do not keep a problem from being unbounded
-/

namespace OptModel

/-! ### Better values -/

/-- The factor that turns an objective so that more is better. -/
def Direction.sign : Direction → ℚ
  | minimize => -1
  | maximize => 1

theorem Direction.improves_iff {direction : Direction} {a b : ℚ} :
    direction.Improves a b ↔ direction.sign * b < direction.sign * a := by
  cases direction with
  | minimize => simp [Improves, sign]
  | maximize => simp [Improves, sign]

theorem Direction.sign_mul_sign (direction : Direction) : direction.sign * direction.sign = 1 := by
  cases direction <;> norm_num [sign]

namespace Problem

/-! ### Points -/

/-- What a point gives to a handle: nothing beyond the first `n` columns. -/
def cut (n : ℕ) (x : ℕ → ℚ) (i : ℕ) : ℚ := if i < n then x i else 0

/-- The values that a point gives to the first `n` columns. -/
def valuesAt (n : ℕ) (x : ℕ → ℚ) : List ℚ := (List.range n).map x

theorem getD_valuesAt (n : ℕ) (x : ℕ → ℚ) (i : ℕ) : (valuesAt n x).getD i 0 = cut n x i := by
  by_cases hi : i < n <;> simp [valuesAt, cut, hi]

/-- Every list of values comes of a point. -/
theorem exists_valuesAt (values : List ℚ) : ∃ x, valuesAt values.length x = values := by
  refine ⟨fun i => values.getD i 0, List.ext_getElem (by simp [valuesAt]) fun i hi hi' => ?_⟩
  simp [valuesAt, hi']

theorem worthOf_add (terms : List (ℕ × Float)) (v w : ℕ → ℚ) :
    worthOf terms (fun i => v i + w i) = worthOf terms v + worthOf terms w := by
  induction terms with
  | nil => exact (add_zero 0).symm
  | cons t rest ih =>
    rw [LinearForm.worthOf_cons, LinearForm.worthOf_cons, LinearForm.worthOf_cons, ih]
    ring

theorem worthOf_smul (terms : List (ℕ × Float)) (a : ℚ) (v : ℕ → ℚ) :
    worthOf terms (fun i => a * v i) = a * worthOf terms v := by
  induction terms with
  | nil => exact (mul_zero a).symm
  | cons t rest ih =>
    rw [LinearForm.worthOf_cons, LinearForm.worthOf_cons, ih]
    ring

/-- What terms are worth is linear in the point. -/
def worthMap (n : ℕ) (terms : List (ℕ × Float)) : (ℕ → ℚ) →ₗ[ℚ] ℚ where
  toFun x := worthOf terms (cut n x)
  map_add' x y := by
    rw [← worthOf_add]
    congr 1
    funext i
    by_cases hi : i < n <;> simp [cut, hi]
  map_smul' a x := by
    rw [RingHom.id_apply, smul_eq_mul, ← worthOf_smul]
    congr 1
    funext i
    by_cases hi : i < n <;> simp [cut, hi]

theorem worthMap_apply (n : ℕ) (terms : List (ℕ × Float)) (x : ℕ → ℚ) :
    worthMap n terms x = worthOf terms fun i => (valuesAt n x).getD i 0 := by
  show worthOf terms (cut n x) = _
  exact congrArg _ (funext fun i => (getD_valuesAt n x i).symm)

/-! ### Columns as halfspaces -/

/-- The finite bounds of the column at position `i`. -/
def Column.halfspaces (c : Column Float) (i : ℕ) : List (Halfspace (ℕ → ℚ)) :=
  ((Binary64.toRat? c.lower).map fun q => ⟨-LinearMap.proj i, -q⟩).toList ++
    ((Binary64.toRat? c.upper).map fun q => ⟨LinearMap.proj i, q⟩).toList

/-- Whether no bound shuts out every number: bounds that are not finite are infinite in the
direction that means no bound. -/
def Column.IsPassable (c : Column Float) : Prop :=
  (Binary64.toRat? c.lower = none → Extended.ofFloat c.lower = .bottom) ∧
    (Binary64.toRat? c.upper = none → Extended.ofFloat c.upper = .top)

theorem Column.contains_iff {c : Column Float} {i : ℕ} {x : ℕ → ℚ} :
    (∀ h ∈ c.halfspaces i, h.Contains x) ↔
      (∀ q, Binary64.toRat? c.lower = some q → q ≤ x i) ∧
        ∀ q, Binary64.toRat? c.upper = some q → x i ≤ q := by
  rw [halfspaces, List.forall_mem_append]
  refine and_congr ?_ ?_
  · cases Binary64.toRat? c.lower with
    | none => simp
    | some p => simp [Halfspace.Contains]
  · cases Binary64.toRat? c.upper with
    | none => simp
    | some p => simp [Halfspace.Contains]

/-- A double that is no rational is one of the other three. -/
theorem ofFloat_cases_of_toRat?_eq_none {b : Float} (h : Binary64.toRat? b = none) :
    Extended.ofFloat b = .undefined ∨ Extended.ofFloat b = .bottom ∨
      Extended.ofFloat b = .top := by
  rw [Extended.ofFloat_of_toRat?_eq_none h]
  split
  · exact .inl rfl
  · split
    · exact .inr (.inl rfl)
    · exact .inr (.inr rfl)

theorem lower_iff {b : Float} {x : ℚ} :
    Scalar.atMost (Extended.ofFloat b) (.rational x) = true ↔
      (Binary64.toRat? b = none → Extended.ofFloat b = .bottom) ∧
        ∀ q, Binary64.toRat? b = some q → q ≤ x := by
  cases hb : Binary64.toRat? b with
  | some q =>
    rw [Extended.ofFloat_of_toRat? hb, Extended.atMost_rational, decide_eq_true_iff]
    simp
  | none =>
    rcases ofFloat_cases_of_toRat?_eq_none hb with h | h | h
    · rw [h]
      exact iff_of_false Bool.false_ne_true fun hpass => nomatch hpass.1 rfl
    · rw [h]
      exact iff_of_true rfl ⟨fun _ => rfl, nofun⟩
    · rw [h]
      exact iff_of_false Bool.false_ne_true fun hpass => nomatch hpass.1 rfl

theorem upper_iff {b : Float} {x : ℚ} :
    Scalar.atMost (.rational x) (Extended.ofFloat b) = true ↔
      (Binary64.toRat? b = none → Extended.ofFloat b = .top) ∧
        ∀ q, Binary64.toRat? b = some q → x ≤ q := by
  cases hb : Binary64.toRat? b with
  | some q =>
    rw [Extended.ofFloat_of_toRat? hb, Extended.atMost_rational, decide_eq_true_iff]
    simp
  | none =>
    rcases ofFloat_cases_of_toRat?_eq_none hb with h | h | h
    · rw [h]
      exact iff_of_false Bool.false_ne_true fun hpass => nomatch hpass.1 rfl
    · rw [h]
      exact iff_of_false Bool.false_ne_true fun hpass => nomatch hpass.1 rfl
    · rw [h]
      exact iff_of_true rfl ⟨fun _ => rfl, nofun⟩

theorem Column.takes_iff {c : Column Float} {i : ℕ} {x : ℕ → ℚ} :
    c.Takes (x i) ↔
      c.IsPassable ∧ (∀ h ∈ c.halfspaces i, h.Contains x) ∧
        (c.isInteger = true → ∃ k : ℤ, x i = k) := by
  rw [contains_iff]
  constructor
  · rintro ⟨hlower, hupper, hintegral⟩
    obtain ⟨hbottom, hl⟩ := lower_iff.1 hlower
    obtain ⟨htop, hu⟩ := upper_iff.1 hupper
    exact ⟨⟨hbottom, htop⟩, ⟨hl, hu⟩, hintegral⟩
  · rintro ⟨⟨hbottom, htop⟩, ⟨hl, hu⟩, hintegral⟩
    exact ⟨lower_iff.2 ⟨hbottom, hl⟩, upper_iff.2 ⟨htop, hu⟩, hintegral⟩

/-! ### Rows as halfspaces -/

/-- The halfspaces of a row over `n` columns. An equation has two. -/
def Row.halfspaces (n : ℕ) (row : Row Float) : List (Halfspace (ℕ → ℚ)) :=
  let below : Halfspace (ℕ → ℚ) := ⟨worthMap n row.terms, Binary64.value row.rhs⟩
  let above : Halfspace (ℕ → ℚ) := ⟨-worthMap n row.terms, -Binary64.value row.rhs⟩
  match row.sense with
  | .equal => [below, above]
  | .atMost => [below]
  | .atLeast => [above]

theorem Row.contains_iff {n : ℕ} {row : Row Float} {x : ℕ → ℚ} :
    (∀ h ∈ row.halfspaces n, h.Contains x) ↔
      row.sense.Compares (worthOf row.terms fun i => (valuesAt n x).getD i 0)
        (Binary64.value row.rhs) := by
  rw [← worthMap_apply, halfspaces]
  cases row.sense with
  | equal => simp [Halfspace.Contains, RowSense.Compares, le_antisymm_iff]
  | atMost => simp [Halfspace.Contains, RowSense.Compares]
  | atLeast => simp [Halfspace.Contains, RowSense.Compares]

/-! ### Problems as halfspaces -/

/-- The bounds and the rows of a problem. -/
def halfspaces (problem : Problem Float) : List (Halfspace (ℕ → ℚ)) :=
  (problem.columns.zipIdx.flatMap fun ci => ci.1.halfspaces ci.2) ++
    problem.rows.flatMap (Row.halfspaces problem.columns.length)

variable {problem : Problem Float}

/-- **Satisfying a problem is a matter of halfspaces and integers.** -/
theorem satisfied_valuesAt_iff {x : ℕ → ℚ} :
    problem.Satisfied (valuesAt problem.columns.length x) ↔
      (∀ ci ∈ problem.columns.zipIdx, ci.1.IsPassable) ∧
        (∀ h ∈ problem.halfspaces, h.Contains x) ∧
          ∀ ci ∈ problem.columns.zipIdx, ci.1.isInteger = true → ∃ k : ℤ, x ci.2 = k := by
  have hcolumns : (∀ cv ∈ problem.columns.zip (valuesAt problem.columns.length x),
        cv.1.Takes cv.2) ↔ ∀ ci ∈ problem.columns.zipIdx, ci.1.Takes (x ci.2) := by
    rw [valuesAt, List.zip_map_right, List.forall_mem_map, List.zipIdx_eq_zip_range',
      ← List.range_eq_range']
    rfl
  rw [halfspaces, List.forall_mem_append, List.forall_mem_flatMap, List.forall_mem_flatMap]
  constructor
  · rintro ⟨-, hc, hr⟩
    have htakes := fun ci hci => Column.takes_iff.1 (hcolumns.1 hc ci hci)
    exact ⟨fun ci hci => (htakes ci hci).1,
      ⟨fun ci hci => (htakes ci hci).2.1, fun row hrow => Row.contains_iff.2 (hr row hrow)⟩,
      fun ci hci => (htakes ci hci).2.2⟩
  · rintro ⟨hpassable, ⟨hbounds, hr⟩, hintegral⟩
    refine ⟨by simp [valuesAt], hcolumns.2 fun ci hci => ?_, fun row hrow => ?_⟩
    · exact Column.takes_iff.2 ⟨hpassable ci hci, hbounds ci hci, hintegral ci hci⟩
    · exact Row.contains_iff.1 (hr row hrow)

theorem Satisfied.exists_valuesAt {values : List ℚ} (h : problem.Satisfied values) :
    ∃ x, values = valuesAt problem.columns.length x := by
  obtain ⟨x, hx⟩ := Problem.exists_valuesAt values
  rw [h.length] at hx
  exact ⟨x, hx.symm⟩

/-- Taking columns as real changes no halfspace. -/
theorem halfspaces_relaxed (problem : Problem Float) :
    problem.relaxed.halfspaces = problem.halfspaces := by
  simp only [halfspaces, relaxed, List.zipIdx_map, List.flatMap_map, List.length_map]
  rfl

/-! ### Growing -/

/-- The objective as a functional of the point, turned so that more is better. -/
def gain (problem : Problem Float) : (ℕ → ℚ) →ₗ[ℚ] ℚ :=
  problem.direction.sign • worthMap problem.columns.length problem.objective

theorem gain_apply (problem : Problem Float) (x : ℕ → ℚ) :
    problem.gain x =
      problem.direction.sign * problem.worth (valuesAt problem.columns.length x) := by
  rw [gain, LinearMap.smul_apply, smul_eq_mul, worthMap_apply]
  rfl

theorem improves_iff {x : ℕ → ℚ} {bound : ℚ} :
    problem.direction.Improves (problem.worth (valuesAt problem.columns.length x)) bound ↔
      problem.direction.sign * bound < problem.gain x := by
  rw [gain_apply, Direction.improves_iff]

/-- A direction can be stretched so that its first `n` steps are integers. -/
theorem exists_stretch (d : ℕ → ℚ) (n : ℕ) :
    ∃ s : ℕ, 0 < s ∧ ∀ i < n, ∃ k : ℤ, (s : ℚ) * d i = k := by
  induction n with
  | zero => exact ⟨1, one_pos, nofun⟩
  | succ n ih =>
    obtain ⟨s, hs, hint⟩ := ih
    refine ⟨(d n).den * s, mul_pos (d n).den_pos hs, fun i hi => ?_⟩
    rcases Nat.lt_succ_iff_lt_or_eq.1 hi with hlt | rfl
    · obtain ⟨k, hk⟩ := hint i hlt
      refine ⟨(d n).den * k, ?_⟩
      push_cast
      rw [mul_assoc, hk]
    · refine ⟨s * (d i).num, ?_⟩
      push_cast
      rw [mul_right_comm, Rat.den_mul_eq_num, mul_comm]

/-- **Integer steps along a ray** keep what satisfies a problem. -/
theorem Satisfied.add_ray {x d : ℕ → ℚ} (hx : problem.Satisfied (valuesAt problem.columns.length x))
    (hd : ∀ h ∈ problem.halfspaces, h.Keeps d)
    (hint : ∀ i < problem.columns.length, ∃ k : ℤ, d i = k) (t : ℕ) :
    problem.Satisfied (valuesAt problem.columns.length (x + (t : ℚ) • d)) := by
  obtain ⟨hpassable, hcontains, hintegral⟩ := satisfied_valuesAt_iff.1 hx
  refine satisfied_valuesAt_iff.2 ⟨hpassable, fun h hh => ?_, fun ci hci hinteger => ?_⟩
  · exact (hd h hh).contains (hcontains h hh) (Nat.cast_nonneg t)
  · obtain ⟨k, hk⟩ := hintegral ci hci hinteger
    obtain ⟨j, hj⟩ := hint ci.2 (List.snd_lt_of_mem_zipIdx hci)
    refine ⟨k + t * j, ?_⟩
    rw [Pi.add_apply, Pi.smul_apply, smul_eq_mul, hk, hj]
    push_cast
    rfl

/-- A problem that can be satisfied is unbounded when its objective grows along a ray. -/
theorem isUnbounded_of_ray {x d : ℕ → ℚ}
    (hx : problem.Satisfied (valuesAt problem.columns.length x))
    (hd : Halfspace.Ray problem.halfspaces problem.gain d) : problem.IsUnbounded := by
  obtain ⟨s, hs, hint⟩ := exists_stretch d problem.columns.length
  have hspos : (0 : ℚ) < s := Nat.cast_pos.2 hs
  have hgrows : 0 < problem.gain ((s : ℚ) • d) := by
    rw [map_smul, smul_eq_mul]
    exact mul_pos hspos hd.grows
  intro bound
  obtain ⟨t, ht⟩ := exists_nat_gt
    ((problem.direction.sign * bound - problem.gain x) / problem.gain ((s : ℚ) • d))
  have hkeeps : ∀ h ∈ problem.halfspaces, h.Keeps ((s : ℚ) • d) := fun h hh =>
    (hd.keeps h hh).smul hspos.le
  refine ⟨_, hx.add_ray hkeeps hint t, improves_iff.2 ?_⟩
  rw [div_lt_iff₀ hgrows] at ht
  rw [map_add, map_smul, smul_eq_mul]
  linarith

/-- **Integer columns do not keep a problem that can be satisfied from being unbounded.** -/
theorem isUnbounded_relaxed_iff (hpoint : ∃ values, problem.Satisfied values) :
    problem.relaxed.IsUnbounded ↔ problem.IsUnbounded := by
  constructor
  · intro hrelaxed
    obtain ⟨values, hvalues⟩ := hpoint
    obtain ⟨x, rfl⟩ := hvalues.exists_valuesAt
    rcases Halfspace.exists_ray_or_bound problem.halfspaces problem.gain with ⟨d, hd⟩ | ⟨b, hb⟩
    · exact isUnbounded_of_ray hvalues hd
    · -- the objective would be bounded, and more so without the integer columns
      obtain ⟨values, hsatisfied, himproves⟩ := hrelaxed (problem.direction.sign * b)
      obtain ⟨y, rfl⟩ := hsatisfied.exists_valuesAt
      have hcontains := (satisfied_valuesAt_iff.1 hsatisfied).2.1
      rw [halfspaces_relaxed] at hcontains
      have hlt : problem.direction.sign * (problem.direction.sign * b) < problem.gain y :=
        improves_iff.1 (by rwa [relaxed, List.length_map] at himproves)
      rw [← mul_assoc, Direction.sign_mul_sign, one_mul] at hlt
      exact absurd (hb y hcontains) (not_le.2 hlt)
  · intro hunbounded bound
    obtain ⟨values, hvalues, himproves⟩ := hunbounded bound
    exact ⟨values, hvalues.relaxed, himproves⟩

end Problem

end OptModel
