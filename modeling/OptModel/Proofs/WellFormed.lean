import OptModel.Model.Flaw
import Mathlib.Data.List.Basic
import Mathlib.Data.List.Nodup

/-!
# What a well-formed model is

The checks walk over the variables with the names that have been seen, and list what they find. Said
without the walk, a model is well formed when its names are pairwise distinct and not blank, no
variable has bounds that are at fault, and all right-hand sides are finite.

## Main results

* `variableFlaws_eq_nil_iff` — when nothing is wrong with the variables
* `Model.isWellFormed_iff` — when a model is well formed
-/

namespace OptModel

theorem Variable.nameFlaw?_eq_none_iff {earlier : List String} {v : Variable Float} :
    v.nameFlaw? earlier = none ↔ Text.allBlank v.name.toList = false ∧ v.name ∉ earlier := by
  rw [nameFlaw?]
  split
  · next hblank => simp [hblank]
  · next hblank =>
    split
    · next hmem => simp [List.contains_iff_mem.1 hmem]
    · next hmem => simp [Bool.eq_false_iff.2 hblank, mt List.contains_iff_mem.2 hmem]

theorem Variable.boundFlaw?_eq_none_iff {v : Variable Float} :
    v.boundFlaw? = none ↔
      (v.lowerBound.any Float.isNaN = false ∧ v.upperBound.any Float.isNaN = false) ∧
        (v.kind ≠ .binary → ¬ v.upper < v.lower) := by
  show (if (v.lowerBound.any Float.isNaN || v.upperBound.any Float.isNaN) = true then
      some (Model.Flaw.nanBound v.name)
    else if (v.kind != .binary && v.upper < v.lower) = true then
      some (.crossedBounds v.name v.lower v.upper)
    else none) = none ↔ _
  split
  · next hnan =>
    rw [Bool.or_eq_true] at hnan
    rcases hnan with hlower | hupper
    · simp [hlower]
    · simp [hupper]
  · next hnan =>
    rw [Bool.not_eq_true, Bool.or_eq_false_iff] at hnan
    split
    · next hcrossed =>
      rw [Bool.and_eq_true, bne_iff_ne, decide_eq_true_iff] at hcrossed
      simp [hcrossed]
    · next hcrossed =>
      rw [Bool.and_eq_true, bne_iff_ne, decide_eq_true_iff, not_and] at hcrossed
      simpa [hnan] using hcrossed

theorem Row.flaw?_eq_none_iff {row : Row Float} {position : ℕ} :
    row.flaw? position = none ↔ row.rhs.isFinite := by
  rw [flaw?]
  split
  · next hfinite => simp [hfinite]
  · next hfinite => simp [hfinite]

/-- **Nothing is wrong with the variables** when their names are distinct, new and not blank, and
nothing is wrong with their bounds. -/
theorem variableFlaws_eq_nil_iff {earlier : List String} {vars : List (Variable Float)} :
    variableFlaws earlier vars = [] ↔
      (vars.map (·.name)).Nodup ∧
        ∀ v ∈ vars, v.name ∉ earlier ∧ Text.allBlank v.name.toList = false ∧
          v.boundFlaw? = none := by
  induction vars generalizing earlier with
  | nil => exact ⟨fun _ => ⟨List.nodup_nil, nofun⟩, fun _ => rfl⟩
  | cons v rest ih =>
    rw [variableFlaws, List.append_eq_nil_iff, List.append_eq_nil_iff, Option.toList_eq_nil_iff,
      Option.toList_eq_nil_iff, Variable.nameFlaw?_eq_none_iff, ih, List.map_cons, List.nodup_cons,
      List.forall_mem_cons]
    constructor
    · rintro ⟨⟨⟨hblank, hearlier⟩, hbounds⟩, hnodup, hrest⟩
      refine ⟨⟨fun hmem => ?_, hnodup⟩, ⟨hearlier, hblank, hbounds⟩, fun w hw => ?_⟩
      · obtain ⟨w, hw, heq⟩ := List.mem_map.1 hmem
        exact (hrest w hw).1 (heq ▸ List.mem_cons_self)
      · exact ⟨fun hmem => (hrest w hw).1 (List.mem_cons_of_mem _ hmem), (hrest w hw).2⟩
    · rintro ⟨⟨hnew, hnodup⟩, ⟨hearlier, hblank, hbounds⟩, hrest⟩
      refine ⟨⟨⟨hblank, hearlier⟩, hbounds⟩, hnodup, fun w hw => ⟨fun hmem => ?_, (hrest w hw).2⟩⟩
      rcases List.mem_cons.1 hmem with heq | hmem
      · exact hnew (List.mem_map.2 ⟨w, hw, heq⟩)
      · exact (hrest w hw).1 hmem

namespace Model

variable {model : Model Float}

/-- **When a model is well formed.** -/
theorem isWellFormed_iff :
    model.isWellFormed = true ↔
      (model.vars.map (·.name)).Nodup ∧
        (∀ v ∈ model.vars, Text.allBlank v.name.toList = false ∧ v.boundFlaw? = none) ∧
          ∀ row ∈ model.rows, row.rhs.isFinite := by
  have hvars : variableFlaws [] model.vars = [] ↔ (model.vars.map (·.name)).Nodup ∧
      ∀ v ∈ model.vars, Text.allBlank v.name.toList = false ∧ v.boundFlaw? = none := by
    simp [variableFlaws_eq_nil_iff]
  rw [isWellFormed, List.isEmpty_iff, flaws, List.append_eq_nil_iff, hvars,
    List.filterMap_eq_nil_iff, and_assoc]
  simp only [Row.flaw?_eq_none_iff]
  refine and_congr_right fun _ => and_congr_right fun _ => ?_
  constructor
  · intro h row hrow
    obtain ⟨i, hi⟩ := List.mem_iff_getElem?.1 hrow
    exact h (row, i) (List.mem_zipIdx_iff_getElem?.2 hi)
  · intro h entry hentry
    exact h entry.1 (List.fst_mem_of_mem_zipIdx hentry)

/-- The names of a well-formed model are pairwise distinct. -/
theorem nodup_names (h : model.isWellFormed = true) : (model.vars.map (·.name)).Nodup :=
  (isWellFormed_iff.1 h).1

/-- No variable of a well-formed model has bounds that are at fault. -/
theorem boundFlaw?_eq_none (h : model.isWellFormed = true) :
    ∀ v ∈ model.vars, v.boundFlaw? = none :=
  fun v hv => ((isWellFormed_iff.1 h).2.1 v hv).2

end Model

end OptModel
