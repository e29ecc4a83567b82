import OptModel.LinearForm.Basic
import OptModel.Proofs.Extended
import Mathlib.Algebra.BigOperators.Group.List.Basic

/-!
# Linear forms in exact arithmetic

A linear form whose coefficients and values are rationals is a sum of rationals, and adding a term
adds its product to that sum: merging a handle that is already there loses nothing, because nothing
is rounded. So a form made of a list of terms is worth the sum over the list, repeated handles and
all.

## Main definitions

* `LinearForm.map` — the form with its coefficients replaced
* `LinearForm.weight` — the value of a form with rational coefficients

## Main results

* `LinearForm.terms_ofTerms` — terms for different handles are kept as they are
* `LinearForm.weight_add`, `weight_ofTerms` — terms add up
* `LinearForm.evaluate_ofTerms` — the evaluation that runs, on rationals
-/

namespace OptModel.LinearForm

variable {H R S : Type}

/-- The form with every coefficient replaced. -/
def map (f : R → S) (form : LinearForm H R) : LinearForm H S :=
  ⟨form.terms.map fun t => (t.1, f t.2)⟩

/-- The value of a form with rational coefficients. -/
def weight (form : LinearForm H ℚ) (v : H → ℚ) : ℚ := (form.terms.map fun t => t.2 * v t.1).sum

variable [DecidableEq H]

theorem ofTerms_append [Add R] (terms : List (H × R)) (t : H × R) :
    ofTerms (terms ++ [t]) = (ofTerms terms).add t.1 t.2 := by
  simp [ofTerms]

theorem accumulate_of_notMem [Add R] {h : H} {terms : List (H × R)}
    (hh : h ∉ terms.map Prod.fst) (c : R) : accumulate h c terms = terms ++ [(h, c)] := by
  induction terms with
  | nil => rfl
  | cons t rest ih =>
    rw [List.map_cons, List.mem_cons, not_or] at hh
    rw [accumulate, if_neg (Ne.symm hh.1), ih hh.2, List.cons_append]

/-- Adding a term leaves the handles alone, or brings one that is new. -/
theorem map_fst_accumulate [Add R] (h : H) (c : R) (terms : List (H × R)) :
    (accumulate h c terms).map Prod.fst =
      if h ∈ terms.map Prod.fst then terms.map Prod.fst else terms.map Prod.fst ++ [h] := by
  induction terms with
  | nil => rfl
  | cons t rest ih =>
    obtain ⟨k, d⟩ := t
    rw [accumulate]
    by_cases hk : k = h
    · simp [hk]
    · simp only [if_neg hk, List.map_cons, ih, List.mem_cons, Ne.symm hk, false_or]
      split <;> rfl

/-- Terms for different handles are not merged. -/
theorem terms_ofTerms [Add R] {terms : List (H × R)}
    (h : (terms.map Prod.fst).Nodup) : (ofTerms terms).terms = terms := by
  induction terms using List.reverseRecOn with
  | nil => rfl
  | append_singleton terms t ih =>
    rw [List.map_append, List.nodup_append] at h
    obtain ⟨hterms, -, hdisjoint⟩ := h
    have hnew : t.1 ∉ terms.map Prod.fst := fun hmem => hdisjoint _ hmem t.1 (by simp) rfl
    rw [ofTerms_append, terms_add, ih hterms, accumulate_of_notMem hnew t.2]

/-- **Adding a term adds what it is worth**, if what terms are worth is additive in coefficients. -/
theorem sum_accumulate [Add R] {M : Type} [AddCommMonoid M] (worth : H → R → M)
    (hworth : ∀ h c d, worth h (c + d) = worth h c + worth h d) (h : H) (c : R)
    (terms : List (H × R)) :
    ((accumulate h c terms).map fun t => worth t.1 t.2).sum =
      (terms.map fun t => worth t.1 t.2).sum + worth h c := by
  induction terms with
  | nil => simp [accumulate]
  | cons t rest ih =>
    obtain ⟨k, d⟩ := t
    rw [accumulate]
    by_cases hk : k = h
    · subst hk
      simp only [if_true, List.map_cons, List.sum_cons, hworth]
      exact add_right_comm _ _ _
    · simp only [if_neg hk, List.map_cons, List.sum_cons, ih, add_assoc]

/-- **Adding a term adds its product.** -/
theorem weight_add (form : LinearForm H ℚ) (h : H) (c : ℚ) (v : H → ℚ) :
    (form.add h c).weight v = form.weight v + c * v h :=
  sum_accumulate (fun h c => c * v h) (fun h c d => add_mul c d (v h)) h c form.terms

/-- A form made of terms is worth the sum of their products. -/
theorem weight_ofTerms (terms : List (H × ℚ)) (v : H → ℚ) :
    (ofTerms terms).weight v = (terms.map fun t => t.2 * v t.1).sum := by
  induction terms using List.reverseRecOn with
  | nil => rfl
  | append_singleton terms t ih =>
    rw [ofTerms_append, weight_add, ih, List.map_append, List.sum_append]
    simp

/-- Merging commutes with every map of coefficients that respects sums. -/
theorem map_add [Add R] [Add S] {f : R → S} (hf : ∀ a b, f (a + b) = f a + f b)
    (form : LinearForm H R) (h : H) (c : R) : (form.add h c).map f = (form.map f).add h (f c) := by
  obtain ⟨terms⟩ := form
  simp only [map, add, LinearForm.mk.injEq]
  induction terms with
  | nil => rfl
  | cons t rest ih =>
    obtain ⟨k, d⟩ := t
    simp only [accumulate, List.map_cons]
    split
    · rw [List.map_cons, hf]
    · rw [List.map_cons, ih]

theorem map_ofTerms [Add R] [Add S] {f : R → S} (hf : ∀ a b, f (a + b) = f a + f b)
    (terms : List (H × R)) :
    (ofTerms terms).map f = ofTerms (terms.map fun t => (t.1, f t.2)) := by
  induction terms using List.reverseRecOn with
  | nil => rfl
  | append_singleton terms t ih =>
    rw [ofTerms_append, map_add hf, ih, List.map_append, List.map_singleton, ofTerms_append]

omit [DecidableEq H] in
theorem evaluate_map_rational (form : LinearForm H ℚ) (v : H → ℚ) :
    (form.map Extended.rational).evaluate (fun h => .rational (v h)) =
      .rational (form.weight v) := by
  obtain ⟨terms⟩ := form
  have hfold : ∀ start : ℚ,
      (terms.map fun t => (t.1, Extended.rational t.2)).foldl
        (fun sum t => sum + t.2 * Extended.rational (v t.1)) (.rational start) =
      .rational (start + (terms.map fun t => t.2 * v t.1).sum) := by
    induction terms with
    | nil => simp
    | cons t rest ih =>
      intro start
      rw [List.map_cons, List.foldl_cons, Extended.rational_mul, Extended.rational_add, ih,
        List.map_cons, List.sum_cons, add_assoc]
  have := hfold 0
  rw [zero_add] at this
  exact this

/-- **Evaluating a form made of rational terms, at rationals.** -/
theorem evaluate_ofTerms (terms : List (H × ℚ)) (v : H → ℚ) :
    (ofTerms (terms.map fun t => (t.1, Extended.rational t.2))).evaluate
        (fun h => .rational (v h)) =
      .rational (terms.map fun t => t.2 * v t.1).sum := by
  rw [← map_ofTerms (fun _ _ => rfl), evaluate_map_rational, weight_ofTerms]

end OptModel.LinearForm
