import OptModel.Proofs.LinearForm
import Mathlib.Data.Finset.Card
import Mathlib.Data.List.Nodup

/-!
# Normal forms of sums

Whatever terms are added and however the handles are replaced, no handle occurs twice in a form.
This does not depend on the arithmetic, so it is as true of doubles as it is of numbers that are not
rounded. Replacing handles starts a new form and adds the terms to it one by one, so handles that
are brought together are merged again, and nothing is asked of the replacement.

What a form is worth does depend on the arithmetic. If nothing is rounded, merging two terms loses
nothing: the sum of their products is the product with their sum. So adding a term adds its product,
and replacing handles is replacing the way in which they are given values. That a form is the same
whether its handles are replaced at once or one after the other needs a little more, because the
coefficients of a handle are then added up in another order.

Coefficients may be anything here, infinities and what has no value included. The values of handles
are rationals.

## Main definitions

* `LinearForm.handles` — the handles that occur, in order
* `LinearForm.Reachable` — the forms that come of adding terms and replacing handles
* `LinearForm.IsNormal` — no handle occurs twice
* `LinearForm.totalOf` — what a list of terms is worth

## Main results

* `LinearForm.Reachable.isNormal` — forms that are reached are normal
* `LinearForm.evaluate_add`, `evaluate_mapHandles` — what forms are worth
* `LinearForm.mapHandles_mapHandles` — replacing handles twice
* `LinearForm.normal_and_linear` — all of it
-/

namespace OptModel.LinearForm

variable {H K L R : Type}

/-- The handles that occur, in order. -/
def handles (form : LinearForm H R) : List H := form.terms.map Prod.fst

/-- The forms that come of the empty one by adding terms and replacing handles, any number of times
and in any order. The handles may change their type on the way. -/
inductive Reachable [Add R] : {H : Type} → [DecidableEq H] → LinearForm H R → Prop where
  | empty {H : Type} [DecidableEq H] : Reachable (LinearForm.empty : LinearForm H R)
  | add {H : Type} [DecidableEq H] {form : LinearForm H R} (hform : Reachable form) (h : H)
    (c : R) : Reachable (form.add h c)
  | mapHandles {H K : Type} [DecidableEq H] [DecidableEq K] {form : LinearForm H R}
    (hform : Reachable form) (g : H → K) : Reachable (form.mapHandles g)

variable [DecidableEq H] [DecidableEq K] [DecidableEq L]

/-- No handle occurs twice. So there is one term for each handle, and it has the coefficient of the
handle. -/
structure IsNormal (form : LinearForm H R) : Prop where
  nodup : form.handles.Nodup
  size : form.size = form.handles.toFinset.card
  coefficient?_eq_none_iff : ∀ h, form.coefficient? h = none ↔ h ∉ form.handles
  coefficient?_eq_some_iff : ∀ h c, form.coefficient? h = some c ↔ (h, c) ∈ form.terms

/-! ### Handles -/

theorem coefficient?_eq_none_iff {form : LinearForm H R} {h : H} :
    form.coefficient? h = none ↔ h ∉ form.handles := by
  rw [coefficient?, Option.map_eq_none_iff, List.find?_eq_none, handles, List.mem_map, not_exists]
  simp only [decide_eq_true_iff, not_and]

/-- The coefficient of a handle is that of its one term. -/
theorem coefficient?_eq_some_iff {form : LinearForm H R} (hnodup : form.handles.Nodup) {h : H}
    {c : R} : form.coefficient? h = some c ↔ (h, c) ∈ form.terms := by
  rw [coefficient?, Option.map_eq_some_iff]
  constructor
  · rintro ⟨t, hfind, rfl⟩
    have ht : t.1 = h := by simpa using List.find?_some hfind
    exact ht ▸ List.mem_of_find?_eq_some hfind
  · intro hmem
    cases hfind : form.terms.find? fun t => t.1 = h with
    | none => exact absurd (decide_eq_true rfl) (List.find?_eq_none.1 hfind _ hmem)
    | some t =>
      have ht : t.1 = h := by simpa using List.find?_some hfind
      have heq : t = (h, c) :=
        List.inj_on_of_nodup_map hnodup (List.mem_of_find?_eq_some hfind) hmem ht
      exact ⟨t, rfl, congrArg Prod.snd heq⟩

/-- **Distinct handles make a form normal.** -/
theorem isNormal_of_nodup {form : LinearForm H R} (h : form.handles.Nodup) : form.IsNormal where
  nodup := h
  size := by rw [List.toFinset_card_of_nodup h, handles, List.length_map, size]
  coefficient?_eq_none_iff _ := coefficient?_eq_none_iff
  coefficient?_eq_some_iff _ _ := coefficient?_eq_some_iff h

section Add

variable [Add R]

/-- The handles that occur after a term is added. -/
@[simp] theorem mem_handles_add {form : LinearForm H R} {h k : H} {c : R} :
    k ∈ (form.add h c).handles ↔ k = h ∨ k ∈ form.handles := by
  rw [handles, terms_add, map_fst_accumulate]
  split
  · next hmem => exact ⟨.inr, fun hk => hk.elim (fun heq => heq ▸ hmem) id⟩
  · rw [List.mem_append, List.mem_singleton, or_comm]
    rfl

theorem nodup_handles_add {form : LinearForm H R} (hform : form.handles.Nodup) (h : H) (c : R) :
    (form.add h c).handles.Nodup := by
  rw [handles, terms_add, map_fst_accumulate]
  split
  · exact hform
  · next hmem =>
    rw [← List.concat_eq_append]
    exact hform.concat hmem

theorem nodup_handles_ofTerms (terms : List (H × R)) : (ofTerms terms).handles.Nodup := by
  induction terms using List.reverseRecOn with
  | nil => exact List.nodup_nil
  | append_singleton terms t ih =>
    rw [ofTerms_append]
    exact nodup_handles_add ih t.1 t.2

omit [DecidableEq H] in
/-- Replacing handles makes a form of terms that may repeat a handle. -/
theorem mapHandles_eq_ofTerms (form : LinearForm H R) (g : H → K) :
    form.mapHandles g = ofTerms (form.terms.map fun t => (g t.1, t.2)) := by
  rw [ofTerms, List.foldl_map]
  rfl

theorem Reachable.nodup_handles {form : LinearForm H R} (h : Reachable form) :
    form.handles.Nodup := by
  induction h with
  | empty => exact List.nodup_nil
  | add _ k c ih => exact nodup_handles_add ih k c
  | mapHandles _ g _ =>
    rw [mapHandles_eq_ofTerms]
    exact nodup_handles_ofTerms _

/-- **Forms that are reached are normal.** -/
theorem Reachable.isNormal {form : LinearForm H R} (h : Reachable form) : form.IsNormal :=
  isNormal_of_nodup h.nodup_handles

end Add

/-! ### Replacing handles twice

Here the order in which coefficients are added up must not matter. -/

section AddCommSemigroup

variable [AddCommSemigroup R]

/-- Two terms of one handle are one term. -/
theorem accumulate_accumulate_self (h : H) (c d : R) (terms : List (H × R)) :
    accumulate h d (accumulate h c terms) = accumulate h (c + d) terms := by
  induction terms with
  | nil => simp [accumulate]
  | cons t rest ih =>
    obtain ⟨k, e⟩ := t
    by_cases hk : k = h
    · simp [accumulate, hk, add_assoc]
    · simp [accumulate, hk, ih]

/-- A term of a handle that occurs can be added before or after another. -/
theorem accumulate_comm {h : H} {terms : List (H × R)} (hh : h ∈ terms.map Prod.fst) (c : R)
    (k : H) (d : R) :
    accumulate k d (accumulate h c terms) = accumulate h c (accumulate k d terms) := by
  induction terms with
  | nil => exact absurd hh List.not_mem_nil
  | cons t rest ih =>
    obtain ⟨i, e⟩ := t
    by_cases hi : i = h
    · by_cases hik : i = k
      · simp [accumulate, ← hi, ← hik, add_right_comm]
      · simp [accumulate, ← hi, hik]
    · have hrest : h ∈ rest.map Prod.fst := by
        rw [List.map_cons, List.mem_cons] at hh
        exact hh.resolve_left (Ne.symm hi)
      by_cases hik : i = k
      · simp [accumulate, hi, ← hik]
      · simp [accumulate, hi, hik, ih hrest]

/-- A term of a handle that occurs can be added before or after any others. -/
theorem foldl_add_of_mem {form : LinearForm H R} {h : H} (hh : h ∈ form.handles) (c : R)
    (terms : List (H × R)) :
    terms.foldl (fun f t => f.add t.1 t.2) (form.add h c) =
      (terms.foldl (fun f t => f.add t.1 t.2) form).add h c := by
  induction terms generalizing form with
  | nil => rfl
  | cons t rest ih =>
    have hcomm : (form.add h c).add t.1 t.2 = (form.add t.1 t.2).add h c :=
      congrArg LinearForm.mk (accumulate_comm hh c t.1 t.2)
    rw [List.foldl_cons, List.foldl_cons, hcomm, ih (mem_handles_add.2 (.inr hh))]

/-- The last term can be merged before the handles are replaced, or added at the end. -/
theorem foldl_accumulate (h : H) (c : R) (terms : List (H × R)) (g : H → K)
    (start : LinearForm K R) :
    (accumulate h c terms).foldl (fun f t => f.add (g t.1) t.2) start =
      (terms.foldl (fun f t => f.add (g t.1) t.2) start).add (g h) c := by
  induction terms generalizing start with
  | nil => rfl
  | cons t rest ih =>
    obtain ⟨k, d⟩ := t
    by_cases hk : k = h
    · -- the sum of two coefficients is added at once, and the second can wait until the end
      subst hk
      have hsplit : start.add (g k) (d + c) = (start.add (g k) d).add (g k) c :=
        congrArg LinearForm.mk (accumulate_accumulate_self (g k) d c start.terms).symm
      have hmem : g k ∈ (start.add (g k) d).handles := mem_handles_add.2 (.inl rfl)
      have hlast := foldl_add_of_mem hmem c (rest.map fun t => (g t.1, t.2))
      rw [List.foldl_map, List.foldl_map] at hlast
      rw [accumulate, if_pos rfl, List.foldl_cons, List.foldl_cons, hsplit, hlast]
    · rw [accumulate, if_neg hk, List.foldl_cons, List.foldl_cons, ih]

/-- **Replacing handles after a term is added** is adding the term with its handle replaced. -/
@[simp] theorem mapHandles_add (form : LinearForm H R) (h : H) (c : R) (g : H → K) :
    (form.add h c).mapHandles g = (form.mapHandles g).add (g h) c :=
  foldl_accumulate h c form.terms g LinearForm.empty

theorem mapHandles_ofTerms (terms : List (H × R)) (g : H → K) :
    (ofTerms terms).mapHandles g = ofTerms (terms.map fun t => (g t.1, t.2)) := by
  induction terms using List.reverseRecOn with
  | nil => rfl
  | append_singleton terms t ih =>
    rw [ofTerms_append, mapHandles_add, ih, List.map_append, List.map_singleton, ofTerms_append]

omit [DecidableEq H] in
/-- **Replacing handles twice** is replacing them once, terms in the same order. -/
theorem mapHandles_mapHandles (form : LinearForm H R) (f : H → K) (g : K → L) :
    (form.mapHandles f).mapHandles g = form.mapHandles (g ∘ f) := by
  rw [mapHandles_eq_ofTerms form f, mapHandles_ofTerms, mapHandles_eq_ofTerms, List.map_map]
  rfl

end AddCommSemigroup

/-- Doubles are rounded, so there it makes a difference which coefficients are added up first. -/
example :
    let form : LinearForm ℕ Float := ofTerms [(0, 1e16), (1, 1.0), (2, 1.0)]
    (form.mapHandles fun _ => 0).coefficient? 0 = some 1e16 ∧
      ((form.mapHandles (min 1)).mapHandles fun _ => 0).coefficient? 0 ≠ some 1e16 := by
  decide +kernel

/-! ### What forms are worth -/

/-- What terms are worth: the sum of the coefficients times the values of the handles. -/
def totalOf (terms : List (H × Extended)) (v : H → ℚ) : Extended :=
  Extended.sum (terms.map fun t => t.2 * .rational (v t.1))

omit [DecidableEq H] in
@[simp] theorem totalOf_cons (t : H × Extended) (terms : List (H × Extended)) (v : H → ℚ) :
    totalOf (t :: terms) v = t.2 * .rational (v t.1) + totalOf terms v := rfl

omit [DecidableEq H] in
/-- A form is worth what its terms are worth. -/
theorem evaluate_eq_totalOf (form : LinearForm H Extended) (v : H → ℚ) :
    form.evaluate (fun h => .rational (v h)) = totalOf form.terms v := by
  have hfold := Extended.foldl_add (form.terms.map fun t => t.2 * .rational (v t.1)) (.rational 0)
  rw [List.foldl_map, Extended.add_comm, Extended.add_rational_zero] at hfold
  exact hfold

/-- **Adding a term adds its product.** -/
theorem evaluate_add (form : LinearForm H Extended) (h : H) (c : Extended) (v : H → ℚ) :
    (form.add h c).evaluate (fun k => .rational (v k)) =
      form.evaluate (fun k => .rational (v k)) + c * .rational (v h) := by
  rw [evaluate_eq_totalOf, evaluate_eq_totalOf]
  let := Extended.addCommMonoid
  exact sum_accumulate (fun k d => d * .rational (v k))
    (fun k c d => Extended.add_mul_rational c d (v k)) h c form.terms

/-- A form made of terms is worth what they are worth, repeated handles and all. -/
theorem evaluate_ofTerms_eq_totalOf (terms : List (H × Extended)) (v : H → ℚ) :
    (ofTerms terms).evaluate (fun h => .rational (v h)) = totalOf terms v := by
  induction terms using List.reverseRecOn with
  | nil => rfl
  | append_singleton terms t ih =>
    rw [ofTerms_append, evaluate_add, ih, totalOf, totalOf, List.map_append, Extended.sum_append,
      List.map_singleton, Extended.sum_cons]
    exact congrArg _ (Extended.add_rational_zero _).symm

omit [DecidableEq H] in
/-- **Replacing handles is replacing the way in which they are given values.** -/
theorem evaluate_mapHandles (form : LinearForm H Extended) (g : H → K) (v : K → ℚ) :
    (form.mapHandles g).evaluate (fun k => .rational (v k)) =
      form.evaluate (fun h => .rational (v (g h))) := by
  rw [mapHandles_eq_ofTerms, evaluate_ofTerms_eq_totalOf, evaluate_eq_totalOf, totalOf, totalOf,
    List.map_map]
  rfl

/-- **Linear forms are normal, and linear where nothing is rounded.** In forms that are reached no
handle occurs twice, whatever the arithmetic. In exact arithmetic, whatever the values of the
handles, adding a term adds its product, replacing handles replaces the way in which they are given
values, and replacing them twice is replacing them once. -/
theorem normal_and_linear :
    (∀ {R H : Type} [Add R] [DecidableEq H] {form : LinearForm H R},
      Reachable form → form.IsNormal) ∧
    ∀ {H : Type} [DecidableEq H] (form : LinearForm H Extended),
      (∀ (h : H) (c : Extended) (v : H → ℚ),
        (form.add h c).evaluate (fun k => .rational (v k)) =
          form.evaluate (fun k => .rational (v k)) + c * .rational (v h)) ∧
      (∀ {K : Type} [DecidableEq K] (g : H → K) (v : K → ℚ),
        (form.mapHandles g).evaluate (fun k => .rational (v k)) =
          form.evaluate (fun h => .rational (v (g h)))) ∧
      ∀ {K L : Type} [DecidableEq K] [DecidableEq L] (f : H → K) (g : K → L),
        (form.mapHandles f).mapHandles g = form.mapHandles (g ∘ f) := by
  let := Extended.addCommMonoid
  refine ⟨fun h => h.isNormal, fun form => ⟨?_, ?_, ?_⟩⟩
  · exact form.evaluate_add
  · exact form.evaluate_mapHandles
  · exact form.mapHandles_mapHandles

/-- Two terms whose handles are brought together. -/
def pooled : LinearForm ℕ Float := ((empty.add 0 2.5).add 1 (-1.0)).mapHandles fun _ => 7

theorem normal_and_linear_pooled :
    Reachable pooled ∧ pooled.IsNormal ∧ pooled.coefficient? 7 = some 1.5 := by
  have hreachable : Reachable pooled := ((Reachable.empty.add 0 2.5).add 1 (-1.0)).mapHandles _
  exact ⟨hreachable, normal_and_linear.1 hreachable, by decide +kernel⟩

end OptModel.LinearForm
