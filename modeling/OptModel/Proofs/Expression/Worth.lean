import OptModel.Proofs.Expression.Terms

/-!
# What an expression is worth

The value of a text when every name has a value: nothing if it is blank, and otherwise the sum over
its pieces of the coefficient times the value of the name. This is said of the text and its pieces
alone, without handles, without merging and without rounding, and it is what a parsed form is worth.

## Main definitions

* `Worth` — a text and its value

## Main results

* `Worth.unique` — a text is worth one number at most
* `worth_of_readTerms` — the terms that are read are worth what the text is worth
-/

namespace OptModel.Expression

/-- The value of a text when `value` gives those of the names. -/
inductive Worth (value : String → ℚ) (text : String) : ℚ → Prop where
  | blank (h : Text.allBlank text.toList) : Worth value text 0
  | sum {named : List (Float × String)} (h : Spells text named) :
    Worth value text (named.map fun n => Binary64.value n.1 * value n.2).sum

variable {value : String → ℚ} {text : String}

/-- **A text is worth one number at most.** -/
theorem Worth.unique {total total' : ℚ} (h : Worth value text total)
    (h' : Worth value text total') : total = total' := by
  cases h with
  | blank hblank =>
    cases h' with
    | blank => rfl
    | sum hspells => exact absurd hblank hspells.notBlank
  | sum hspells =>
    cases h' with
    | blank hblank => exact absurd hblank hspells.notBlank
    | sum hspells' => rw [hspells.unique hspells']

/-- A text whose terms are known is worth their sum. -/
theorem exists_worth_iff {named : List (Float × String)} (h : Spells text named) {p : ℚ → Prop} :
    (∃ total, Worth value text total ∧ p total) ↔
      p (named.map fun n => Binary64.value n.1 * value n.2).sum := by
  constructor
  · rintro ⟨total, hworth, hp⟩
    rwa [(Worth.sum h).unique hworth]
  · intro hp
    exact ⟨_, .sum h, hp⟩

/-- Terms are worth the same by name and by handle. -/
theorem sum_named_eq {H : Type} {handle? : String → Option H} {worth : H → ℚ}
    (hvalue : ∀ name h, handle? name = some h → worth h = value name)
    {named : List (Float × String)} {terms : List (H × Float)}
    (h : List.Forall₂ (fun n t => handle? n.2 = some t.1 ∧ n.1 = t.2) named terms) :
    (named.map fun n => Binary64.value n.1 * value n.2).sum =
      (terms.map fun t => Binary64.value t.2 * worth t.1).sum := by
  induction h with
  | nil => rfl
  | cons hterm _ ih =>
    rw [List.map_cons, List.map_cons, List.sum_cons, List.sum_cons, ih, hterm.2,
      hvalue _ _ hterm.1]

/-- **The terms that are read are worth what the text is worth**, if handles have the values of the
names that they are looked up by. -/
theorem worth_of_readTerms {H : Type} {handle? : String → Option H} {worth : H → ℚ}
    (hvalue : ∀ name h, handle? name = some h → worth h = value name)
    {terms : List (H × Float)} (h : readTerms handle? text = .ok terms) :
    Worth value text (terms.map fun t => Binary64.value t.2 * worth t.1).sum := by
  rcases readTerms_eq_ok_iff.1 h with ⟨hblank, rfl⟩ | ⟨named, hspells, hterms⟩
  · exact .blank hblank
  · rw [← sum_named_eq hvalue hterms]
    exact .sum hspells

end OptModel.Expression
