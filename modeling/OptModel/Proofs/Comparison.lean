import OptModel.Proofs.Binary64.Special
import OptModel.Proofs.Decimal.ReadBack
import OptModel.Proofs.Extended
import Mathlib.Order.WithBot

/-!
# Comparing scalars

A scalar is a number when it compares with itself. Among the numbers the order is total and
transitive, and what is no number compares with nothing and gives way to the other operand of
`larger`. That is all that is needed to say what it means that a running maximum stays below a
bound: every number that went into it does. Of what is no number it says nothing, and this is as
true of doubles as it is of the unrounded numbers.

Doubles compare as their exact values do, so the laws of doubles follow from those of the unrounded
numbers.

## Main definitions

* `Scalar.IsNumber` — what compares with itself
* `LawfulScalar` — the laws of the order and of `larger`

## Main results

* `Extended.atMost_ofFloat` — doubles compare as their exact values
* `Extended.ofFloat_eq_zero_of_beq` — what counts as zero is zero
* `LawfulScalar.foldl_larger_atMost_iff` — a running maximum that stays below a bound
-/

namespace OptModel

open Scalar

/-- Whether a scalar is a number, finite or not. -/
def Scalar.IsNumber {R : Type} [Scalar R] (a : R) : Prop := atMost a a = true

/-- Scalars whose numbers are in order, and for which `larger` follows that order. -/
class LawfulScalar (R : Type) [Scalar R] : Prop where
  isNumber_of_atMost {a b : R} (hab : atMost a b = true) : IsNumber a ∧ IsNumber b
  trans {a b c : R} (hab : atMost a b = true) (hbc : atMost b c = true) : atMost a c = true
  total {a b : R} (ha : IsNumber a) (hb : IsNumber b) : atMost a b = true ∨ atMost b a = true
  larger_of_atMost {a b : R} (hab : atMost a b = true) : larger a b = b
  larger_of_not_atMost {a b : R} (ha : IsNumber a) (hab : ¬ atMost a b = true) : larger a b = a

namespace LawfulScalar

/-! ### Running maxima -/

variable {R : Type} [Scalar R] [LawfulScalar R] {a b t : R}

theorem isNumber_larger (ha : IsNumber a) : IsNumber (larger a b) := by
  by_cases hab : atMost a b = true
  · rw [larger_of_atMost hab]
    exact (isNumber_of_atMost hab).2
  · rwa [larger_of_not_atMost ha hab]

/-- The larger of a number and anything is below a bound when the number is, and the other operand
is or is none. -/
theorem larger_atMost_iff (ha : IsNumber a) :
    atMost (larger a b) t = true ↔
      atMost a t = true ∧ (IsNumber b → atMost b t = true) := by
  by_cases hab : atMost a b = true
  · rw [larger_of_atMost hab]
    constructor
    · intro hbt
      exact ⟨trans hab hbt, fun _ => hbt⟩
    · rintro ⟨-, hbt⟩
      exact hbt (isNumber_of_atMost hab).2
  · rw [larger_of_not_atMost ha hab]
    constructor
    · intro hat
      exact ⟨hat, fun hb => trans ((total ha hb).resolve_left hab) hat⟩
    · exact And.left

/-- **A running maximum stays below a bound** when it starts there and every number that goes into
it is below the bound. -/
theorem foldl_larger_atMost_iff (ha : IsNumber a) (l : List R) :
    atMost (l.foldl larger a) t = true ↔
      atMost a t = true ∧ ∀ b ∈ l, IsNumber b → atMost b t = true := by
  induction l generalizing a with
  | nil => simp
  | cons b l ih =>
    rw [List.foldl_cons, ih (isNumber_larger ha), larger_atMost_iff ha, List.forall_mem_cons,
      and_assoc]

end LawfulScalar

/-! ### The unrounded numbers -/

namespace Extended

theorem isNumber_iff {x : Extended} : IsNumber x ↔ x ≠ undefined := by
  cases x with
  | rational q => simp [IsNumber]
  | top | bottom => exact iff_of_true rfl nofun
  | undefined => exact iff_of_false Bool.false_ne_true fun h => h rfl

/-- Where a number is in the order of rationals and infinities. -/
def rank : Extended → WithBot (WithTop ℚ)
  | rational q => ((q : WithTop ℚ) : WithBot (WithTop ℚ))
  | top => ((⊤ : WithTop ℚ) : WithBot (WithTop ℚ))
  | bottom | undefined => ⊥

/-- **Numbers compare by their rank**, and nothing else compares. -/
theorem atMost_iff {x y : Extended} :
    atMost x y = true ↔ IsNumber x ∧ IsNumber y ∧ rank x ≤ rank y := by
  have hle {a b : WithTop ℚ} :
      ((a : WithBot (WithTop ℚ)) ≤ (b : WithBot (WithTop ℚ))) ↔ a ≤ b := WithBot.coe_le_coe
  rw [isNumber_iff, isNumber_iff]
  cases x with
  | undefined => exact iff_of_false Bool.false_ne_true fun h => h.1 rfl
  | bottom => cases y with
    | undefined => exact iff_of_false Bool.false_ne_true fun h => h.2.1 rfl
    | _ => exact iff_of_true rfl ⟨nofun, nofun, bot_le⟩
  | top => cases y with
    | undefined => exact iff_of_false Bool.false_ne_true fun h => h.2.1 rfl
    | top => exact iff_of_true rfl ⟨nofun, nofun, le_rfl⟩
    | rational | bottom => exact iff_of_false Bool.false_ne_true (by simp [rank])
  | rational a => cases y with
    | undefined => exact iff_of_false Bool.false_ne_true fun h => h.2.1 rfl
    | top => exact iff_of_true rfl ⟨nofun, nofun, hle.2 le_top⟩
    | bottom => exact iff_of_false Bool.false_ne_true (by simp [rank])
    | rational b => simp [rank]

instance : LawfulScalar Extended where
  isNumber_of_atMost hab := ⟨(atMost_iff.1 hab).1, (atMost_iff.1 hab).2.1⟩
  trans hab hbc := by
    obtain ⟨ha, -, hab⟩ := atMost_iff.1 hab
    obtain ⟨-, hc, hbc⟩ := atMost_iff.1 hbc
    exact atMost_iff.2 ⟨ha, hc, hab.trans hbc⟩
  total ha hb := by
    rw [atMost_iff, atMost_iff]
    exact (le_total _ _).imp (fun h => ⟨ha, hb, h⟩) fun h => ⟨hb, ha, h⟩
  larger_of_atMost hab := if_pos (.inr hab)
  larger_of_not_atMost ha hab := if_neg (not_or.2 ⟨isNumber_iff.1 ha, hab⟩)

/-! ### Doubles -/

theorem ofFloat_of_isNaN {x : Float} (h : x.isNaN) : ofFloat x = undefined := by
  have hfinite : x.isFinite = false := by
    rw [← Bool.not_eq_true]
    exact fun hfinite => Bool.false_ne_true ((isNaN_of_isFinite hfinite).symm.trans h)
  rw [ofFloat, toRat?_eq_none hfinite]
  exact if_pos h

/-- **Doubles compare as their exact values.** -/
theorem atMost_ofFloat {x y : Float} : atMost (ofFloat x) (ofFloat y) = true ↔ x ≤ y := by
  have hnan : x.isNaN ∨ y.isNaN → ¬ x ≤ y := fun h hle => by
    obtain ⟨hx, hy⟩ := Binary64.isNaN_of_le hle
    exact h.elim (fun hx' => Bool.false_ne_true (hx.symm.trans hx'))
      fun hy' => Bool.false_ne_true (hy.symm.trans hy')
  rcases Binary64.classify x with hx | hx | rfl | rfl
  · rcases Binary64.classify y with hy | hy | rfl | rfl
    · rw [ofFloat_of_isFinite hx, ofFloat_of_isFinite hy, atMost_rational, decide_eq_true_iff,
        Binary64.le_iff_of_toRat? (toRat?_eq_value hx) (toRat?_eq_value hy)]
    · rw [ofFloat_of_isNaN hy, ofFloat_of_isFinite hx]
      exact iff_of_false Bool.false_ne_true (hnan (.inr hy))
    · rw [ofFloat_of_isFinite hx, ofFloat_infinity]
      exact iff_of_true rfl (Binary64.le_of_lt (Binary64.lt_infinity hx))
    · rw [ofFloat_of_isFinite hx, ofFloat_neg_infinity]
      exact iff_of_false Bool.false_ne_true fun h =>
        Binary64.not_lt_of_le h (Binary64.neg_infinity_lt hx)
  · rw [ofFloat_of_isNaN hx]
    exact iff_of_false Bool.false_ne_true (hnan (.inl hx))
  · rcases Binary64.classify y with hy | hy | rfl | rfl
    · rw [ofFloat_of_isFinite hy, ofFloat_infinity]
      exact iff_of_false Bool.false_ne_true fun h =>
        Binary64.not_lt_of_le h (Binary64.lt_infinity hy)
    · rw [ofFloat_of_isNaN hy, ofFloat_infinity]
      exact iff_of_false Bool.false_ne_true (hnan (.inr hy))
    · exact iff_of_true (by decide) (by decide)
    · exact iff_of_false (by decide) (by decide)
  · rcases Binary64.classify y with hy | hy | rfl | rfl
    · rw [ofFloat_of_isFinite hy, ofFloat_neg_infinity]
      exact iff_of_true rfl (Binary64.le_of_lt (Binary64.neg_infinity_lt hy))
    · rw [ofFloat_of_isNaN hy, ofFloat_neg_infinity]
      exact iff_of_false Bool.false_ne_true (hnan (.inr hy))
    · exact iff_of_true (by decide) (by decide)
    · exact iff_of_true (by decide) (by decide)

/-- Only the zeros of either sign count as zero. -/
theorem ofFloat_eq_zero_of_beq {x : Float} (h : (x == 0.0) = true) : ofFloat x = rational 0 := by
  have hcompare : x.toModel.unpack.compare (0.0 : Float).toModel.unpack = some .eq := eq_of_beq h
  have hle : x ≤ 0.0 := Binary64.le_iff_compare.2 ⟨.eq, hcompare, nofun⟩
  have hge : 0.0 ≤ x :=
    Binary64.le_iff_compare.2 ⟨.eq, by rw [Binary64.compare_swap, hcompare]; rfl, nofun⟩
  rw [← atMost_ofFloat, ofFloat_zero] at hle hge
  cases hx : ofFloat x with
  | rational q =>
    rw [hx, atMost_rational, decide_eq_true_iff] at hle hge
    rw [le_antisymm hle hge]
  | top | undefined =>
    rw [hx] at hle
    exact absurd hle Bool.false_ne_true
  | bottom =>
    rw [hx] at hge
    exact absurd hge Bool.false_ne_true

end Extended

theorem Scalar.atMost_float_iff {x y : Float} : atMost x y = true ↔ x ≤ y := decide_eq_true_iff

theorem Scalar.isNumber_float_iff {x : Float} : IsNumber x ↔ x.isNaN = false := by
  rw [IsNumber, atMost_float_iff]
  constructor
  · exact fun h => (Binary64.isNaN_of_le h).1
  · exact fun h => Binary64.le_of_not_lt h h fun hlt =>
      Binary64.not_lt_of_le (Binary64.le_of_lt hlt) hlt

/-- A double that is no number is below every bound, if only numbers are asked. -/
theorem Scalar.atMost_if_isNumber_iff {x y : Float} :
    (IsNumber x → atMost x y = true) ↔ x.isNaN ∨ x ≤ y := by
  rw [isNumber_float_iff, atMost_float_iff, ← Bool.not_eq_true, imp_iff_not_or, not_not]

/-- The laws of the exact values are those of the doubles. -/
instance : LawfulScalar Float where
  isNumber_of_atMost {a b} hab := by
    obtain ⟨ha, hb⟩ := Binary64.isNaN_of_le (of_decide_eq_true hab)
    exact ⟨isNumber_float_iff.2 ha, isNumber_float_iff.2 hb⟩
  trans {a b c} hab hbc := by
    rw [atMost_float_iff, ← Extended.atMost_ofFloat] at hab hbc ⊢
    exact LawfulScalar.trans hab hbc
  total {a b} ha hb := by
    by_cases hlt : b < a
    · exact .inr (decide_eq_true (Binary64.le_of_lt hlt))
    · exact .inl (decide_eq_true (Binary64.le_of_not_lt (isNumber_float_iff.1 ha)
        (isNumber_float_iff.1 hb) hlt))
  larger_of_atMost {a b} hab := by
    have hle : decide (a ≤ b) = true := hab
    exact if_pos (by rw [hle, Bool.or_true])
  larger_of_not_atMost {a b} ha hab := by
    have hnan := isNumber_float_iff.1 ha
    have hle : decide (a ≤ b) = false := Bool.eq_false_iff.2 hab
    exact if_neg (by rw [hnan, hle]; decide)

end OptModel
