import OptModel.Json.Record
import OptModel.Proofs.Except
import OptModel.Proofs.Json.Numbers

/-!
# What readers yield

A reader yields values of a kind when all that it can give is of that kind, from whatever text. This
goes along the way in which readers are put together, so that only the leaves have to be looked at:
here that numbers are finite, because a literal out of range is no number, and that a record keeps
what its blank one has and every field keeps.

Nothing is said about texts. A record is as good as its layout whether it was read from an object or
from a list.

## Main definitions

* `Json.Yields` — all that a reader gives has a property
* `Json.Field.Keeps` — putting the value of a field into a record keeps a property

## Main results

* `Json.yields_number` — numbers are finite
* `Json.yields_nullable`, `Json.yields_list` — containers of what an item yields
* `Json.Layout.yields` — records have what the blank one has and the fields keep
-/

namespace OptModel.Json

open Binary64

variable {α β ρ : Type} {p : α → Prop} {q : β → Prop}

/-- **All that a reader gives** has the property `p`. -/
structure Yields (read : Reader α) (p : α → Prop) : Prop where
  of_read : ∀ {text a rest}, read text = .ok (a, rest) → p a

/-! ### Readers made from others -/

theorem yields_trivial (read : Reader α) : Yields read fun _ => True := ⟨fun _ => trivial⟩

theorem yields_pure {a : α} (h : p a) : Yields (pure a) p where
  of_read hread := by
    rw [← (Prod.mk.inj (Except.ok.inj hread)).1]
    exact h

theorem yields_throw (fault : Fault) (p : α → Prop) : Yields (throw fault) p := ⟨nofun⟩

theorem yields_bind {x : Reader α} {f : α → Reader β} (hx : Yields x p)
    (hf : ∀ a, p a → Yields (f a) q) : Yields (x >>= f) q where
  of_read hread := by
    obtain ⟨⟨a, mid⟩, ha, hb⟩ := Except.bind_eq_ok_iff.1 hread
    exact (hf a (hx.of_read ha)).of_read hb

/-- What is only looked at does not matter. -/
theorem yields_then {x : Reader α} {f : α → Reader β} (hf : ∀ a, Yields (f a) q) :
    Yields (x >>= f) q :=
  yields_bind (yields_trivial x) fun a _ => hf a

theorem yields_map {x : Reader α} {f : α → β} (hx : Yields x p) (hf : ∀ a, p a → q (f a)) :
    Yields (f <$> x) q where
  of_read hread := by
    obtain ⟨⟨a, mid⟩, ha, heq⟩ := Except.bind_eq_ok_iff.1 hread
    rw [← (Prod.mk.inj (Except.ok.inj heq)).1]
    exact hf a (hx.of_read ha)

/-- What a reader does may depend on how much text there is. -/
theorem yields_of_text {read : List Char → Reader α} (h : ∀ text, Yields (read text) p) :
    Yields (fun text => read text text) p :=
  ⟨fun {text _ _} hread => (h text).of_read hread⟩

theorem yields_mismatch (expected : String) (c : Char) (p : α → Prop) :
    Yields (mismatch expected c) p :=
  yields_then fun _ => yields_throw _ p

theorem yields_of_decode {codec : Codec α} (h : Yields codec.read p) {text : String} {a : α}
    (hdecode : codec.decode text = .ok a) : p a := by
  obtain ⟨⟨a', rest⟩, hread, -⟩ := Except.bind_eq_ok_iff.1 hdecode
  rw [Codec.decode, readWhole_of_ok hread] at hdecode
  by_cases hend : (rest.dropWhile isSpace).isEmpty
  · rw [if_pos hend] at hdecode
    rw [← Except.ok.inj hdecode]
    exact h.of_read hread
  · rw [if_neg hend] at hdecode
    exact nomatch hdecode

/-! ### Numbers -/

theorem isFinite_neg {x : Float} (h : x.isFinite) : (-x).isFinite := by
  rw [neg_eq_ofParts h]
  exact isFinite_ofParts _ (isCanonical_parts h)

/-- The double of a decimal is finite or infinity. -/
theorem Decimal.isFinite_of_isInf {d : Decimal} (h : d.toFloat.isInf = false) :
    d.toFloat.isFinite := by
  have hinfinity : infinity.isInf = true := by decide
  have hrounded : ∀ num den, (ofRatio num den).isInf = false → (ofRatio num den).isFinite := by
    intro num den hinf
    refine (isFinite_or_eq_infinity num den).resolve_right fun heq => ?_
    rw [heq, hinfinity] at hinf
    exact nomatch hinf
  by_cases hvanishes : d.digits = 0 ∨ (Decimal.digitCount d.digits : ℤ) + d.exponent < -330
  · rw [Decimal.toFloat_of_vanishes hvanishes] at h ⊢
    exact hrounded 0 1 h
  · obtain ⟨hd, hlow⟩ := not_or.1 hvanishes
    by_cases hoverflows : (Decimal.digitCount d.digits : ℤ) + d.exponent > 310
    · rw [Decimal.toFloat_of_overflows hd hoverflows, hinfinity] at h
      exact nomatch h
    · rw [Decimal.toFloat_of_inRange hd (not_lt.1 hlow) (not_lt.1 hoverflows)] at h ⊢
      exact hrounded _ _ h

theorem isFinite_of_floatOf {negative : Bool} {d : Decimal} {number : Number}
    (h : floatOf negative d = .ok number) : number.toFloat.isFinite := by
  rw [floatOf] at h
  split at h
  · cases h
  · next hinf =>
    have hfinite := Decimal.isFinite_of_isInf (Bool.eq_false_iff.2 hinf)
    rw [← Except.ok.inj h]
    show (if negative then -d.toFloat else d.toFloat).isFinite
    split
    · exact isFinite_neg hfinite
    · exact hfinite

theorem isFinite_of_integerOf {negative : Bool} {n : Nat} {number : Number}
    (h : integerOf negative n = .ok number) : number.toFloat.isFinite := by
  rw [integerOf] at h
  split at h
  · split at h
    · next hrange =>
      rw [Bool.and_eq_true, decide_eq_true_eq, decide_eq_true_eq] at hrange
      have hmin : Int64.minValue.toInt = -2 ^ 63 := by decide
      rw [← Except.ok.inj h]
      exact isFinite_neg (isFinite_ofNat (by rw [hmin] at hrange; omega))
    · exact isFinite_of_floatOf h
  · split at h
    · next hrange =>
      rw [← Except.ok.inj h]
      exact isFinite_ofNat hrange
    · exact isFinite_of_floatOf h

theorem isFinite_of_unsignedNumber {negative : Bool} {text rest : List Char} {number : Number}
    (h : unsignedNumber negative text = .ok (number, rest)) : number.toFloat.isFinite := by
  obtain ⟨⟨whole, _⟩, hwhole, hmore⟩ := Except.bind_eq_ok_iff.1 h
  obtain ⟨⟨part?, _⟩, hpart, hmore⟩ := Except.bind_eq_ok_iff.1 hmore
  obtain ⟨⟨power?, _⟩, hpower, -⟩ := Except.bind_eq_ok_iff.1 hmore
  rw [unsignedNumber_of_parts hwhole hpart hpower, Except.map_eq_ok_iff] at h
  obtain ⟨number', hnumber, heq⟩ := h
  rw [← (Prod.mk.inj heq).1]
  split at hnumber
  · exact isFinite_of_integerOf hnumber
  · exact isFinite_of_floatOf hnumber

theorem yields_readNumber : Yields readNumber fun number => number.toFloat.isFinite where
  of_read h := by
    unfold readNumber at h
    split at h
    · exact isFinite_of_unsignedNumber h
    · exact isFinite_of_unsignedNumber h

/-- **Numbers are finite.** -/
theorem yields_number : Yields number.read fun x => x.isFinite := by
  refine yields_map (yields_then fun c => ?_) fun number h => h
  show Yields (if _ then _ else _) _
  split
  · exact yields_readNumber
  · exact yields_mismatch _ _ _

/-! ### Containers -/

theorem yields_nullable {item : Codec α} (h : Yields item.read p) :
    Yields (nullable item).read fun o => ∀ a ∈ o, p a := by
  refine yields_then fun c => ?_
  split
  · exact yields_then fun _ => yields_pure nofun
  · refine yields_map h fun a ha => ?_
    rintro _ ⟨⟩
    exact ha

theorem yields_readItems {item : Reader α} (h : Yields item p) (n : Nat) (first : Bool) :
    Yields (readItems item n first) fun l => ∀ a ∈ l, p a := by
  induction n generalizing first with
  | zero => exact yields_throw _ _
  | succ n ih =>
    refine yields_then fun more => ?_
    split
    · exact yields_bind h fun a ha => yields_bind (ih false) fun rest hrest =>
        yields_pure (List.forall_mem_cons.2 ⟨ha, hrest⟩)
    · exact yields_then fun _ => yields_pure nofun

theorem yields_list {item : Codec α} (h : Yields item.read p) :
    Yields (list item).read fun l => ∀ a ∈ l, p a := by
  refine yields_then fun c => ?_
  split
  · exact yields_then fun _ => yields_of_text fun text => yields_readItems h _ _
  · exact yields_mismatch _ _ _

/-! ### Records -/

/-- Putting the value of a field into a record keeps the property `p`. -/
def Field.Keeps (field : Field ρ) (p : ρ → Prop) : Prop :=
  Yields field.read fun put => ∀ r, p r → p (put r)

section Keeps

variable {p : ρ → Prop} {q : α → Prop} {codec : Codec α} {name : String}

theorem keeps_required {get : ρ → α} {set : α → ρ → ρ} (h : Yields codec.read q)
    (hset : ∀ a r, q a → p r → p (set a r)) : (Field.required name codec get set).Keeps p :=
  yields_map h fun a ha r hr => hset a r ha hr

theorem keeps_defaulted {get : ρ → α} {set : α → ρ → ρ} {omitted : α → Bool}
    (h : Yields codec.read q) (hset : ∀ a r, q a → p r → p (set a r)) :
    (Field.defaulted name codec get set omitted).Keeps p :=
  yields_map h fun a ha r hr => hset a r ha hr

theorem keeps_optional {get : ρ → Option α} {set : Option α → ρ → ρ} (h : Yields codec.read q)
    (hset : ∀ o r, (∀ a ∈ o, q a) → p r → p (set o r)) :
    (Field.optional name codec get set).Keeps p :=
  yields_map (yields_nullable h) fun o ho r hr => hset o r ho hr

end Keeps

namespace Layout

variable {layout : Layout ρ} {p : ρ → Prop}

theorem yields_readMembers (h : ∀ field ∈ layout.fields, field.Keeps p) (n : Nat) (first : Bool)
    (seen : List String) {r : ρ} (hr : p r) : Yields (layout.readMembers n first seen r) p := by
  induction n generalizing first seen r with
  | zero => exact yields_throw _ _
  | succ n ih =>
    refine yields_then fun key? => ?_
    split
    · -- the end of the object
      split
      · exact yields_throw _ _
      · exact yields_pure hr
    · split
      · exact yields_then fun _ => yields_then fun _ => ih _ _ hr
      · next field hfind =>
        split
        · exact yields_throw _ _
        · exact yields_then fun _ => yields_bind (h field (List.mem_of_find?_eq_some hfind))
            fun put hput => ih _ _ (hput _ hr)

theorem yields_closeList {r : ρ} (hr : p r) : Yields (readPositions.closeList r) p := by
  refine yields_then fun c? => ?_
  split
  · exact yields_throw _ _
  · exact yields_then fun _ => yields_pure hr
  · refine yields_then fun _ => yields_then fun c? => ?_
    split
    · exact yields_throw _ _
    · exact yields_throw _ _
  · exact yields_throw _ _

theorem yields_readPositions {fields : List (Field ρ)} (h : ∀ field ∈ fields, field.Keeps p)
    (first : Bool) (seen : List String) {r : ρ} (hr : p r) :
    Yields (layout.readPositions fields first seen r) p := by
  induction fields generalizing first seen r with
  | nil => exact yields_closeList hr
  | cons field fields ih =>
    obtain ⟨hfield, hfields⟩ := List.forall_mem_cons.1 h
    refine yields_then fun more => ?_
    split
    · exact yields_bind hfield fun put hput => ih hfields _ _ (hput _ hr)
    · split
      · exact yields_throw _ _
      · exact yields_closeList hr

/-- **Records have what the blank one has** and every field keeps. -/
theorem yields (hblank : p layout.blank) (h : ∀ field ∈ layout.fields, field.Keeps p) :
    Yields layout.codec.read p := by
  refine yields_then fun c => ?_
  split
  · exact yields_then fun _ => yields_of_text fun text => yields_readMembers h _ _ _ hblank
  · split
    · exact yields_then fun _ => yields_readPositions h _ _ hblank
    · exact yields_mismatch _ _ _

end Layout

end OptModel.Json
