import OptModel.Json.Codec
import OptModel.Proofs.Decimal.ReadBack

/-!
# Numbers read back

The record spelling of a finite double is read as that double, and the digits of a natural of
sixty-four bits as that natural. A number ends where its literal could not go on, and in a record
the only characters behind a value are a comma and the closing brackets; so everything is said about
a number with such a `Delimited` text behind it.

Two spellings have to be read. A positional text may have zeros written out, by which it is another
decimal of the same value. A scientific one is read as the very decimal that was written.

## Main definitions

* `Json.Delimited` — what may follow a value
* `Json.pointed` — the digits behind a point

## Main results

* `Json.unsignedNumber_of_parts` — a number, given what its parts are read as
* `Json.unsignedNumber_writeDecimal` — the record spelling of a decimal
* `Json.readNumber_write` — the record spelling of a double
* `Json.readNumber_digitsOf` — naturals
-/

namespace OptModel.Json

open Decimal Binary64

/-- What may follow a value: nothing, a comma, or a closing bracket. -/
def Delimited (rest : List Char) : Prop := ∀ c ∈ rest.head?, c = ',' ∨ c = ']' ∨ c = '}'

theorem delimited_nil : Delimited [] := nofun

theorem delimited_comma (rest : List Char) : Delimited (',' :: rest) := by
  rintro c ⟨⟩
  exact .inl rfl

theorem delimited_bracket (rest : List Char) : Delimited (']' :: rest) := by
  rintro c ⟨⟩
  exact .inr (.inl rfl)

theorem delimited_brace (rest : List Char) : Delimited ('}' :: rest) := by
  rintro c ⟨⟩
  exact .inr (.inr rfl)

/-- A delimiter goes on with no literal. -/
theorem Delimited.head_ne {rest : List Char} (h : Delimited rest) {c : Char}
    (hc : c ∈ rest.head?) : c.isDigit = false ∧ c ≠ '.' ∧ c ≠ 'e' ∧ c ≠ 'E' := by
  rcases h c hc with rfl | rfl | rfl
  · decide
  · decide
  · decide

/-! ### The parts of a literal -/

variable {whole part rest : List Char}

theorem wholePart_append (hdigits : ∀ c ∈ whole, c.isDigit) (hne : whole ≠ [])
    (hleading : whole.head? = some '0' → whole.length = 1)
    (hrest : ∀ c ∈ rest.head?, c.isDigit = false) :
    wholePart (whole ++ rest) = .ok (whole, rest) := by
  have hempty : whole.isEmpty = false := List.isEmpty_eq_false_iff.2 hne
  have hzero : (decide (whole.head? = some '0') && decide (whole.length > 1)) = false := by
    rw [Bool.and_eq_false_iff, decide_eq_false_iff_not, decide_eq_false_iff_not]
    by_cases hhead : whole.head? = some '0'
    · exact .inr (by rw [hleading hhead]; decide)
    · exact .inl hhead
  rw [wholePart_of_splitDigits (splitDigits_append hdigits hrest), hempty, hzero]
  rfl

theorem fractionPart_append (hdigits : ∀ c ∈ part, c.isDigit) (hne : part ≠ [])
    (hrest : ∀ c ∈ rest.head?, c.isDigit = false) :
    fractionPart ('.' :: (part ++ rest)) = .ok (some part, rest) := by
  have hempty : part.isEmpty = false := List.isEmpty_eq_false_iff.2 hne
  rw [fractionPart_of_splitDigits (splitDigits_append hdigits hrest), hempty]
  rfl

theorem fractionPart_of_ne (h : ∀ c ∈ rest.head?, c ≠ '.') :
    fractionPart rest = .ok (none, rest) := by
  cases rest with
  | nil => rfl
  | cons c rest =>
    have hc : c ≠ '.' := h c rfl
    rw [fractionPart]
    rintro rest' heq
    exact hc (List.cons.inj heq).1

theorem exponentPart_of_ne (h : ∀ c ∈ rest.head?, c ≠ 'e' ∧ c ≠ 'E') :
    exponentPart rest = .ok (none, rest) := by
  cases rest with
  | nil => rfl
  | cons c rest =>
    obtain ⟨he, hE⟩ := h c rfl
    rw [exponentPart, decide_eq_false he, decide_eq_false hE]
    rfl

/-- A power of ten is read with its sign. -/
theorem exponentPart_append (power : ℤ) (hrest : ∀ c ∈ rest.head?, c.isDigit = false) :
    exponentPart ('e' :: (if power < 0 then '-' else '+') :: (digitsOf power.natAbs ++ rest)) =
      .ok (some power, rest) := by
  have hempty : (digitsOf power.natAbs).isEmpty = false :=
    List.isEmpty_eq_false_iff.2 (digitsOf_ne_nil _)
  have hsplit : splitDigits (digitsOf power.natAbs ++ rest) = (digitsOf power.natAbs, rest) :=
    splitDigits_append (fun c hc => isDigit_of_mem_digitsOf hc) hrest
  by_cases hneg : power < 0
  · have hvalue : -(power.natAbs : ℤ) = power := by omega
    simp only [exponentPart, hneg, if_true, splitSign, hsplit, hempty, naturalOf_digitsOf, hvalue,
      decide_true, Bool.true_or, Bool.false_eq_true, if_false]
  · have hvalue : (power.natAbs : ℤ) = power := by omega
    simp only [exponentPart, hneg, if_true, splitSign, hsplit, hempty, naturalOf_digitsOf, hvalue,
      decide_true, Bool.true_or, Bool.false_eq_true, if_false]

/-! ### Literals -/

/-- Reading depends on the double of a decimal only. -/
theorem floatOf_congr {d d' : Decimal} (h : d.toFloat = d'.toFloat) (negative : Bool) :
    floatOf negative d = floatOf negative d' := by
  rw [floatOf, floatOf, h]

/-- Digits around a point. -/
theorem unsignedNumber_point (hpointed : IsPointed whole part) (hne : part ≠ [])
    (hrest : Delimited rest) (negative : Bool) :
    unsignedNumber negative (whole ++ '.' :: (part ++ rest)) =
      (floatOf negative ⟨naturalOf (whole ++ part), -(part.length : ℤ)⟩).map (·, rest) := by
  have hwhole : wholePart (whole ++ '.' :: (part ++ rest)) = .ok (whole, '.' :: (part ++ rest)) :=
    wholePart_append hpointed.isDigit_whole hpointed.whole_ne_nil hpointed.leading
      (by rintro c ⟨⟩; decide)
  have hpart := fractionPart_append hpointed.isDigit_part hne fun c hc => (hrest.head_ne hc).1
  have hpower := exponentPart_of_ne fun c hc => (hrest.head_ne hc).2.2
  rw [unsignedNumber_of_parts hwhole hpart hpower, Option.isNone_some, Bool.false_and,
    if_neg Bool.false_ne_true, Option.getD_some, Option.getD_none, zero_sub]

/-- Digits alone. -/
theorem unsignedNumber_digitsOf (n : ℕ) (hrest : Delimited rest) (negative : Bool) :
    unsignedNumber negative (digitsOf n ++ rest) = (integerOf negative n).map (·, rest) := by
  have hwhole := wholePart_append (fun c hc => isDigit_of_mem_digitsOf hc) (digitsOf_ne_nil n)
    length_digitsOf_of_head? fun c hc => (hrest.head_ne hc).1
  have hpart := fractionPart_of_ne fun c hc => (hrest.head_ne hc).2.1
  have hpower := exponentPart_of_ne fun c hc => (hrest.head_ne hc).2.2
  rw [unsignedNumber_of_parts hwhole hpart hpower, Option.isNone_none, Option.isNone_none,
    Bool.true_and, if_pos rfl, naturalOf_digitsOf]

/-- The point and the digits behind it, which are left out together. -/
def pointed (part : List Char) : List Char := if part = [] then [] else '.' :: part

/-- No digit comes right behind the first one of a number with a power. -/
theorem isDigit_head?_pointed (part tail : List Char) :
    ∀ c ∈ (pointed part ++ 'e' :: tail).head?, c.isDigit = false := by
  rw [pointed]
  split
  · rintro c ⟨⟩
    decide
  · rintro c ⟨⟩
    decide

theorem fractionPart_pointed (hdigits : ∀ c ∈ part, c.isDigit) (tail : List Char) :
    fractionPart (pointed part ++ 'e' :: tail) =
      .ok (if part = [] then none else some part, 'e' :: tail) := by
  rw [pointed]
  split
  · refine fractionPart_of_ne ?_
    rintro c ⟨⟩
    decide
  · next hne =>
    refine fractionPart_append hdigits hne ?_
    rintro c ⟨⟩
    decide

/-- One digit, a point before the others, and a power of ten. -/
theorem unsignedNumber_scientific (d : Decimal) (hrest : Delimited rest) (negative : Bool) :
    unsignedNumber negative (scientific d ++ rest) = (floatOf negative d).map (·, rest) := by
  have hdigits : ∀ c ∈ digitsOf d.digits, c.isDigit := fun c hc => isDigit_of_mem_digitsOf hc
  have hnatural := naturalOf_digitsOf d.digits
  obtain ⟨first, more, hcons⟩ := List.exists_cons_of_ne_nil (digitsOf_ne_nil d.digits)
  rw [hcons] at hdigits hnatural
  obtain ⟨hfirst, hmore⟩ := List.forall_mem_cons.1 hdigits
  set power : ℤ := d.exponent + more.length with hsum
  set behind := 'e' :: (if power < 0 then '-' else '+') :: (digitsOf power.natAbs ++ rest)
  have htext : scientific d ++ rest = [first] ++ (pointed more ++ behind) := by
    cases more with
    | nil => simp [scientific, pointed, behind, hcons, hsum]
    | cons c more => simp [scientific, pointed, behind, hcons, hsum]
  have hwhole : wholePart ([first] ++ (pointed more ++ behind)) =
      .ok ([first], pointed more ++ behind) :=
    wholePart_append (List.forall_mem_singleton.2 hfirst) (List.cons_ne_nil _ _) (fun _ => rfl)
      (isDigit_head?_pointed more _)
  have hpart := fractionPart_pointed hmore
    ((if power < 0 then '-' else '+') :: (digitsOf power.natAbs ++ rest))
  have hpower := exponentPart_append power fun c hc => (hrest.head_ne hc).1
  have hgetD : (if more = [] then none else some more : Option (List Char)).getD [] = more := by
    split
    · next h => exact h.symm
    · rfl
  rw [htext, unsignedNumber_of_parts hwhole hpart hpower, Option.isNone_some, Bool.and_false,
    if_neg Bool.false_ne_true, hgetD, Option.getD_some, List.singleton_append, hnatural, hsum,
    add_sub_cancel_right]

/-! ### The record spelling -/

/-- A decimal without places is written with its zeros and `.0` behind them. -/
theorem exists_pointed_of_nonneg {d : Decimal} (he : 0 ≤ d.exponent)
    (hzero : d.digits = 0 → d.exponent = 0) :
    ∃ whole part, positional true d = whole ++ '.' :: part ∧ IsPointed whole part ∧ part ≠ [] ∧
      Decimal.toFloat ⟨naturalOf (whole ++ part), -(part.length : ℤ)⟩ = d.toFloat := by
  obtain ⟨k, hk⟩ := Int.eq_ofNat_of_zero_le he
  refine ⟨digitsOf d.digits ++ List.replicate k '0', ['0'], ?_, ⟨?_, ?_, ?_, ?_⟩,
    List.cons_ne_nil _ _, toFloat_congr ?_⟩
  · rw [positional, if_pos he, if_pos rfl, hk, Int.toNat_natCast]
  · intro c hc
    rcases List.mem_append.1 hc with hc | hc
    · exact isDigit_of_mem_digitsOf hc
    · exact isDigit_of_mem_replicate hc
  · rintro c (_ | ⟨_, ⟨⟩⟩)
    decide
  · exact List.append_ne_nil_of_left_ne_nil (digitsOf_ne_nil d.digits) _
  · intro hhead
    rw [List.head?_append_of_ne_nil _ (digitsOf_ne_nil d.digits)] at hhead
    rcases Nat.eq_zero_or_pos d.digits with h | h
    · rw [hzero h] at hk
      obtain rfl : k = 0 := by omega
      rw [h, digitsOf_zero]
      rfl
    · exact absurd hhead (head?_digitsOf h)
  · have hnatural : naturalOf (digitsOf d.digits ++ List.replicate k '0' ++ ['0']) =
        10 * (10 ^ k * d.digits) := by
      rw [naturalOf_eq, Nat.ofDigitChars_append, Nat.ofDigitChars_append,
        Nat.ofDigitChars_replicate_zero, ← naturalOf_eq, naturalOf_digitsOf,
        ← List.replicate_one, Nat.ofDigitChars_replicate_zero, pow_one]
    rw [hnatural, hk, List.length_singleton]
    push_cast
    rw [zpow_neg, zpow_natCast, zpow_one]
    ring

/-- A decimal is written as digits around a point, of a decimal of the same double. -/
theorem exists_pointed {d : Decimal} (hzero : d.digits = 0 → d.exponent = 0) :
    ∃ whole part, positional true d = whole ++ '.' :: part ∧ IsPointed whole part ∧ part ≠ [] ∧
      Decimal.toFloat ⟨naturalOf (whole ++ part), -(part.length : ℤ)⟩ = d.toFloat := by
  by_cases he : 0 ≤ d.exponent
  · exact exists_pointed_of_nonneg he hzero
  · obtain ⟨whole, part, htext, hpointed, hvalue, hplaces⟩ :=
      exists_pointed_of_neg (not_le.1 he) true
    refine ⟨whole, part, htext, hpointed, ?_, by rw [hvalue, hplaces]⟩
    rintro rfl
    rw [List.length_nil] at hplaces
    omega

/-- **The record spelling of a decimal is read as its double.** -/
theorem unsignedNumber_writeDecimal {d : Decimal} (hzero : d.digits = 0 → d.exponent = 0)
    (hrest : Delimited rest) (negative : Bool) :
    unsignedNumber negative (record.writeDecimal d ++ rest) =
      (floatOf negative d).map (·, rest) := by
  rw [Spelling.writeDecimal]
  split
  · obtain ⟨whole, part, htext, hpointed, hne, hvalue⟩ := exists_pointed hzero
    show unsignedNumber negative (positional true d ++ rest) = _
    rw [htext, List.append_assoc, List.cons_append, unsignedNumber_point hpointed hne hrest,
      floatOf_congr hvalue]
  · exact unsignedNumber_scientific d hrest negative

/-- A decimal starts with a digit in the record spelling. -/
theorem writeDecimal_shape (d : Decimal) :
    ∃ c more, record.writeDecimal d = c :: more ∧ c.isDigit := by
  obtain ⟨c, more, hcons⟩ := List.exists_cons_of_ne_nil (digitsOf_ne_nil d.digits)
  have hc : c.isDigit := isDigit_of_mem_digitsOf (hcons ▸ List.mem_cons_self)
  rw [Spelling.writeDecimal]
  split
  · by_cases he : 0 ≤ d.exponent
    · exact ⟨c, _, by rw [positional, if_pos he, hcons]; rfl, hc⟩
    · obtain ⟨whole, part, htext, hpointed, -, -⟩ :=
        exists_pointed_of_neg (not_le.1 he) record.pointZero
      obtain ⟨first, others, hwhole⟩ := List.exists_cons_of_ne_nil hpointed.whole_ne_nil
      exact ⟨first, _, by rw [htext, hwhole]; rfl,
        hpointed.isDigit_whole first (hwhole ▸ List.mem_cons_self)⟩
  · exact ⟨c, _, by rw [scientific, hcons]; rfl, hc⟩

/-! ### Doubles and naturals -/

theorem ne_minus_of_isDigit {c : Char} (hc : c.isDigit) : c ≠ '-' := by
  rintro rfl
  exact absurd hc (by decide)

/-- A double starts with a digit or a minus in the record spelling. -/
theorem write_shape (x : Float) :
    ∃ c more, record.write x = c :: more ∧ (c = '-' || c.isDigit) = true := by
  obtain ⟨c, more, hcons, hc⟩ :=
    writeDecimal_shape (if significand x = 0 then ⟨0, 0⟩ else shortest record.tie x)
  rw [Spelling.write, hcons]
  by_cases hneg : isNegative x
  · exact ⟨'-', _, by rw [if_pos hneg]; rfl, rfl⟩
  · exact ⟨c, _, by rw [if_neg hneg]; rfl, by rw [hc, Bool.or_true]⟩

theorem readNumber_of_ne {c : Char} {text : List Char} (hc : c ≠ '-') :
    readNumber (c :: text) = unsignedNumber false (c :: text) := by
  rw [readNumber]
  rintro rest heq
  exact hc (List.cons.inj heq).1

/-- Zero is written without an exponent, and nothing else is written as zero. -/
theorem exponent_written {tie : Tie} {x : Float} (hx : x.isFinite) :
    (if significand x = 0 then ⟨0, 0⟩ else shortest tie x : Decimal).digits = 0 →
      (if significand x = 0 then ⟨0, 0⟩ else shortest tie x : Decimal).exponent = 0 := by
  split
  · exact fun _ => rfl
  · next hne => exact fun h => absurd h (digits_shortest_ne_zero hx hne)

/-- **The record spelling of a double is read as that double.** -/
theorem readNumber_write {x : Float} (hx : x.isFinite) (hrest : Delimited rest) :
    readNumber (record.write x ++ rest) = .ok (.floating x, rest) := by
  set d : Decimal := if significand x = 0 then ⟨0, 0⟩ else shortest record.tie x with hd
  have hvalue : d.toFloat = x.abs := toFloat_written hx
  have hzero : d.digits = 0 → d.exponent = 0 := exponent_written hx
  have hinf : x.abs.isInf = false := by
    rw [abs_eq_ofParts hx]
    exact isInf_of_isFinite (isFinite_ofParts .positive (isCanonical_parts hx))
  have hfloat : floatOf (isNegative x) d = .ok (.floating x) := by
    rw [floatOf, hvalue, hinf, signed_abs hx]
    rfl
  have hread : readNumber (record.write x ++ rest) =
      unsignedNumber (isNegative x) (record.writeDecimal d ++ rest) := by
    rw [Spelling.write, ← hd]
    cases hneg : isNegative x with
    | true => rfl
    | false =>
      obtain ⟨c, more, hcons, hc⟩ := writeDecimal_shape d
      rw [if_neg Bool.false_ne_true, List.nil_append, hcons, List.cons_append,
        readNumber_of_ne (ne_minus_of_isDigit hc)]
  rw [hread, unsignedNumber_writeDecimal hzero hrest, hfloat]
  rfl

/-- **The digits of a natural of sixty-four bits are read as that natural.** -/
theorem readNumber_digitsOf {n : ℕ} (hn : n < UInt64.size) (hrest : Delimited rest) :
    readNumber (digitsOf n ++ rest) = .ok (.natural n, rest) := by
  obtain ⟨c, more, hcons⟩ := List.exists_cons_of_ne_nil (digitsOf_ne_nil n)
  have hc : c.isDigit := isDigit_of_mem_digitsOf (hcons ▸ List.mem_cons_self)
  have hread : readNumber (digitsOf n ++ rest) = unsignedNumber false (digitsOf n ++ rest) := by
    rw [hcons, List.cons_append, readNumber_of_ne (ne_minus_of_isDigit hc)]
  rw [hread, unsignedNumber_digitsOf n hrest, integerOf, if_neg Bool.false_ne_true, if_pos hn]
  rfl

end OptModel.Json
