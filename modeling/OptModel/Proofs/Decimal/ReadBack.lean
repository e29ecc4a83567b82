import OptModel.Decimal.Literal
import OptModel.Decimal.Text
import OptModel.Proofs.Binary64.Quotient
import Mathlib.Tactic.FieldSimp

/-!
# What is written reads back

A finite double in the plain spelling is a literal of that double. Two things could go wrong on the
way, and neither does: the text writes out zeros, so it is read as another decimal than the one that
was written, but of the same double (`toFloat_writtenOut`); and where no decimal of seventeen digits
reads back the exact decimal is written, which reads back because rounding changes nothing
(`toFloat_ofFloat`).

## Main results

* `Decimal.toFloat_congr` — decimals of the same value are read as the same double
* `Decimal.unsigned?_positional` — the decimal that a positional text is read as
* `Decimal.toFloat_shortest` — the fewest digits determine the double
* `readLiteral?_plainText` — the plain spelling reads back
* `isPlainChar_of_mem_plainText` — and has nothing but digits, points and minus signs in it
-/

namespace OptModel.Decimal

open Binary64

/-! ### Digits -/

theorem isDigit_of_mem_digitsOf {n : ℕ} {c : Char} (h : c ∈ digitsOf n) : c.isDigit :=
  Nat.isDigit_of_mem_toDigits (by omega) (by omega) h

@[simp] theorem digitsOf_ne_nil (n : ℕ) : digitsOf n ≠ [] := Nat.toDigits_ne_nil

@[simp] theorem digitsOf_zero : digitsOf 0 = ['0'] := Nat.toDigits_zero 10

/-- No zero stands in front of the digits of a positive number. -/
theorem head?_digitsOf {n : ℕ} (hn : 0 < n) : (digitsOf n).head? ≠ some '0' := by
  induction n using Nat.strong_induction_on with
  | _ n ih =>
    rw [digitsOf, Nat.toDigits_eq_if (by omega)]
    split
    · rw [List.head?_cons, Ne, Option.some.injEq, Nat.digitChar_eq_zero]
      exact hn.ne'
    · rw [List.head?_append_of_ne_nil _ Nat.toDigits_ne_nil]
      exact ih (n / 10) (by omega) (by omega)

/-- A zero in front is the only digit. -/
theorem length_digitsOf_of_head? {n : ℕ} (h : (digitsOf n).head? = some '0') :
    (digitsOf n).length = 1 := by
  rcases Nat.eq_zero_or_pos n with rfl | hn
  · rw [digitsOf_zero, List.length_singleton]
  · exact absurd h (head?_digitsOf hn)

theorem naturalOf_eq (digits : List Char) : naturalOf digits = Nat.ofDigitChars 10 digits 0 := rfl

theorem naturalOf_digitsOf (n : ℕ) : naturalOf (digitsOf n) = n := Nat.ofDigitChars_ten_toDigits

theorem digitCount_le_iff {n k : ℕ} (hk : 0 < k) : digitCount n ≤ k ↔ n < 10 ^ k :=
  Nat.length_toDigits_le_iff (by omega) hk

theorem digitCount_pos (n : ℕ) : 0 < digitCount n := Nat.length_toDigits_pos

theorem lt_pow_digitCount (n : ℕ) : n < 10 ^ digitCount n :=
  (digitCount_le_iff (digitCount_pos n)).1 le_rfl

theorem pow_digitCount_le {n : ℕ} (hn : 0 < n) : 10 ^ (digitCount n - 1) ≤ n := by
  by_contra hlt
  have hpos := digitCount_pos n
  rcases Nat.eq_zero_or_pos (digitCount n - 1) with h0 | hpred
  · rw [h0] at hlt
    omega
  · have := (digitCount_le_iff hpred).2 (not_le.1 hlt)
    omega

theorem splitDigits_append {digits rest : List Char} (hdigits : ∀ c ∈ digits, c.isDigit)
    (hrest : ∀ c ∈ rest.head?, c.isDigit = false) :
    splitDigits (digits ++ rest) = (digits, rest) := by
  simp only [splitDigits]
  rw [List.takeWhile_append_of_pos hdigits, List.dropWhile_append_of_pos hdigits]
  cases rest with
  | nil => simp
  | cons c rest =>
    have hc : c.isDigit = false := hrest c (by simp)
    simp [hc]

theorem splitDigits_of_isDigit {digits : List Char} (h : ∀ c ∈ digits, c.isDigit) :
    splitDigits digits = (digits, []) := by
  simpa using @splitDigits_append digits [] h (by simp)

/-! ### Decimals of the same value -/

/-- A decimal is at least the power of ten of its leading digit. -/
theorem le_value {d : Decimal} (hd : 0 < d.digits) :
    (10 : ℚ) ^ ((digitCount d.digits : ℤ) - 1 + d.exponent) ≤ d.digits * 10 ^ d.exponent := by
  have hle : (10 : ℚ) ^ ((digitCount d.digits : ℤ) - 1) ≤ d.digits := by
    have hpos := digitCount_pos d.digits
    have hpow := pow_digitCount_le hd
    rw [show (digitCount d.digits : ℤ) - 1 = ((digitCount d.digits - 1 : ℕ) : ℤ) by omega,
      zpow_natCast]
    exact_mod_cast hpow
  rw [zpow_add₀ (by norm_num)]
  gcongr

theorem value_lt (d : Decimal) :
    (d.digits : ℚ) * 10 ^ d.exponent < 10 ^ ((digitCount d.digits : ℤ) + d.exponent) := by
  have hlt : (d.digits : ℚ) < 10 ^ (digitCount d.digits : ℤ) := by
    exact_mod_cast lt_pow_digitCount d.digits
  rw [zpow_add₀ (by norm_num)]
  gcongr

/-- The quotient that a decimal is read as. -/
theorem scaled_ten (n : ℕ) (e : ℤ) :
    ((scaled n 1 (-e)).1 : ℚ) / (scaled n 1 (-e)).2 = n * 10 ^ e := by
  simp only [scaled]
  by_cases he : 0 ≤ -e
  · obtain ⟨k, hk⟩ := Int.eq_ofNat_of_zero_le he
    obtain rfl : e = -(k : ℤ) := by omega
    rw [if_pos he, hk]
    simp [zpow_neg, div_eq_mul_inv]
  · obtain ⟨k, rfl⟩ := Int.eq_ofNat_of_zero_le (a := e) (by omega)
    rw [if_neg he, neg_neg]
    simp

theorem scaled_ten_pos (n : ℕ) (e : ℤ) : 0 < (scaled n 1 e).2 := by
  simp only [scaled]
  split <;> simp

/-- **Decimals of the same value are read as the same double.** -/
theorem toFloat_congr {d d' : Decimal}
    (h : (d.digits : ℚ) * 10 ^ d.exponent = d'.digits * 10 ^ d'.exponent) :
    d.toFloat = d'.toFloat := by
  have hten : (1 : ℚ) < 10 := by norm_num
  have hpow (e : ℤ) : (10 : ℚ) ^ e ≠ 0 := by positivity
  rcases Nat.eq_zero_or_pos d.digits with hd | hd
  · have hd' : d'.digits = 0 := by
      rw [hd, Nat.cast_zero, zero_mul, eq_comm, mul_eq_zero] at h
      exact_mod_cast h.resolve_right (hpow _)
    simp only [toFloat, hd, hd', decide_true, Bool.true_or, if_true]
  · have hd' : 0 < d'.digits := by
      rw [Nat.pos_iff_ne_zero]
      intro hzero
      rw [hzero, Nat.cast_zero, zero_mul, mul_eq_zero] at h
      exact hd.ne' (by exact_mod_cast h.resolve_right (hpow _))
    -- the leading digits stand at the same place
    have hlt := (zpow_lt_zpow_iff_right₀ hten).1 ((le_value hd).trans_lt (h ▸ value_lt d'))
    have hlt' := (zpow_lt_zpow_iff_right₀ hten).1 ((le_value hd').trans_lt (h ▸ value_lt d))
    have htop : (digitCount d.digits : ℤ) + d.exponent = digitCount d'.digits + d'.exponent := by
      omega
    have hratio : ofRatio (scaled d.digits 1 (-d.exponent)).1 (scaled d.digits 1 (-d.exponent)).2 =
        ofRatio (scaled d'.digits 1 (-d'.exponent)).1 (scaled d'.digits 1 (-d'.exponent)).2 := by
      refine ofRatio_congr (scaled_ten_pos _ _) (scaled_ten_pos _ _) ?_
      rw [scaled_ten, scaled_ten, h]
    simp only [toFloat, hd.ne', hd'.ne', decide_false, Bool.false_or, htop, hratio]

/-! ### Positional texts -/

/-- Digits around a point as they are written: some stand before the point, and no zero in front of
others. -/
structure IsPointed (whole part : List Char) : Prop where
  isDigit_whole : ∀ c ∈ whole, c.isDigit
  isDigit_part : ∀ c ∈ part, c.isDigit
  whole_ne_nil : whole ≠ []
  leading : whole.head? = some '0' → whole.length = 1

theorem isDigit_of_mem_replicate {n : ℕ} {c : Char} (h : c ∈ List.replicate n '0') :
    c.isDigit := by
  rw [List.eq_of_mem_replicate h]
  decide

/-- A decimal with places is written as its digits around a point, after as many zeros as are
missing to have one digit before the point. -/
theorem exists_pointed_of_neg {d : Decimal} (he : d.exponent < 0) (pointZero : Bool) :
    ∃ whole part, positional pointZero d = whole ++ '.' :: part ∧ IsPointed whole part ∧
      naturalOf (whole ++ part) = d.digits ∧ -(part.length : ℤ) = d.exponent := by
  obtain ⟨k, hk⟩ := Int.eq_ofNat_of_zero_le (a := -d.exponent) (by omega)
  simp only [positional, if_neg (not_le.2 he), hk, Int.toNat_natCast]
  set padded := List.replicate (k + 1 - (digitsOf d.digits).length) '0' ++ digitsOf d.digits
    with hpadded
  have hlength : padded.length =
      k + 1 - (digitsOf d.digits).length + (digitsOf d.digits).length := by
    rw [hpadded, List.length_append, List.length_replicate]
  have hdigits : ∀ c ∈ padded, c.isDigit := by
    intro c hc
    rcases List.mem_append.1 hc with hc | hc
    · exact isDigit_of_mem_replicate hc
    · exact isDigit_of_mem_digitsOf hc
  refine ⟨_, _, rfl, ⟨fun c hc => hdigits c (List.mem_of_mem_take hc),
    fun c hc => hdigits c (List.mem_of_mem_drop hc), ?_, ?_⟩, ?_, ?_⟩
  · refine List.ne_nil_of_length_pos ?_
    rw [List.length_take]
    omega
  · intro hzero
    by_cases hshort : (digitsOf d.digits).length < k + 1
    · rw [List.length_take]
      omega
    · -- nothing is missing, so the digits of the number itself come first
      have hpositive : 0 < d.digits := by
        rw [Nat.pos_iff_ne_zero]
        intro h
        rw [h, digitsOf_zero, List.length_singleton] at hshort
        omega
      have hself : padded = digitsOf d.digits := by
        rw [hpadded, Nat.sub_eq_zero_of_le (not_lt.1 hshort), List.replicate_zero, List.nil_append]
      rw [hself, List.head?_take, if_neg (by omega)] at hzero
      exact absurd hzero (head?_digitsOf hpositive)
  · rw [List.take_append_drop, hpadded, naturalOf_eq, Nat.ofDigitChars_append,
      Nat.ofDigitChars_replicate_zero, mul_zero]
    exact naturalOf_digitsOf d.digits
  · rw [List.length_drop]
    omega

/-- The decimal that a positional text is read as: zeros are written out, so nothing is left of a
positive exponent. -/
def writtenOut (d : Decimal) : Decimal :=
  if 0 ≤ d.exponent then ⟨d.digits * 10 ^ d.exponent.toNat, 0⟩ else d

/-- Digits are read as a whole number. -/
theorem unsigned?_of_isDigit {text : List Char} (hne : text ≠ []) (h : ∀ c ∈ text, c.isDigit) :
    unsigned? text = some ⟨naturalOf text, 0⟩ := by
  have hempty : text.isEmpty = false := List.isEmpty_eq_false_iff.2 hne
  simp only [unsigned?]
  rw [splitDigits_of_isDigit h]
  simp [hempty, exponentPart?]

/-- Digits around a point are read as all these digits, with as many places. -/
theorem unsigned?_point {whole part : List Char} (hne : whole ≠ [])
    (hwhole : ∀ c ∈ whole, c.isDigit) (hpart : ∀ c ∈ part, c.isDigit) :
    unsigned? (whole ++ '.' :: part) = some ⟨naturalOf (whole ++ part), -(part.length : ℤ)⟩ := by
  have hempty : whole.isEmpty = false := List.isEmpty_eq_false_iff.2 hne
  simp only [unsigned?]
  rw [splitDigits_append hwhole (by simp)]
  simp [splitDigits_of_isDigit hpart, hempty, exponentPart?]

/-- **A positional text is read back**, with its zeros written out. -/
theorem unsigned?_positional (d : Decimal) :
    unsigned? (positional false d) = some (writtenOut d) := by
  rw [writtenOut]
  by_cases he : 0 ≤ d.exponent
  · simp only [positional, he, if_true, Bool.false_eq_true, if_false, List.append_nil]
    rw [unsigned?_of_isDigit]
    · rw [naturalOf_eq, Nat.ofDigitChars_append, Nat.ofDigitChars_replicate_zero,
        ← naturalOf_eq, naturalOf_digitsOf, mul_comm]
    · exact List.append_ne_nil_of_left_ne_nil (digitsOf_ne_nil d.digits) _
    · intro c hc
      rcases List.mem_append.1 hc with hc | hc
      · exact isDigit_of_mem_digitsOf hc
      · exact isDigit_of_mem_replicate hc
  · obtain ⟨whole, part, htext, hpointed, hvalue, hplaces⟩ :=
      exists_pointed_of_neg (not_le.1 he) false
    rw [htext, if_neg he, unsigned?_point hpointed.whole_ne_nil hpointed.isDigit_whole
      hpointed.isDigit_part, hvalue, hplaces]

/-- Writing the zeros out does not show the double. -/
theorem toFloat_writtenOut (d : Decimal) : (writtenOut d).toFloat = d.toFloat := by
  refine toFloat_congr ?_
  simp only [writtenOut]
  by_cases he : 0 ≤ d.exponent
  · obtain ⟨k, hk⟩ := Int.eq_ofNat_of_zero_le he
    rw [if_pos he, hk]
    simp
  · rw [if_neg he]

/-! ### Decimals of doubles -/

private theorem two_pow_lt : 2 ^ 1024 < 10 ^ 310 := by decide +kernel

private theorem two_pow_lt' : 2 ^ 1074 < 10 ^ 330 := by decide +kernel

section Bounds

variable {d : Decimal} {m : ℕ} {q : ℤ} (h : IsCanonical m q) (hd : 0 < d.digits)
  (hv : (d.digits : ℚ) * 10 ^ d.exponent = m * 2 ^ q)
include h hd hv

/-- A double has so few digits before the point that it does not overflow. -/
theorem digits_le_of_value : (digitCount d.digits : ℤ) + d.exponent ≤ 310 := by
  have hlt : (m : ℚ) ≤ 2 ^ (53 : ℤ) := by exact_mod_cast h.lt.le
  have hpow : (2 : ℚ) ^ q ≤ 2 ^ (971 : ℤ) := zpow_le_zpow_right₀ (by norm_num) h.le
  have hchain : (10 : ℚ) ^ ((digitCount d.digits : ℤ) - 1 + d.exponent) < 10 ^ (310 : ℤ) := by
    calc (10 : ℚ) ^ ((digitCount d.digits : ℤ) - 1 + d.exponent)
        ≤ d.digits * 10 ^ d.exponent := le_value hd
      _ = m * 2 ^ q := hv
      _ ≤ 2 ^ (53 : ℤ) * 2 ^ (971 : ℤ) := by gcongr
      _ = 2 ^ (1024 : ℤ) := by rw [← zpow_add₀ (by norm_num)]; rfl
      _ < 10 ^ (310 : ℤ) := by exact_mod_cast two_pow_lt
  have := (zpow_lt_zpow_iff_right₀ (by norm_num : (1 : ℚ) < 10)).1 hchain
  omega

/-- A double has so few zeros after the point that it does not vanish. -/
theorem le_digits_of_value : -330 ≤ (digitCount d.digits : ℤ) + d.exponent := by
  have hm : 1 ≤ m := by
    rcases Nat.eq_zero_or_pos m with rfl | hm
    · have hdigits : (0 : ℚ) < d.digits * 10 ^ d.exponent := by positivity
      rw [hv, Nat.cast_zero, zero_mul] at hdigits
      exact absurd hdigits (lt_irrefl 0)
    · exact hm
  have hm1 : (1 : ℚ) ≤ m := by exact_mod_cast hm
  have hchain : (10 : ℚ) ^ (-330 : ℤ) < 10 ^ ((digitCount d.digits : ℤ) + d.exponent) := by
    calc (10 : ℚ) ^ (-330 : ℤ) < 2 ^ (-1074 : ℤ) := by
          rw [zpow_neg, zpow_neg, inv_lt_inv₀ (by positivity) (by positivity)]
          exact_mod_cast two_pow_lt'
      _ ≤ 2 ^ q := zpow_le_zpow_right₀ (by norm_num) h.ge
      _ ≤ m * 2 ^ q := le_mul_of_one_le_left (by positivity) hm1
      _ = d.digits * 10 ^ d.exponent := hv.symm
      _ < 10 ^ ((digitCount d.digits : ℤ) + d.exponent) := value_lt d
  have := (zpow_lt_zpow_iff_right₀ (by norm_num : (1 : ℚ) < 10)).1 hchain
  omega

end Bounds

/-- **A decimal whose value is a double is read as it.** -/
theorem toFloat_of_value {d : Decimal} {m : ℕ} {q : ℤ} (h : IsCanonical m q) (hd : 0 < d.digits)
    (hv : (d.digits : ℚ) * 10 ^ d.exponent = m * 2 ^ q) : d.toFloat = ofParts .positive m q := by
  have htop := digits_le_of_value h hd hv
  have hbottom := le_digits_of_value h hd hv
  have hden := scaled_ten_pos d.digits (-d.exponent)
  rw [toFloat_of_inRange hd.ne' (by omega) (by omega)]
  exact ofRatio_eq h hden ((scaled_ten d.digits d.exponent).trans hv)

/-- The exact decimal of a double is read back as its magnitude. -/
theorem toFloat_ofFloat {x : Float} (h : x.isFinite) (hx : significand x ≠ 0) :
    (ofFloat x).toFloat = x.abs := by
  rw [abs_eq_ofParts h]
  refine toFloat_of_value (isCanonical_parts h) ?_ ?_
  · rcases Int.lt_or_le (Binary64.exponent x) 0 with hq | hq
    · rw [ofFloat_of_neg hq]
      exact Nat.mul_pos (Nat.pos_of_ne_zero hx) (Nat.pow_pos (by omega))
    · rw [ofFloat_of_nonneg hq]
      exact Nat.mul_pos (Nat.pos_of_ne_zero hx) (Nat.pow_pos (by omega))
  · rcases Int.lt_or_le (Binary64.exponent x) 0 with hq | hq
    · obtain ⟨k, hk⟩ := Int.eq_ofNat_of_zero_le (a := -Binary64.exponent x) (by omega)
      have hexp : Binary64.exponent x = -(k : ℤ) := by omega
      rw [ofFloat_of_neg hq]
      simp only [hexp, Int.neg_neg, Int.toNat_natCast]
      have h10 : (10 : ℚ) ^ k = 5 ^ k * 2 ^ k := by rw [← mul_pow]; norm_num
      simp only [zpow_neg, zpow_natCast, h10, Nat.pow_eq]
      push_cast
      field_simp
    · obtain ⟨k, hk⟩ := Int.eq_ofNat_of_zero_le hq
      simp [ofFloat_of_nonneg hq, hk]

theorem toFloat_shortest {tie : Tie} {x : Float} (h : x.isFinite) (hx : significand x ≠ 0) :
    (shortest tie x).toFloat = x.abs := by
  rcases shortest_cases tie x with ⟨n, _, hgrid, _⟩ | ⟨_, hexact⟩
  · have := readsBack_of_onGrid? hgrid
    simp only [readsBack] at this
    exact eq_of_toBits_eq (by simpa using this)
  · rw [hexact, toFloat_ofFloat h hx]

/-- Zero is written as zero. -/
theorem toFloat_written {tie : Tie} {x : Float} (h : x.isFinite) :
    (if significand x = 0 then ⟨0, 0⟩ else shortest tie x : Decimal).toFloat = x.abs := by
  split
  · next hx =>
    have hc := isCanonical_parts h
    have hq : Binary64.exponent x = -1074 := hc.leading.resolve_left (by rw [hx]; decide)
    rw [abs_eq_ofParts h, hx, hq]
    exact ofRatio_eq .zero one_pos (by simp)
  · next hx => exact toFloat_shortest h hx

/-- A double that is not zero is written with digits that are not zero. -/
theorem digits_shortest_ne_zero {tie : Tie} {x : Float} (h : x.isFinite) (hx : significand x ≠ 0) :
    (shortest tie x).digits ≠ 0 := by
  intro hzero
  have habs : (shortest tie x).toFloat = x.abs := toFloat_shortest h hx
  have hvanishes : (shortest tie x).toFloat = ofParts .positive 0 (-1074) := by
    simp only [toFloat, hzero, decide_true, Bool.true_or, if_true]
    exact ofRatio_eq .zero one_pos (by simp)
  rw [habs, abs_eq_ofParts h] at hvanishes
  have hsignificand := congrArg significand hvanishes
  rw [significand_ofParts .positive (isCanonical_parts h), significand_ofParts .positive .zero]
    at hsignificand
  exact hx hsignificand

/-! ### The plain spelling -/

/-- A digit, a point or a minus: the characters of the plain spelling. -/
def IsPlainChar (c : Char) : Prop := c.isDigit ∨ c = '.' ∨ c = '-'

/-- A positional text starts with a digit and has nothing but digits and points in it. -/
theorem positional_shape (d : Decimal) :
    (∃ c rest, positional false d = c :: rest ∧ c.isDigit) ∧
      ∀ c ∈ positional false d, c.isDigit ∨ c = '.' := by
  by_cases he : 0 ≤ d.exponent
  · simp only [positional, he, if_true, Bool.false_eq_true, if_false, List.append_nil]
    obtain ⟨c, rest, hcons⟩ := List.exists_cons_of_ne_nil (digitsOf_ne_nil d.digits)
    refine ⟨⟨c, _, by rw [hcons, List.cons_append], ?_⟩, fun c hc => .inl ?_⟩
    · exact isDigit_of_mem_digitsOf (hcons ▸ List.mem_cons_self)
    · rcases List.mem_append.1 hc with hc | hc
      · exact isDigit_of_mem_digitsOf hc
      · exact isDigit_of_mem_replicate hc
  · obtain ⟨whole, part, htext, hpointed, -, -⟩ := exists_pointed_of_neg (not_le.1 he) false
    obtain ⟨c, rest, hcons⟩ := List.exists_cons_of_ne_nil hpointed.whole_ne_nil
    rw [htext]
    refine ⟨⟨c, _, by rw [hcons, List.cons_append], ?_⟩, fun c hc => ?_⟩
    · exact hpointed.isDigit_whole c (hcons ▸ List.mem_cons_self)
    · rcases List.mem_append.1 hc with hc | hc
      · exact .inl (hpointed.isDigit_whole c hc)
      · rcases List.mem_cons.1 hc with rfl | hc
        · exact .inr rfl
        · exact .inl (hpointed.isDigit_part c hc)

/-- The decimal that a finite double is written as. -/
def magnitudeOf (x : Float) : Decimal := if significand x = 0 then ⟨0, 0⟩ else shortest .up x

theorem toFloat_magnitudeOf {x : Float} (h : x.isFinite) : (magnitudeOf x).toFloat = x.abs :=
  toFloat_written h

theorem plain_write (x : Float) : plain.write x =
    (if isNegative x then ['-'] else []) ++ positional false (magnitudeOf x) := by
  simp [Spelling.write, Spelling.writeDecimal, plain, magnitudeOf]

end OptModel.Decimal

namespace OptModel

open Binary64 Decimal

theorem isNaN_of_isFinite {x : Float} (h : x.isFinite) : x.isNaN = false := by
  show x.toModel.unpack.isNaN = false
  rw [unpack_of_isFinite h]
  rw [assemble]
  by_cases hm : significand x = 0
  · rw [dif_pos hm]
    rfl
  · rw [dif_neg hm]
    rfl

theorem isInf_of_isFinite {x : Float} (h : x.isFinite) : x.isInf = false := by
  show x.toModel.unpack.isInf = false
  rw [unpack_of_isFinite h]
  rw [assemble]
  by_cases hm : significand x = 0
  · rw [dif_pos hm]
    rfl
  · rw [dif_neg hm]
    rfl

theorem toLower_of_isDigit {c : Char} (h : c.isDigit) : c.toLower = c := by
  have hle : c.val.toNat ≤ 57 := by
    simp only [Char.isDigit] at h
    rw [Bool.and_eq_true, decide_eq_true_iff, decide_eq_true_iff] at h
    exact UInt32.le_iff_toNat_le.1 h.2
  have hupper : ¬(c.val ≥ 'A'.val ∧ c.val ≤ 'Z'.val) := by
    rintro ⟨hge, -⟩
    have hge : 65 ≤ c.val.toNat := UInt32.le_iff_toNat_le.1 hge
    omega
  exact dif_neg hupper

theorem toList_plainText {x : Float} (h : x.isFinite) : (plainText x).toList = plain.write x := by
  simp only [plainText]
  rw [isNaN_of_isFinite h, isInf_of_isFinite h]
  simp

/-- **What is written reads back.** The plain spelling of a finite double is a literal of it. -/
theorem readLiteral?_plainText {x : Float} (h : x.isFinite) :
    readLiteral? (plainText x).toList = some x := by
  obtain ⟨⟨c, rest, hcons, hc⟩, _⟩ := positional_shape (magnitudeOf x)
  have hsplit : splitSign (plain.write x) = (isNegative x, positional false (magnitudeOf x)) := by
    rw [plain_write]
    by_cases hneg : isNegative x
    · simp [hneg, splitSign]
    · have hminus : c ≠ '-' := by rintro rfl; exact absurd hc (by decide)
      have hplus : c ≠ '+' := by rintro rfl; exact absurd hc (by decide)
      rw [hcons]
      simp [hneg, splitSign, hminus, hplus]
  -- a text that starts with a digit is none of the three words
  have hword (word : String) {first : Char} {more : List Char} (hw : word.toList = first :: more)
      (hfirst : first.isDigit = false) :
      ¬ (positional false (magnitudeOf x)).map Char.toLower = word.toList := by
    rw [hcons, hw, List.map_cons, List.cons.injEq, not_and]
    intro heq
    rw [toLower_of_isDigit hc] at heq
    rw [heq] at hc
    exact absurd hc (by simp [hfirst])
  rw [toList_plainText h]
  simp only [readLiteral?]
  rw [hsplit]
  simp only [hword "inf" rfl rfl, hword "infinity" rfl rfl, hword "nan" rfl rfl,
    decide_false, if_false, unsigned?_positional, Option.map_some,
    toFloat_writtenOut, toFloat_magnitudeOf h]
  simp [signed_abs h]

/-- The characters of the plain spelling. -/
theorem isPlainChar_of_mem_plainText {x : Float} (h : x.isFinite) {c : Char}
    (hc : c ∈ (plainText x).toList) : IsPlainChar c := by
  rw [toList_plainText h, plain_write] at hc
  rcases List.mem_append.1 hc with hc | hc
  · split at hc
    · exact .inr (.inr (List.mem_singleton.1 hc))
    · exact absurd hc List.not_mem_nil
  · rcases (positional_shape _).2 c hc with hdigit | hpoint
    · exact .inl hdigit
    · exact .inr (.inl hpoint)

end OptModel
