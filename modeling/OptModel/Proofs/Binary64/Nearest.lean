import OptModel.Proofs.Binary64.Bits

/-!
# Rounding that changes nothing

`ofRatio` and the subtraction of doubles round an exact result to the nearest double. When the exact
result already is a double there is nothing to round, and both give it back. That is all that is
claimed here: what happens to a result that lies between two doubles is never needed.

## Main results

* `Binary64.ofRatio_eq` — a quotient that is a double is rounded to it
* `Binary64.toRat?_ofNat` — naturals below `2 ^ 53` are not rounded
* `Binary64.toRat?_sub` — a difference that is a double is not rounded
* `Binary64.add_zero_ne` — adding zero takes the sign off a zero
-/

namespace OptModel.Binary64

open Float.Model Float.Model.UnpackedFloat

/-! ### Where the last place is -/

/-- The exponent of the last place, from a power of two around the number. -/
theorem IsCanonical.exponent_eq {m : ℕ} {q e : ℤ} (h : IsCanonical m q)
    (hle : (2 : ℚ) ^ (e + 52) ≤ m * 2 ^ q) (hlt : (m : ℚ) * 2 ^ q < 2 ^ (e + 53)) :
    max e (-1074) = q := by
  have hone : (1 : ℚ) < 2 := by norm_num
  have hpos : (0 : ℚ) < 2 ^ q := by positivity
  have hupper : (m : ℚ) * 2 ^ q < 2 ^ (q + 53) := by
    have : (m : ℚ) < 2 ^ (53 : ℤ) := by
      have := h.lt
      simp only [leadingBit] at this
      norm_num
      exact_mod_cast this
    rw [zpow_add₀ (by norm_num), mul_comm]
    exact mul_lt_mul_of_pos_left this hpos
  have he : e + 52 < q + 53 := (zpow_lt_zpow_iff_right₀ hone).1 (hle.trans_lt hupper)
  rcases h.leading with hlead | hsub
  · have hlower : (2 : ℚ) ^ (q + 52) ≤ m * 2 ^ q := by
      have : (2 : ℚ) ^ (52 : ℤ) ≤ m := by
        simp only [leadingBit] at hlead
        norm_num
        exact_mod_cast hlead
      rw [zpow_add₀ (by norm_num), mul_comm]
      gcongr
    have hq : q + 52 < e + 53 := (zpow_lt_zpow_iff_right₀ hone).1 (hlower.trans_lt hlt)
    have := h.ge
    omega
  · omega

/-! ### Rounding a quotient that needs none -/

theorem pow_log2_le {n : ℕ} (hn : n ≠ 0) : (2 : ℚ) ^ (n.log2 : ℤ) ≤ n := by
  exact_mod_cast Nat.log2_self_le hn

theorem lt_pow_log2 (n : ℕ) : (n : ℚ) < 2 ^ (n.log2 + 1 : ℤ) := by
  exact_mod_cast Nat.lt_log2_self

theorem scaled_snd_pos {num den : ℕ} (hden : 0 < den) (e : ℤ) : 0 < (scaled num den e).2 := by
  simp only [scaled]
  split <;> simp [hden]

/-- Scaling divides by a power of two. -/
theorem scaled_quotient (num den : ℕ) (e : ℤ) :
    ((scaled num den e).1 : ℚ) / (scaled num den e).2 = num / den / 2 ^ e := by
  simp only [scaled]
  by_cases he : 0 ≤ e
  · obtain ⟨k, rfl⟩ := Int.eq_ofNat_of_zero_le he
    simp [div_div]
  · obtain ⟨k, hk⟩ := Int.eq_ofNat_of_zero_le (a := -e) (by omega)
    obtain rfl : e = -(k : ℤ) := by omega
    rw [if_neg he]
    simp [zpow_neg, div_eq_mul_inv]
    ring

/-- The lengths of numerator and denominator tell a quotient up to a factor of four. -/
theorem quotient_bounds {num den : ℕ} (hnum : num ≠ 0) (hden : 0 < den) :
    (2 : ℚ) ^ ((num.log2 : ℤ) - den.log2 - 1) < num / den ∧
      (num : ℚ) / den < 2 ^ ((num.log2 : ℤ) - den.log2 + 1) := by
  have hden' : (0 : ℚ) < den := by exact_mod_cast hden
  constructor
  · rw [lt_div_iff₀ hden']
    calc (2 : ℚ) ^ ((num.log2 : ℤ) - den.log2 - 1) * den
        < 2 ^ ((num.log2 : ℤ) - den.log2 - 1) * 2 ^ (den.log2 + 1 : ℤ) :=
          mul_lt_mul_of_pos_left (lt_pow_log2 den) (by positivity)
      _ = 2 ^ (num.log2 : ℤ) := by
          rw [← zpow_add₀ (by norm_num)]
          congr 1
          omega
      _ ≤ num := pow_log2_le hnum
  · rw [div_lt_iff₀ hden']
    calc (num : ℚ) < 2 ^ (num.log2 + 1 : ℤ) := lt_pow_log2 num
      _ = 2 ^ ((num.log2 : ℤ) - den.log2 + 1) * 2 ^ (den.log2 : ℤ) := by
          rw [← zpow_add₀ (by norm_num)]
          congr 1
          omega
      _ ≤ 2 ^ ((num.log2 : ℤ) - den.log2 + 1) * den := by
          have := pow_log2_le hden.ne'
          gcongr

/-- The test by which the exponent of the last place is found. -/
theorem scaled_lt_iff {num den : ℕ} (hden : 0 < den) (g : ℤ) :
    (scaled num den g).1 < leadingBit * (scaled num den g).2 ↔
      (num : ℚ) / den < 2 ^ (g + 52) := by
  have hd : (0 : ℚ) < (scaled num den g).2 := by exact_mod_cast scaled_snd_pos hden g
  rw [zpow_add₀ (by norm_num), ← div_lt_iff₀' (by positivity), ← scaled_quotient,
    div_lt_iff₀ hd]
  simp only [leadingBit]
  norm_num
  norm_cast

/-- The exponent of the last place leaves a quotient of fifty-three bits, unless it is the least. -/
theorem lastPlace_eq {num den m : ℕ} {q : ℤ} (h : IsCanonical m q) (hm : 0 < m) (hden : 0 < den)
    (hr : (num : ℚ) / den = m * 2 ^ q) : lastPlace num den = q := by
  have hr0 : (0 : ℚ) < num / den := by
    rw [hr]
    have : (0 : ℚ) < m := by exact_mod_cast hm
    positivity
  have hnum : num ≠ 0 := by
    rintro rfl
    simp at hr0
  obtain ⟨hlower, hupper⟩ := quotient_bounds hnum hden
  rw [hr] at hlower hupper
  set g : ℤ := (num.log2 : ℤ) - den.log2 - 52 with hg
  have htest := @scaled_lt_iff num den hden g
  rw [hr] at htest
  simp only [lastPlace]
  simp only [← hg]
  split <;> rename_i hlt
  · rw [htest] at hlt
    refine h.exponent_eq ?_ ?_
    · rw [show g - 1 + 52 = (num.log2 : ℤ) - den.log2 - 1 by omega]
      exact hlower.le
    · rw [show g - 1 + 53 = g + 52 by ring]
      exact hlt
  · rw [htest, not_lt] at hlt
    refine h.exponent_eq hlt ?_
    rw [show g + 53 = (num.log2 : ℤ) - den.log2 + 1 by omega]
    exact hupper

theorem roundEven_mul (m : ℕ) {d : ℕ} (hd : 0 < d) : roundEven (m * d) d = m := by
  simp [roundEven, hd]

/-- **A quotient that is a double is rounded to it.** -/
theorem ofRatio_eq {num den m : ℕ} {q : ℤ} (h : IsCanonical m q) (hden : 0 < den)
    (hr : (num : ℚ) / den = m * 2 ^ q) : ofRatio num den = ofParts .positive m q := by
  refine ofBits_eq_ofParts h ?_
  have hlt := h.lt
  have hle := h.le
  have hge := h.ge
  have hbound : nearestBits num den = bitsOf .positive m q := by
    have hden' : (den : ℚ) ≠ 0 := by exact_mod_cast hden.ne'
    by_cases hm : m = 0
    · subst hm
      have hnum : num = 0 := by
        have : (num : ℚ) / den = 0 := by simpa using hr
        exact_mod_cast (div_eq_zero_iff.1 this).resolve_right hden'
      have hq : q = -1074 := h.leading.resolve_left (by decide)
      simp [nearestBits, hnum, hq, bitsOf, signWeight]
    · have hnum : num ≠ 0 := by
        rintro rfl
        have : (m : ℚ) * 2 ^ q = 0 := by simpa using hr.symm
        have h2 : (2 : ℚ) ^ q ≠ 0 := by positivity
        exact hm (by exact_mod_cast (mul_eq_zero.1 this).resolve_right h2)
      have hplace := lastPlace_eq h (Nat.pos_of_ne_zero hm) hden hr
      have hd := @scaled_snd_pos num den hden q
      have hquotient : (scaled num den q).1 = m * (scaled num den q).2 := by
        have hd' : ((scaled num den q).2 : ℚ) ≠ 0 := by exact_mod_cast hd.ne'
        have h2 : (2 : ℚ) ^ q ≠ 0 := by positivity
        have := scaled_quotient num den q
        rw [hr, mul_div_assoc, div_self h2, mul_one, div_eq_iff hd'] at this
        exact_mod_cast this
      simp only [nearestBits]
      rw [if_neg hnum, hplace]
      simp only [hquotient, roundEven_mul m hd, bitsOf, signWeight]
      simp only [infinityBits, leadingBit] at *
      omega
  rw [hbound, Nat.toUInt64, UInt64.toNat_ofNat']
  refine Nat.mod_eq_of_lt ?_
  simp only [bitsOf, signWeight]
  simp only [leadingBit] at *
  omega

/-- Every natural below `2 ^ 53` is the magnitude of a double. -/
theorem exists_canonical_natCast {n : ℕ} (hn : n < 2 * leadingBit) :
    ∃ m q, IsCanonical m q ∧ (n : ℚ) = m * 2 ^ q := by
  rcases Nat.eq_zero_or_pos n with rfl | hpos
  · exact ⟨0, -1074, .zero, by simp⟩
  · have hlog : n.log2 ≤ 52 := by
      have : n.log2 < 53 := (Nat.log2_lt hpos.ne').2 hn
      omega
    have hle : 2 ^ n.log2 ≤ n := Nat.log2_self_le hpos.ne'
    have hlt : n < 2 ^ (n.log2 + 1) := Nat.lt_log2_self
    obtain ⟨k, hk⟩ := Nat.exists_eq_add_of_le hlog
    have hsplit : leadingBit = 2 ^ n.log2 * 2 ^ k := by
      rw [← pow_add, ← hk]
      rfl
    refine ⟨n * 2 ^ k, -(k : ℤ), ⟨?_, by omega, by omega, .inl ?_⟩, ?_⟩
    · rw [hsplit, ← mul_assoc, ← pow_succ']
      exact Nat.mul_lt_mul_of_pos_right hlt (by positivity)
    · rw [hsplit]
      exact Nat.mul_le_mul_right _ hle
    · push_cast
      rw [zpow_neg, zpow_natCast, mul_assoc, mul_inv_cancel₀ (by positivity), mul_one]

/-- **Naturals below `2 ^ 53` are not rounded.** -/
theorem toRat?_ofNat {n : ℕ} (hn : n < 2 * leadingBit) : toRat? (ofNat n) = some (n : ℚ) := by
  obtain ⟨m, q, h, hv⟩ := exists_canonical_natCast hn
  rw [ofNat, ofRatio_eq h one_pos (by simpa using hv), toRat?_ofParts .positive h,
    valueOf_positive, hv]

/-! ### Subtracting without rounding -/

theorem targetExponent_eq {k m : ℕ} {e q : ℤ} (h : IsCanonical m q) (hk : 0 < k)
    (hv : (k : ℚ) * 2 ^ e = m * 2 ^ q) :
    Format.binary64.targetExponent (totalExponent k e) = q := by
  have hlower : (2 : ℚ) ^ ((k.log2 + e - 52 : ℤ) + 52) ≤ m * 2 ^ q := by
    rw [← hv, show (k.log2 + e - 52 : ℤ) + 52 = k.log2 + e by ring, zpow_add₀ (by norm_num)]
    have := pow_log2_le hk.ne'
    gcongr
  have hupper : (m : ℚ) * 2 ^ q < 2 ^ ((k.log2 + e - 52 : ℤ) + 53) := by
    rw [← hv, show (k.log2 + e - 52 : ℤ) + 53 = (k.log2 + 1) + e by ring,
      zpow_add₀ (by norm_num)]
    exact mul_lt_mul_of_pos_right (lt_pow_log2 k) (by positivity)
  have hmax := h.exponent_eq hlower hupper
  show max ((k.log2 : ℤ) + 1 + e - (53 : ℕ)) (-1074) = q
  rw [← hmax]
  congr 1
  push_cast
  ring

/-- Shifting out zeros loses nothing. -/
theorem shift_exact (m k : ℕ) :
    (⟨m * 2 ^ k, false, false⟩ : ExtendedMantissa) >>> k = ⟨m, false, false⟩ := by
  show k.repeat ExtendedMantissa.shiftRightOne _ = _
  induction k generalizing m with
  | zero => simp [Nat.repeat]
  | succ k ih =>
    rw [Nat.repeat, show m * 2 ^ (k + 1) = m * 2 * 2 ^ k by ring, ih]
    simp [ExtendedMantissa.shiftRightOne]

theorem shiftToTargetExponent_eq {k m : ℕ} {e q : ℤ} (h : IsCanonical m q) (hk : 0 < k)
    (hv : (k : ℚ) * 2 ^ e = m * 2 ^ q) (he : e ≤ q) :
    shiftToTargetExponent Format.binary64 k e .exact = (⟨m, false, false⟩, q) := by
  obtain ⟨d, hd⟩ := Int.eq_ofNat_of_zero_le (a := q - e) (by omega)
  have hq : q = e + d := by omega
  have hshift : (q - e).toNat = d := by omega
  have hkm : k = m * 2 ^ d := by
    have h2 : (2 : ℚ) ^ e ≠ 0 := by positivity
    rw [hq, zpow_add₀ (by norm_num), zpow_natCast, mul_comm ((2 : ℚ) ^ e), ← mul_assoc] at hv
    exact_mod_cast mul_right_cancel₀ h2 hv
  simp only [shiftToTargetExponent, shiftToExponent]
  rw [targetExponent_eq h hk hv]
  simp only [hshift, ExtendedMantissa.ofMantissaAndAccuracy, hkm, shift_exact]
  rw [hq]

/-- Rounding shifts a mantissa to its exponent, rounds it, and shifts what has overflowed again. -/
theorem roundWithAccuracy_of_shifts {s : Sign} {m : ℕ} {e q q' : ℤ} {accuracy : Accuracy}
    {shifted again : ExtendedMantissa}
    (h : shiftToTargetExponent Format.binary64 m e accuracy = (shifted, q))
    (hagain : shiftToTargetExponent Format.binary64 shifted.roundedMantissa q .exact =
      (again, q')) :
    roundWithAccuracy Format.binary64 s m e accuracy = assemble s again.mantissa q' := by
  rw [roundWithAccuracy, h]
  show (match shiftToTargetExponent Format.binary64 shifted.roundedMantissa q .exact with
    | (again, q') => assemble s again.mantissa q') = _
  rw [hagain]

/-- **Rounding a number that is a double changes nothing.** -/
theorem round_eq {s : Sign} {k m : ℕ} {e q : ℤ} (h : IsCanonical m q) (hk : 0 < k)
    (hv : (k : ℚ) * 2 ^ e = m * 2 ^ q) : round Format.binary64 s k e = assemble s m q := by
  have hm : 0 < m := by
    rcases Nat.eq_zero_or_pos m with rfl | hm
    · have h2 : (2 : ℚ) ^ e ≠ 0 := by positivity
      have : (k : ℚ) = 0 := by
        rw [Nat.cast_zero, zero_mul] at hv
        exact (mul_eq_zero.1 hv).resolve_right h2
      exact absurd this (by exact_mod_cast hk.ne')
    · exact hm
  have hself := shiftToTargetExponent_eq h hm rfl le_rfl
  simp only [UnpackedFloat.round]
  rw [targetExponent_eq h hk hv]
  have hdecrease : ∃ k' e', decreaseExponent k e q = (k', e') ∧ 0 < k' ∧ e' ≤ q ∧
      (k' : ℚ) * 2 ^ e' = m * 2 ^ q := by
    refine ⟨_, _, rfl, ?_, ?_, ?_⟩
    · rw [Nat.shiftLeft_eq]
      positivity
    · omega
    · rw [Nat.shiftLeft_eq, ← hv]
      push_cast
      rw [mul_assoc, ← zpow_natCast, ← zpow_add₀ (by norm_num)]
      congr 2
      omega
  obtain ⟨k', e', hde, hk', he', hv'⟩ := hdecrease
  have hrounded : (⟨m, false, false⟩ : ExtendedMantissa).roundedMantissa = m := rfl
  rw [hde]
  exact roundWithAccuracy_of_shifts (shiftToTargetExponent_eq h hk' hv' he')
    (by rw [hrounded, hself])

/-- Moving a mantissa to a smaller exponent keeps the number. -/
theorem decreaseExponent_value (m : ℕ) {q e : ℤ} (he : e ≤ q) :
    ((decreaseExponent m q e).1 : ℚ) * 2 ^ e = m * 2 ^ q := by
  obtain ⟨d, hd⟩ := Int.eq_ofNat_of_zero_le (a := q - e) (by omega)
  obtain rfl : q = e + d := by omega
  simp only [decreaseExponent, hd, Int.toNat_natCast, Nat.shiftLeft_eq]
  push_cast
  rw [zpow_add₀ (by norm_num), zpow_natCast]
  ring

/-- Normalising an integer times a power of two that is a double gives that double. -/
theorem normalize_eq {k : ℤ} {e : ℤ} {s : Sign} {m : ℕ} {q : ℤ} (h : IsCanonical m q)
    (hv : (k : ℚ) * 2 ^ e = valueOf s m q) :
    ∃ s' m' q', IsCanonical m' q' ∧ valueOf s' m' q' = valueOf s m q ∧
      UnpackedFloat.normalize Format.binary64 k e .positive = assemble s' m' q' := by
  have h2 : (0 : ℚ) < 2 ^ e := by positivity
  have h2q : (0 : ℚ) < 2 ^ q := by positivity
  rcases lt_trichotomy k 0 with hk | rfl | hk
  · have hneg : (k : ℚ) * 2 ^ e < 0 := mul_neg_of_neg_of_pos (by exact_mod_cast hk) h2
    cases s with
    | positive =>
      rw [hv, valueOf_positive] at hneg
      exact absurd hneg (not_lt.2 (by positivity))
    | negative =>
      refine ⟨.negative, m, q, h, rfl, ?_⟩
      rw [UnpackedFloat.normalize, compare_lt_iff_lt.2 hk]
      refine round_eq h (by omega) ?_
      rw [valueOf_negative] at hv
      have hcast : (((-k).toNat : ℕ) : ℚ) = -k := by
        have : (((-k).toNat : ℕ) : ℤ) = -k := Int.toNat_of_nonneg (by omega)
        exact_mod_cast this
      rw [hcast, neg_mul, hv, neg_neg]
  · refine ⟨.positive, 0, -1074, .zero, ?_, ?_⟩
    · rw [valueOf_zero, ← hv]
      simp
    · rfl
  · have hpos : (0 : ℚ) < k * 2 ^ e := mul_pos (by exact_mod_cast hk) h2
    cases s with
    | negative =>
      rw [hv, valueOf_negative] at hpos
      exact absurd hpos (not_lt.2 (by simp only [neg_nonpos]; positivity))
    | positive =>
      refine ⟨.positive, m, q, h, rfl, ?_⟩
      rw [UnpackedFloat.normalize, compare_gt_iff_gt.2 hk]
      refine round_eq h (by omega) ?_
      rw [valueOf_positive] at hv
      have hcast : ((k.toNat : ℕ) : ℚ) = k := by
        have : ((k.toNat : ℕ) : ℤ) = k := Int.toNat_of_nonneg (by omega)
        exact_mod_cast this
      rw [hcast, hv]

/-- A mantissa moved to a smaller exponent, with its sign. -/
theorem apply_decreaseExponent (s : Sign) (m : ℕ) {q e : ℤ} (he : e ≤ q) :
    ((s.apply (decreaseExponent m q e).1 : ℤ) : ℚ) * 2 ^ e = valueOf s m q := by
  have hvalue := decreaseExponent_value m he
  cases s with
  | negative =>
    rw [valueOf_negative, ← hvalue]
    simp [Sign.apply]
  | positive =>
    rw [valueOf_positive, ← hvalue]
    simp [Sign.apply]

theorem valueOf_neg (s : Sign) (m : ℕ) (q : ℤ) : valueOf (-s) m q = -valueOf s m q := by
  cases s with
  | negative =>
    show valueOf .positive m q = _
    rw [valueOf_positive, valueOf_negative, neg_neg]
  | positive =>
    show valueOf .negative m q = _
    rw [valueOf_positive, valueOf_negative]

/-- A difference is put together without rounding when it is a double. -/
theorem exists_sub_assemble {sx sy s : Sign} {mx my m : ℕ} {qx qy q : ℤ}
    (hcx : IsCanonical mx qx) (hcy : IsCanonical my qy) (h : IsCanonical m q)
    (hv : valueOf sx mx qx - valueOf sy my qy = valueOf s m q) :
    ∃ s' m' q', IsCanonical m' q' ∧ valueOf s' m' q' = valueOf sx mx qx - valueOf sy my qy ∧
      UnpackedFloat.sub Format.binary64 (assemble sx mx qx) (assemble sy my qy) =
        assemble s' m' q' := by
  by_cases hmx : mx = 0 <;> by_cases hmy : my = 0
  · subst hmx hmy
    refine ⟨if sx == -sy then sx else .positive, 0, -1074, .zero, ?_, ?_⟩
    · rw [valueOf_zero, valueOf_zero, valueOf_zero, sub_zero]
    · cases sx <;> cases sy <;> rfl
  · subst hmx
    refine ⟨-sy, my, qy, hcy, ?_, ?_⟩
    · rw [valueOf_zero, zero_sub, valueOf_neg]
    · rw [assemble_of_ne hmy, assemble_of_ne hmy]
      rfl
  · subst hmy
    refine ⟨sx, mx, qx, hcx, ?_, ?_⟩
    · rw [valueOf_zero, sub_zero]
    · rw [assemble_of_ne hmx]
      rfl
  · -- both are moved to the smaller exponent, and the difference of the mantissas is normalised
    have hmantissa : ((sx.apply (decreaseExponent mx qx (min qx qy)).1 -
        sy.apply (decreaseExponent my qy (min qx qy)).1 : ℤ) : ℚ) * 2 ^ (min qx qy) =
          valueOf s m q := by
      rw [Int.cast_sub, sub_mul, apply_decreaseExponent sx mx (min_le_left _ _),
        apply_decreaseExponent sy my (min_le_right _ _), hv]
    obtain ⟨s', m', q', h', hv', hnorm⟩ := normalize_eq h hmantissa
    refine ⟨s', m', q', h', hv'.trans hv.symm, ?_⟩
    rw [← hnorm, assemble_of_ne hmx, assemble_of_ne hmy]
    rfl

/-- **A difference that is a double is not rounded.** -/
theorem toRat?_sub {x y : Float} {a b : ℚ} (hx : toRat? x = some a) (hy : toRat? y = some b)
    {s : Sign} {m : ℕ} {q : ℤ} (h : IsCanonical m q) (hv : a - b = valueOf s m q) :
    toRat? (x - y) = some (a - b) := by
  have hfx := isFinite_of_toRat? hx
  have hfy := isFinite_of_toRat? hy
  rw [toRat?_of_isFinite hfx, Option.some.injEq] at hx
  rw [toRat?_of_isFinite hfy, Option.some.injEq] at hy
  subst hx hy
  obtain ⟨s', m', q', h', hv', hsub⟩ :=
    exists_sub_assemble (isCanonical_parts hfx) (isCanonical_parts hfy) h hv
  have hdiff : x - y = ofParts s' m' q' := by
    show Float.ofModel (.pack (UnpackedFloat.sub Format.binary64 _ _)) = _
    rw [unpack_of_isFinite hfx, unpack_of_isFinite hfy, hsub]
    rfl
  rw [hdiff, toRat?_ofParts s' h', hv']

/-! ### Adding zero -/

theorem unpack_zero : (0.0 : Float).toModel.unpack = .zero .positive := by
  rw [unpack_eq, if_neg (by decide)]
  exact dif_pos (by decide)

/-- **A sum with zero is no negative zero.** -/
theorem add_zero_ne (x : Float) : x + 0.0 ≠ -0.0 := by
  show Float.ofModel (.pack (UnpackedFloat.add Format.binary64 _ (0.0 : Float).toModel.unpack)) ≠ _
  rw [unpack_zero]
  by_cases hfinite : x.isFinite
  · rw [unpack_of_isFinite hfinite]
    by_cases hx : significand x = 0
    · rw [assemble, dif_pos hx]
      cases signOf x with
      | positive => decide
      | negative => decide
    · -- away from zero nothing changes
      have hsame : Float.ofModel (.pack (UnpackedFloat.add Format.binary64
          (assemble (signOf x) (significand x) (exponent x)) (.zero .positive))) = x := by
        rw [assemble_of_ne hx]
        show Float.ofModel (.pack (.finite _ _ _ _)) = x
        rw [← assemble_of_ne hx]
        exact ofParts_parts hfinite
      rw [hsame]
      rintro rfl
      exact hx (by decide)
  · have hfinite' : x.toModel.unpack.isFinite = false := Bool.eq_false_iff.2 hfinite
    cases hx : x.toModel.unpack with
    | notANumber => decide
    | infinity s => cases s <;> decide
    | zero s =>
      rw [hx] at hfinite'
      exact absurd hfinite'.symm Bool.false_ne_true
    | finite s m q hm =>
      rw [hx] at hfinite'
      exact absurd hfinite'.symm Bool.false_ne_true

end OptModel.Binary64
