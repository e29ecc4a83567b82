import OptModel.Proofs.Binary64.Order

/-!
# Rounding sees the quotient only

A quotient of naturals can be spelled in many ways, and a decimal is read in another spelling than
the one in which it was written. The double nearest to it is the same: the exponent of the last
place is determined by the powers of two around the quotient (`lastPlace_spec`), and rounding to a
natural does not notice a common factor.

The nearest double is finite or infinity, never a NaN, and nearest to a natural of sixty-four bits
it is finite.

## Main results

* `Binary64.ofRatio_congr` — equal quotients have the same nearest double
* `Binary64.isFinite_or_eq_infinity` — what rounding can end in
* `Binary64.isFinite_ofNat` — naturals of sixty-four bits do not overflow
-/

namespace OptModel.Binary64

variable {num den num' den' : ℕ}

/-! ### The last place -/

/-- The exponent of the last place is the one that leaves fifty-three bits before the point, or the
least there is. -/
theorem lastPlace_spec (hnum : num ≠ 0) (hden : 0 < den) :
    ∃ g : ℤ, lastPlace num den = max g (-1074) ∧
      (2 : ℚ) ^ (g + 52) ≤ num / den ∧ (num : ℚ) / den < 2 ^ (g + 53) := by
  obtain ⟨hlower, hupper⟩ := quotient_bounds hnum hden
  set g : ℤ := (num.log2 : ℤ) - den.log2 - 52 with hg
  have hplace : lastPlace num den =
      max (if (scaled num den g).1 < leadingBit * (scaled num den g).2 then g - 1 else g)
        (-1074) := rfl
  rw [hplace]
  by_cases hlt : (scaled num den g).1 < leadingBit * (scaled num den g).2
  · rw [if_pos hlt]
    rw [scaled_lt_iff hden] at hlt
    refine ⟨g - 1, rfl, ?_, ?_⟩
    · rw [show g - 1 + 52 = (num.log2 : ℤ) - den.log2 - 1 by omega]
      exact hlower.le
    · rw [show g - 1 + 53 = g + 52 by ring]
      exact hlt
  · rw [if_neg hlt]
    rw [scaled_lt_iff hden, not_lt] at hlt
    refine ⟨g, rfl, hlt, ?_⟩
    rw [show g + 53 = (num.log2 : ℤ) - den.log2 + 1 by omega]
    exact hupper

/-- Equal quotients have the same last place. -/
theorem lastPlace_congr (hnum : num ≠ 0) (hden : 0 < den) (hnum' : num' ≠ 0) (hden' : 0 < den')
    (h : (num : ℚ) / den = num' / den') : lastPlace num den = lastPlace num' den' := by
  have hone : (1 : ℚ) < 2 := by norm_num
  obtain ⟨g, hg, hlower, hupper⟩ := lastPlace_spec hnum hden
  obtain ⟨g', hg', hlower', hupper'⟩ := lastPlace_spec hnum' hden'
  rw [h] at hlower hupper
  have hle := (zpow_lt_zpow_iff_right₀ hone).1 (hlower.trans_lt hupper')
  have hge := (zpow_lt_zpow_iff_right₀ hone).1 (hlower'.trans_lt hupper)
  rw [hg, hg', show g = g' by omega]

/-! ### Rounding -/

/-- Rounding to a natural does not notice a common factor. -/
theorem roundEven_mul_mul (num den : ℕ) {c : ℕ} (hc : 0 < c) :
    roundEven (num * c) (den * c) = roundEven num den := by
  have hquotient : num * c / (den * c) = num / den := Nat.mul_div_mul_right num den hc
  have hremainder : num * c % (den * c) = num % den * c := Nat.mul_mod_mul_right c num den
  have hlt : 2 * (num % den * c) < den * c ↔ 2 * (num % den) < den := by
    rw [← mul_assoc]
    exact Nat.mul_lt_mul_right hc
  have heq : 2 * (num % den * c) = den * c ↔ 2 * (num % den) = den := by
    rw [← mul_assoc]
    exact Nat.mul_left_inj hc.ne'
  simp only [roundEven, hquotient, hremainder, hlt, heq, beq_iff_eq, Bool.or_eq_true,
    Bool.and_eq_true, decide_eq_true_eq]

theorem roundEven_congr (hden : 0 < den) (hden' : 0 < den') (h : num * den' = num' * den) :
    roundEven num den = roundEven num' den' := by
  rw [← roundEven_mul_mul num den hden', ← roundEven_mul_mul num' den' hden, h,
    Nat.mul_comm den den']

/-- **Equal quotients have the same nearest double.** -/
theorem ofRatio_congr (hden : 0 < den) (hden' : 0 < den')
    (h : (num : ℚ) / den = num' / den') : ofRatio num den = ofRatio num' den' := by
  have hd : (den : ℚ) ≠ 0 := by exact_mod_cast hden.ne'
  have hd' : (den' : ℚ) ≠ 0 := by exact_mod_cast hden'.ne'
  have hbits : nearestBits num den = nearestBits num' den' := by
    rcases Nat.eq_zero_or_pos num with rfl | hnum
    · have hnum' : num' = 0 := by
        rw [Nat.cast_zero, zero_div, eq_comm, div_eq_zero_iff] at h
        exact_mod_cast h.resolve_right hd'
      rw [hnum', nearestBits, nearestBits, if_pos rfl, if_pos rfl]
    · have hnum' : num' ≠ 0 := by
        rintro rfl
        rw [Nat.cast_zero, zero_div, div_eq_zero_iff] at h
        exact hnum.ne' (by exact_mod_cast h.resolve_right hd)
      have hplace := lastPlace_congr hnum.ne' hden hnum' hden' h
      have hround : roundEven (scaled num den (lastPlace num den)).1
            (scaled num den (lastPlace num den)).2 =
          roundEven (scaled num' den' (lastPlace num' den')).1
            (scaled num' den' (lastPlace num' den')).2 := by
        have hpos : 0 < (scaled num den (lastPlace num den)).2 := scaled_snd_pos hden _
        have hpos' : 0 < (scaled num' den' (lastPlace num' den')).2 := scaled_snd_pos hden' _
        refine roundEven_congr hpos hpos' ?_
        have hquotient := scaled_quotient num den (lastPlace num den)
        rw [h, hplace, ← scaled_quotient, div_eq_div_iff (by exact_mod_cast (hplace ▸ hpos).ne')
          (by exact_mod_cast hpos'.ne')] at hquotient
        rw [hplace]
        exact_mod_cast hquotient
      simp only [nearestBits]
      rw [if_neg hnum.ne', if_neg hnum', hround, hplace]
  rw [ofRatio, ofRatio, hbits]

/-! ### What rounding can end in -/

theorem nearestBits_le (num den : ℕ) : nearestBits num den ≤ infinityBits := by
  simp only [nearestBits]
  split
  · exact Nat.zero_le _
  · exact min_le_right _ _

theorem isFinite_ofBits {b : ℕ} (hb : b < infinityBits) : (Float.ofBits b.toUInt64).isFinite := by
  obtain ⟨m, q, h, hbits⟩ := exists_canonical_bits hb
  have htoNat : b.toUInt64.toNat = b := by
    rw [Nat.toUInt64, UInt64.toNat_ofNat']
    exact Nat.mod_eq_of_lt (hb.trans (by decide))
  rw [ofBits_eq_ofParts h (htoNat.trans hbits)]
  exact isFinite_ofParts .positive h

/-- **The nearest double is finite or infinity.** -/
theorem isFinite_or_eq_infinity (num den : ℕ) :
    (ofRatio num den).isFinite ∨ ofRatio num den = infinity := by
  rcases (nearestBits_le num den).lt_or_eq with hlt | heq
  · exact .inl (isFinite_ofBits hlt)
  · exact .inr (by rw [ofRatio, heq, infinity])

theorem roundEven_le (num : ℕ) {den k : ℕ} (h : num < k * den) : roundEven num den ≤ k := by
  have hquotient : num / den < k := Nat.div_lt_of_lt_mul (by rwa [Nat.mul_comm])
  simp only [roundEven]
  split
  · exact hquotient.le
  · exact hquotient

/-- **Naturals of sixty-four bits do not overflow.** -/
theorem isFinite_ofNat {n : ℕ} (hn : n < 2 ^ 64) : (ofNat n).isFinite := by
  refine isFinite_ofBits ?_
  rcases Nat.eq_zero_or_pos n with rfl | hpos
  · decide
  · have hlog : n.log2 < 64 := (Nat.log2_lt hpos.ne').2 hn
    obtain ⟨g, hplace, hlower, hupper⟩ := lastPlace_spec hpos.ne' one_pos
    rw [Nat.cast_one, div_one] at hlower
    have hg : g + 52 < n.log2 + 1 :=
      (zpow_lt_zpow_iff_right₀ (by norm_num : (1 : ℚ) < 2)).1 (hlower.trans_lt (lt_pow_log2 n))
    -- the significand has at most fifty-three bits, or fifty-four where it is rounded up
    have hround : roundEven (scaled n 1 (lastPlace n 1)).1 (scaled n 1 (lastPlace n 1)).2 ≤
        2 * leadingBit := by
      refine roundEven_le _ ?_
      have hpos' : (0 : ℚ) < (scaled n 1 (lastPlace n 1)).2 := by
        exact_mod_cast scaled_snd_pos one_pos (lastPlace n 1)
      have hquotient : ((scaled n 1 (lastPlace n 1)).1 : ℚ) / (scaled n 1 (lastPlace n 1)).2 <
          2 ^ (53 : ℤ) := by
        rw [scaled_quotient, div_lt_iff₀ (by positivity), ← zpow_add₀ (by norm_num)]
        refine hupper.trans_le (zpow_le_zpow_right₀ (by norm_num) ?_)
        rw [hplace]
        omega
      rw [div_lt_iff₀ hpos'] at hquotient
      have hbits : (2 : ℚ) ^ (53 : ℤ) = (2 * leadingBit : ℕ) := by
        simp only [leadingBit]
        norm_num
      rw [hbits] at hquotient
      exact_mod_cast hquotient
    simp only [nearestBits]
    rw [if_neg hpos.ne']
    refine (min_le_left _ _).trans_lt ?_
    rw [hplace] at hround ⊢
    simp only [infinityBits, leadingBit] at *
    omega

end OptModel.Binary64
