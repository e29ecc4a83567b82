import OptModel.Proofs.Binary64.Nearest

/-!
# The order of doubles

Any two doubles compare with each other unless one of them is a NaN. The doubles from zero up to
infinity are in the order of their bits, so it is enough to look at bits to see that a positive
natural is not rounded below one, however large it is.

## Main results

* `Binary64.le_of_not_lt`, `not_lt_of_le` — of two doubles that are no NaN, one is at most the other
* `Binary64.not_abs_lt_zero` — no magnitude is negative
* `Binary64.ofBits_le_ofBits` — the order of doubles that are not negative is that of their bits
* `Binary64.one_le_ofNat` — positive naturals are not rounded below one
-/

namespace OptModel.Binary64

open Float.Model Float.Model.UnpackedFloat

/-! ### Comparing any two doubles -/

theorem swap_then_compare (q q' : ℤ) (m m' : ℕ) :
    ((compare q q').then (compare m m')).swap = (compare q' q).then (compare m' m) := by
  rw [Ordering.swap_then, ← Std.OrientedCmp.eq_swap, ← Std.OrientedCmp.eq_swap]

/-- Comparing the other way round swaps the answer. -/
theorem compare_swap (x y : UnpackedFloat) :
    y.compare x = (x.compare y).map Ordering.swap := by
  cases x with
  | notANumber => cases y <;> rfl
  | infinity s =>
    cases y with
    | notANumber => cases s <;> rfl
    | infinity s' => cases s <;> cases s' <;> rfl
    | zero s' => cases s <;> rfl
    | finite s' => cases s <;> cases s' <;> rfl
  | zero s =>
    cases y with
    | notANumber => rfl
    | infinity s' => cases s' <;> rfl
    | zero s' => rfl
    | finite s' => cases s' <;> rfl
  | finite s m q =>
    cases y with
    | notANumber => cases s <;> rfl
    | infinity s' => cases s <;> cases s' <;> rfl
    | zero s' => cases s <;> rfl
    | finite s' m' q' =>
      have hmagnitude := swap_then_compare q q' m m'
      cases s with
      | negative =>
        cases s' with
        | negative => exact congrArg (some ∘ Ordering.swap) hmagnitude.symm
        | positive => rfl
      | positive =>
        cases s' with
        | negative => rfl
        | positive => exact congrArg some hmagnitude.symm

/-- Only a NaN does not compare. -/
theorem exists_compare {x y : UnpackedFloat} (hx : x.isNaN = false) (hy : y.isNaN = false) :
    ∃ o, x.compare y = some o := by
  cases x with
  | notANumber => exact absurd hx.symm Bool.false_ne_true
  | infinity s =>
    cases y with
    | notANumber => exact absurd hy.symm Bool.false_ne_true
    | infinity s' => cases s <;> cases s' <;> exact ⟨_, rfl⟩
    | zero s' => cases s <;> exact ⟨_, rfl⟩
    | finite s' => cases s <;> exact ⟨_, rfl⟩
  | zero s =>
    cases y with
    | notANumber => exact absurd hy.symm Bool.false_ne_true
    | infinity s' => cases s' <;> exact ⟨_, rfl⟩
    | zero s' => exact ⟨_, rfl⟩
    | finite s' => cases s' <;> exact ⟨_, rfl⟩
  | finite s m q =>
    cases y with
    | notANumber => exact absurd hy.symm Bool.false_ne_true
    | infinity s' => cases s' <;> exact ⟨_, rfl⟩
    | zero s' => cases s <;> exact ⟨_, rfl⟩
    | finite s' m' q' => cases s <;> cases s' <;> exact ⟨_, rfl⟩

variable {x y : Float}

theorem le_iff_compare : x ≤ y ↔ ∃ o ∈ x.toModel.unpack.compare y.toModel.unpack, o ≠ .gt := by
  show decide (x.toModel.unpack.le y.toModel.unpack = true) = true ↔ _
  rw [decide_eq_true_iff, UnpackedFloat.le, Option.any_eq_true]
  exact exists_congr fun o => and_congr Iff.rfl Ordering.isLE_iff_ne_gt

theorem lt_iff_compare : x < y ↔ x.toModel.unpack.compare y.toModel.unpack = some .lt := by
  show decide (x.toModel.unpack.lt y.toModel.unpack = true) = true ↔ _
  rw [decide_eq_true_iff, UnpackedFloat.lt, beq_iff_eq]

/-- **Of two doubles that are no NaN, one is at most the other.** -/
theorem le_of_not_lt (hx : x.isNaN = false) (hy : y.isNaN = false) (h : ¬ y < x) : x ≤ y := by
  obtain ⟨o, ho⟩ := @exists_compare x.toModel.unpack y.toModel.unpack hx hy
  rw [lt_iff_compare, compare_swap, ho] at h
  refine le_iff_compare.2 ⟨o, ho, ?_⟩
  rintro rfl
  exact h rfl

theorem isNaN_of_le (h : x ≤ y) : x.isNaN = false ∧ y.isNaN = false := by
  obtain ⟨o, ho, -⟩ := le_iff_compare.1 h
  constructor
  · show x.toModel.unpack.isNaN = false
    cases hx : x.toModel.unpack with
    | notANumber =>
      rw [hx] at ho
      exact nomatch ho
    | _ => rfl
  · show y.toModel.unpack.isNaN = false
    cases hy : y.toModel.unpack with
    | notANumber =>
      rw [hy, compare_swap] at ho
      exact nomatch ho
    | _ => rfl

theorem le_of_lt (h : x < y) : x ≤ y := le_iff_compare.2 ⟨.lt, lt_iff_compare.1 h, nofun⟩

theorem not_lt_of_le (h : x ≤ y) : ¬ y < x := by
  obtain ⟨o, ho, hne⟩ := le_iff_compare.1 h
  rw [lt_iff_compare, compare_swap, ho]
  intro hlt
  exact hne (Ordering.swap_inj.1 (Option.some.inj hlt))

theorem unpack_of_isNaN (hx : x.isNaN) : x.toModel.unpack = .notANumber := by
  have hnan : x.toModel.unpack.isNaN = true := hx
  cases hu : x.toModel.unpack with
  | notANumber => rfl
  | infinity s | zero s | finite s =>
    rw [hu] at hnan
    exact nomatch hnan

/-- A NaN is below nothing. -/
theorem not_lt_of_isNaN (hx : x.isNaN) : ¬ x < y := by
  rw [lt_iff_compare, unpack_of_isNaN hx]
  exact nofun

/-- **A magnitude is not negative**, whatever it is the magnitude of. -/
theorem not_abs_lt_zero (x : Float) : ¬ x.abs < 0.0 := by
  by_cases hx : x.isFinite
  · rw [abs_eq_ofParts hx,
      lt_iff_of_toRat? (toRat?_ofParts .positive (isCanonical_parts hx)) toRat?_zero,
      valueOf_positive, not_lt]
    positivity
  · have hunpack : x.abs.toModel.unpack = (Float.Model.pack x.toModel.unpack.abs).unpack := rfl
    have hfinite : ¬ x.toModel.unpack.isFinite = true := hx
    rw [lt_iff_compare, unpack_zero, hunpack]
    cases hu : x.toModel.unpack with
    | notANumber => exact nofun
    | infinity s =>
      have habs : (Float.Model.pack (UnpackedFloat.infinity s).abs).unpack =
          .infinity .positive := by cases s <;> rfl
      rw [habs]
      exact nofun
    | zero s | finite s =>
      rw [hu] at hfinite
      exact absurd rfl hfinite

/-! ### Infinities -/

theorem unpack_infinity : infinity.toModel.unpack = .infinity .positive := by
  rw [unpack_eq, if_pos (by decide), if_pos (by decide)]
  rfl

theorem le_infinity (hx : x.isNaN = false) : x ≤ infinity := by
  refine le_of_not_lt hx (by decide) fun h => ?_
  rw [lt_iff_compare, unpack_infinity] at h
  cases hu : x.toModel.unpack with
  | infinity s =>
    rw [hu] at h
    cases s <;> exact nomatch h
  | _ =>
    rw [hu] at h
    exact nomatch h

/-! ### Doubles in the order of their bits -/

/-- Bits below those of infinity spell a finite double that is not negative. -/
theorem exists_canonical_bits {b : ℕ} (hb : b < infinityBits) :
    ∃ m q, IsCanonical m q ∧ b = bitsOf .positive m q := by
  simp only [infinityBits, leadingBit] at hb
  by_cases hsub : b < leadingBit
  · refine ⟨b, -1074, ⟨by omega, by omega, by omega, .inr rfl⟩, ?_⟩
    simp [bitsOf, signWeight]
  · simp only [leadingBit] at hsub
    refine ⟨leadingBit + b % leadingBit, (b / leadingBit : ℕ) - 1075, ⟨?_, ?_, ?_, .inl ?_⟩, ?_⟩ <;>
      simp only [bitsOf, signWeight, leadingBit] <;> omega

/-- More bits are a larger magnitude. -/
theorem IsCanonical.magnitude_le {m m' : ℕ} {q q' : ℤ} (h : IsCanonical m q)
    (h' : IsCanonical m' q') (hbits : bitsOf .positive m q ≤ bitsOf .positive m' q') :
    (m : ℚ) * 2 ^ q ≤ m' * 2 ^ q' := by
  rcases lt_trichotomy q q' with hq | rfl | hq
  · exact (h.magnitude_lt h' hq).le
  · have hm : m ≤ m' := by
      simp only [bitsOf] at hbits
      omega
    gcongr
  · -- the leading bit of the larger exponent outweighs what is below it
    have hlead := h.leading
    have hlt' := h'.lt
    have hge' := h'.ge
    simp only [bitsOf, signWeight, leadingBit] at *
    omega

/-- **Doubles that are not negative are in the order of their bits.** -/
theorem ofBits_le_ofBits {a b : ℕ} (hab : a ≤ b) (hb : b ≤ infinityBits) :
    Float.ofBits a.toUInt64 ≤ Float.ofBits b.toUInt64 := by
  have htoNat {c : ℕ} (hc : c < infinityBits) : c.toUInt64.toNat = c := by
    rw [Nat.toUInt64, UInt64.toNat_ofNat']
    exact Nat.mod_eq_of_lt (hc.trans (by decide))
  have hparts {c : ℕ} (hc : c < infinityBits) : ∃ m q, IsCanonical m q ∧
      c = bitsOf .positive m q ∧ Float.ofBits c.toUInt64 = ofParts .positive m q := by
    obtain ⟨m, q, h, hbits⟩ := exists_canonical_bits hc
    exact ⟨m, q, h, hbits, ofBits_eq_ofParts h ((htoNat hc).trans hbits)⟩
  rcases hb.lt_or_eq with hb | rfl
  · obtain ⟨m, q, h, hbits, hm⟩ := hparts (hab.trans_lt hb)
    obtain ⟨m', q', h', hbits', hm'⟩ := hparts hb
    rw [hm, hm', le_iff_of_toRat? (toRat?_ofParts .positive h) (toRat?_ofParts .positive h'),
      valueOf_positive, valueOf_positive]
    exact h.magnitude_le h' (by rwa [← hbits, ← hbits'])
  · refine le_infinity ?_
    rcases hab.lt_or_eq with ha | rfl
    · obtain ⟨m, q, h, -, hm⟩ := hparts ha
      rw [hm]
      exact (isNaN_of_le ((le_iff_of_toRat? (toRat?_ofParts .positive h)
        (toRat?_ofParts .positive h)).2 le_rfl)).1
    · decide

/-! ### Rounding -/

theorem le_roundEven {num den k : ℕ} (hden : 0 < den) (h : k * den ≤ num) :
    k ≤ roundEven num den := by
  have hquotient : k ≤ num / den := (Nat.le_div_iff_mul_le hden).2 h
  simp only [roundEven]
  split <;> omega

theorem one_le_nearestBits {n : ℕ} (hn : n ≠ 0) : 1023 * leadingBit ≤ nearestBits n 1 := by
  have hwhole (g : ℤ) (hg : g = n.log2 - 52) :
      ¬ (scaled n 1 g).1 < leadingBit * (scaled n 1 g).2 := by
    rw [scaled_lt_iff one_pos, Nat.cast_one, div_one, not_lt, hg, sub_add_cancel]
    exact pow_log2_le hn
  have hplace : lastPlace n 1 = n.log2 - 52 := by
    have hlog : Nat.log2 1 = 0 := by decide
    simp only [lastPlace, hlog, Nat.cast_zero, sub_zero]
    rw [if_neg (hwhole _ rfl)]
    omega
  have hround := le_roundEven (scaled_snd_pos one_pos (lastPlace n 1))
    (not_lt.1 (hwhole _ hplace))
  simp only [nearestBits]
  rw [if_neg hn]
  rw [hplace] at hround ⊢
  simp only [infinityBits, leadingBit] at *
  omega

/-- **Positive naturals are not rounded below one.** -/
theorem one_le_ofNat {n : ℕ} (hn : n ≠ 0) : 1.0 ≤ ofNat n := by
  have hone : Float.ofBits (1023 * leadingBit).toUInt64 = 1.0 := by decide
  have hinfinity : nearestBits n 1 ≤ infinityBits := by
    simp only [nearestBits]
    rw [if_neg hn]
    exact min_le_right _ _
  rw [← hone]
  exact ofBits_le_ofBits (one_le_nearestBits hn) hinfinity

end OptModel.Binary64
