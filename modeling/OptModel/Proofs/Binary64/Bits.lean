import OptModel.Binary64.Basic
import Mathlib.Tactic.Ring
import Mathlib.Tactic.Linarith
import Mathlib.Tactic.NormNum
import Mathlib.Tactic.Positivity
import Mathlib.Algebra.Order.Field.Power

/-!
# Doubles and their parts

The logic knows a double by its bits, and an operation on doubles as one on the core model's
unpacked form: a sign, a natural and a power of two. `Binary64` takes a double apart into the same
three parts by arithmetic on the bits. This module proves that the two agree, and that a finite
double is determined by its parts, so that everything after it can forget the bits.

## The one convention

A pair `(m, q)` is *canonical* when `m` has fifty-three bits, or fewer at the least exponent. Every
finite magnitude `m · 2 ^ q` is spelled by exactly one canonical pair, and `ofParts` is total:
outside the canonical pairs it means nothing, and no lemma says anything about it there.

## Main definitions

* `Binary64.IsCanonical` — the pairs that spell a finite magnitude
* `Binary64.ofParts` — the double with this sign and this pair
* `Binary64.valueOf` — the exact number it stands for

## Main results

* `Binary64.unpack_eq` — the parts of a double are those of the core model
* `Binary64.ofParts_parts` — a finite double is put together from its parts
* `Binary64.toRat?_of_isFinite` — its exact value
* `Binary64.lt_iff_of_toRat?`, `le_iff_of_toRat?` — comparing doubles is comparing exact values
-/

namespace OptModel.Binary64

open Float.Model Float.Model.UnpackedFloat

/-! ### Taking bits apart -/

theorem eq_of_toBits_eq {x y : Float} (h : x.toBits = y.toBits) : x = y := by
  obtain ⟨⟨a, ha⟩⟩ := x
  obtain ⟨⟨b, hb⟩⟩ := y
  have hab : a = b := h
  subst hab
  rfl

theorem toNat_unpackMantissa (b : BitVec 64) :
    (@unpackMantissa Format.binary64 b).toNat = b.toNat % leadingBit := by
  simp [unpackMantissa, BitVec.extractLsb, leadingBit]

theorem toNat_unpackExponent (b : BitVec 64) :
    (@unpackExponent Format.binary64 b).toNat = b.toNat / leadingBit % 2048 := by
  simp [unpackExponent, BitVec.extractLsb, leadingBit, Nat.shiftRight_eq_div_pow]

theorem toNat_unpackSign (b : BitVec 64) :
    (@unpackSign Format.binary64 b).toNat = b.toNat / leadingBit / 2048 := by
  have hlt := b.isLt
  show (BitVec.cast _ (b.extractLsb 63 63)).toNat = _
  simp [BitVec.extractLsb, leadingBit, Nat.shiftRight_eq_div_pow]
  omega

/-- The sign of a double as the core model has it. -/
def signOf (x : Float) : Sign := if isNegative x then .negative else .positive

theorem ofBitVec_unpackSign (x : Float) :
    Sign.ofBitVec (@unpackSign Format.binary64 x.toBits.toBitVec) = signOf x := by
  have hs : (@unpackSign Format.binary64 x.toBits.toBitVec).toNat =
      x.toBits.toNat / leadingBit / 2048 := toNat_unpackSign _
  have hlt := (@unpackSign Format.binary64 x.toBits.toBitVec).isLt
  simp only [Sign.ofBitVec, signOf, isNegative]
  by_cases h : @unpackSign Format.binary64 x.toBits.toBitVec = 0#1
  · have h0 : x.toBits.toNat / leadingBit / 2048 = 0 := by rw [← hs, h]; rfl
    simp [h, h0]
  · have h1 : x.toBits.toNat / leadingBit / 2048 = 1 := by
      have : x.toBits.toNat / leadingBit / 2048 ≠ 0 := fun h0 =>
        h (BitVec.eq_of_toNat_eq (by rw [hs, h0]; rfl))
      omega
    simp [h, h1]

theorem finite_congr {s s' : Sign} {m m' : ℕ} {q q' : ℤ} {hm : 0 < m} {hm' : 0 < m'}
    (hs : s = s') (hmm : m = m') (hq : q = q') :
    UnpackedFloat.finite s m q hm = .finite s' m' q' hm' := by
  subst hs hmm hq
  rfl

theorem toNat_pos_of_ne {m : BitVec 52} (h : m ≠ 0#52) : 0 < m.toNat :=
  Nat.pos_of_ne_zero fun hzero => h (BitVec.eq_of_toNat_eq hzero)

theorem toNat_append_pos (m : BitVec 52) : 0 < (1#1 ++ m).toNat := by
  rw [BitVec.toNat_append, ← Nat.shiftLeft_add_eq_or_of_lt m.isLt]
  simp [Nat.shiftLeft_eq]

/-- What the core model unpacks, by the fields of the bits. -/
theorem unpack_fields (b : BitVec Format.binary64.numBits) :
    UnpackedFloat.unpack Format.binary64 b =
      if unpackExponent b = -1#11 then
        if unpackMantissa b = 0#52 then .infinity (.ofBitVec (unpackSign b)) else .notANumber
      else if unpackExponent b = 0#11 then
        if h : unpackMantissa b = 0#52 then .zero (.ofBitVec (unpackSign b))
        else .finite (.ofBitVec (unpackSign b)) (unpackMantissa b).toNat
          ((unpackExponent b).toNat -
            (Format.binary64.exponentBias + Format.binary64.mantissaBitsWithoutImplicit) + 1)
          (toNat_pos_of_ne h)
      else .finite (.ofBitVec (unpackSign b)) (1#1 ++ unpackMantissa b).toNat
        ((unpackExponent b).toNat -
          (Format.binary64.exponentBias + Format.binary64.mantissaBitsWithoutImplicit))
        (toNat_append_pos _) := rfl

/-- **The parts of a double are those of the core model.** -/
theorem unpack_eq (x : Float) :
    x.toModel.unpack =
      if exponentField x = 2047 then
        if fraction x = 0 then .infinity (signOf x) else .notANumber
      else if h : significand x = 0 then .zero (signOf x)
      else .finite (signOf x) (significand x) (exponent x) (Nat.pos_of_ne_zero h) := by
  have hm : (@unpackMantissa Format.binary64 x.toBits.toBitVec).toNat = fraction x :=
    toNat_unpackMantissa _
  have he : (@unpackExponent Format.binary64 x.toBits.toBitVec).toNat = exponentField x :=
    toNat_unpackExponent _
  have hm0 : @unpackMantissa Format.binary64 x.toBits.toBitVec = 0#52 ↔ fraction x = 0 := by
    rw [← hm, ← BitVec.toNat_inj]; rfl
  have he0 : @unpackExponent Format.binary64 x.toBits.toBitVec = 0#11 ↔
      exponentField x = 0 := by
    rw [← he, ← BitVec.toNat_inj]; rfl
  have hemax : @unpackExponent Format.binary64 x.toBits.toBitVec = -1#11 ↔
      exponentField x = 2047 := by
    rw [← he, ← BitVec.toNat_inj]; rfl
  show UnpackedFloat.unpack Format.binary64 x.toBits.toBitVec = _
  rw [unpack_fields]
  by_cases hmax : exponentField x = 2047
  · rw [if_pos (hemax.2 hmax), if_pos hmax, ofBitVec_unpackSign]
    simp only [hm0]
  · rw [if_neg fun h => hmax (hemax.1 h), if_neg hmax]
    by_cases hzero : exponentField x = 0
    · have hsig : significand x = fraction x := by simp [significand, hzero]
      have hexp : exponent x = -1074 := by simp [exponent, hzero]
      rw [if_pos (he0.2 hzero)]
      by_cases hfrac : fraction x = 0
      · rw [dif_pos (hm0.2 hfrac), dif_pos (hsig.trans hfrac), ofBitVec_unpackSign]
      · rw [dif_neg fun h => hfrac (hm0.1 h), dif_neg fun h => hfrac (hsig.symm.trans h)]
        refine finite_congr (ofBitVec_unpackSign x) (hm.trans hsig.symm) ?_
        rw [he, hzero, hexp]
        simp [Format.exponentBias]
    · have hsig : significand x = leadingBit + fraction x := by simp [significand, hzero]
      have hexp : exponent x = exponentField x - 1075 := by
        simp only [exponent]
        omega
      have hne : significand x ≠ 0 := by
        simp only [hsig, leadingBit]
        omega
      have happend : (1#1 ++ @unpackMantissa Format.binary64 x.toBits.toBitVec).toNat =
          leadingBit + fraction x := by
        rw [BitVec.toNat_append, ← Nat.shiftLeft_add_eq_or_of_lt (BitVec.isLt _), hm]
        simp [Nat.shiftLeft_eq, leadingBit]
      rw [if_neg fun h => hzero (he0.1 h), dif_neg hne]
      refine finite_congr (ofBitVec_unpackSign x) (happend.trans hsig.symm) ?_
      rw [he, hexp]
      simp [Format.exponentBias]

/-! ### Putting a double together -/

/-- The pairs `(m, q)` that stand for the magnitudes `m · 2 ^ q` of finite doubles, each in the one
way in which its bits spell it. -/
structure IsCanonical (m : ℕ) (q : ℤ) : Prop where
  lt : m < 2 * leadingBit
  ge : -1074 ≤ q
  le : q ≤ 971
  leading : leadingBit ≤ m ∨ q = -1074

/-- What a sign adds to the bits of a double. -/
def signWeight : Sign → ℕ
  | .negative => 2048 * leadingBit
  | .positive => 0

/-- The bits of the finite double `±m · 2 ^ q`. -/
def bitsOf (s : Sign) (m : ℕ) (q : ℤ) : ℕ := signWeight s + ((q + 1074).toNat * leadingBit + m)

theorem toNat_packComponents (s : Sign) (e : BitVec 11) (m : BitVec 52) :
    (packComponents Format.binary64 s e m).toNat =
      signWeight s + (e.toNat * leadingBit + m.toNat) := by
  have he := e.isLt
  have hm := m.isLt
  simp only [packComponents]
  rw [BitVec.toNat_append, BitVec.toNat_append, ← Nat.shiftLeft_add_eq_or_of_lt hm,
    ← Nat.shiftLeft_add_eq_or_of_lt he]
  cases s <;> simp [Nat.shiftLeft_eq, leadingBit, signWeight, Sign.toBitVec]
  ring

/-- A mantissa is packed with its exponent, or without one when it has no leading bit. -/
theorem pack_finite (s : Sign) {m biased : ℕ} {e : ℤ} (hm : 0 < m)
    (hbiased : (e + Format.binary64.exponentBias +
      Format.binary64.mantissaBitsWithoutImplicit).toNat = biased) :
    UnpackedFloat.pack Format.binary64 (.finite s m e hm) =
      if 2 ^ Format.binary64.exponentBits ≤ biased + 1 then packedInfinity Format.binary64 s
      else if m.log2 + 1 = Format.binary64.mantissaBits then
        packComponents Format.binary64 s (BitVec.ofNat _ biased) (BitVec.ofNat _ m)
      else packComponents Format.binary64 s (0#_) (BitVec.ofNat _ m) := by
  rw [← hbiased]
  rfl

/-- Packing a canonical pair spells it. -/
theorem toBits_pack_finite (s : Sign) {m : ℕ} {q : ℤ} (h : IsCanonical m q) (hm : 0 < m) :
    (Float.Model.pack (.finite s m q hm)).toBits.toNat = bitsOf s m q := by
  obtain ⟨hlt, hge, hle, hlead⟩ := h
  show (UnpackedFloat.pack Format.binary64 (.finite s m q hm)).toNat = _
  simp only [leadingBit] at hlt hlead
  have hbiased : (q + Format.binary64.exponentBias +
      Format.binary64.mantissaBitsWithoutImplicit).toNat = (q + 1075).toNat := by
    show (q + (1023 : ℕ) + (52 : ℕ)).toNat = _
    congr 1
    omega
  have hroom : ¬ 2 ^ Format.binary64.exponentBits ≤ (q + 1075).toNat + 1 := by
    show ¬ 2048 ≤ _
    omega
  rw [pack_finite s hm hbiased, if_neg hroom]
  by_cases hlog : m.log2 + 1 = Format.binary64.mantissaBits
  · have hle52 : 2 ^ 52 ≤ m := (Nat.le_log2 hm.ne').1 (by change m.log2 + 1 = 53 at hlog; omega)
    rw [if_pos hlog, toNat_packComponents, BitVec.toNat_ofNat, BitVec.toNat_ofNat]
    simp only [bitsOf, leadingBit]
    omega
  · have hlt52 : m < 2 ^ 52 := by
      change ¬ m.log2 + 1 = 53 at hlog
      have h53 : m.log2 < 53 := (Nat.log2_lt hm.ne').2 (by omega)
      exact (Nat.log2_lt hm.ne').1 (by omega)
    have hsub : (BitVec.ofNat 52 m).toNat = m := by
      rw [BitVec.toNat_ofNat, Nat.mod_eq_of_lt hlt52]
    have hq : q = -1074 := by omega
    rw [if_neg hlog, toNat_packComponents, hsub, hq]
    simp [bitsOf]

/-- The parts of a double that spells a canonical pair. -/
theorem parts_of_toBits {x : Float} {s : Sign} {m : ℕ} {q : ℤ} (h : IsCanonical m q)
    (hx : x.toBits.toNat = bitsOf s m q) :
    exponentField x ≠ 2047 ∧ significand x = m ∧ exponent x = q ∧ signOf x = s := by
  obtain ⟨hlt, hge, hle, hlead⟩ := h
  simp only [bitsOf] at hx
  have hs : signWeight s = 0 ∨ signWeight s = 2048 * leadingBit := by cases s <;> simp [signWeight]
  have hfield : exponentField x = (q + 1074).toNat + m / leadingBit := by
    simp only [exponentField]
    simp only [leadingBit] at *
    omega
  have hfraction : fraction x = m % leadingBit := by
    simp only [fraction]
    simp only [leadingBit] at *
    omega
  have hnegative : x.toBits.toNat / leadingBit / 2048 = signWeight s / (2048 * leadingBit) := by
    simp only [leadingBit] at *
    omega
  refine ⟨?_, ?_, ?_, ?_⟩
  · simp only [leadingBit] at *
    omega
  · simp only [significand]
    rw [hfield, hfraction]
    unfold leadingBit at *
    split <;> omega
  · simp only [exponent]
    rw [hfield]
    simp only [leadingBit] at *
    omega
  · unfold signOf isNegative
    rw [hnegative]
    cases s <;> simp [signWeight, leadingBit]

/-! ### Finite doubles -/

theorem isFinite_iff (x : Float) : x.isFinite ↔ exponentField x ≠ 2047 := by
  show x.toModel.unpack.isFinite ↔ _
  rw [unpack_eq]
  by_cases hmax : exponentField x = 2047
  · rw [if_pos hmax]
    by_cases hzero : fraction x = 0
    · rw [if_pos hzero]
      exact iff_of_false Bool.false_ne_true fun h => h hmax
    · rw [if_neg hzero]
      exact iff_of_false Bool.false_ne_true fun h => h hmax
  · rw [if_neg hmax]
    by_cases hzero : significand x = 0
    · rw [dif_pos hzero]
      exact iff_of_true rfl hmax
    · rw [dif_neg hzero]
      exact iff_of_true rfl hmax

theorem isCanonical_parts {x : Float} (h : x.isFinite) :
    IsCanonical (significand x) (exponent x) := by
  rw [isFinite_iff] at h
  have hfield : exponentField x < 2048 := Nat.mod_lt _ (by omega)
  have hfraction : fraction x < leadingBit := Nat.mod_lt _ (by decide)
  have hexp : exponent x = (max (exponentField x) 1 : ℕ) - 1075 := rfl
  have hsig : significand x = if exponentField x = 0 then fraction x else leadingBit + fraction x :=
    rfl
  constructor <;> split at hsig <;> omega

/-- The core model's form of `±m · 2 ^ q`. -/
def assemble (s : Sign) (m : ℕ) (q : ℤ) : UnpackedFloat :=
  if h : m = 0 then .zero s else .finite s m q (Nat.pos_of_ne_zero h)

theorem assemble_of_ne {s : Sign} {m : ℕ} {q : ℤ} (h : m ≠ 0) :
    assemble s m q = .finite s m q (Nat.pos_of_ne_zero h) := dif_neg h

theorem unpack_of_isFinite {x : Float} (h : x.isFinite) :
    x.toModel.unpack = assemble (signOf x) (significand x) (exponent x) := by
  rw [unpack_eq, if_neg ((isFinite_iff x).1 h)]
  rfl

/-- The double `±m · 2 ^ q`, for a canonical pair. -/
def ofParts (s : Sign) (m : ℕ) (q : ℤ) : Float := .ofModel (.pack (assemble s m q))

theorem IsCanonical.zero : IsCanonical 0 (-1074) := by constructor <;> decide

theorem toBits_ofParts (s : Sign) {m : ℕ} {q : ℤ} (h : IsCanonical m q) :
    (ofParts s m q).toBits.toNat = bitsOf s m q := by
  by_cases hm : m = 0
  · have hq : q = -1074 := by
      have := h.leading
      simp only [leadingBit] at this
      omega
    subst hm hq
    cases s <;> decide
  · show (Float.Model.pack (assemble s m q)).toBits.toNat = _
    rw [assemble, dif_neg hm]
    exact toBits_pack_finite s h (Nat.pos_of_ne_zero hm)

theorem eq_of_toNat_toBits {x y : Float} (h : x.toBits.toNat = y.toBits.toNat) : x = y :=
  eq_of_toBits_eq (UInt64.toNat_inj.1 h)

/-- A double with these bits is the double with these parts. -/
theorem eq_ofParts {x : Float} {s : Sign} {m : ℕ} {q : ℤ} (h : IsCanonical m q)
    (hx : x.toBits.toNat = bitsOf s m q) : x = ofParts s m q :=
  eq_of_toNat_toBits (hx.trans (toBits_ofParts s h).symm)

section ofParts

variable (s : Sign) {m : ℕ} {q : ℤ} (h : IsCanonical m q)
include h

theorem significand_ofParts : significand (ofParts s m q) = m :=
  (parts_of_toBits h (toBits_ofParts s h)).2.1

theorem exponent_ofParts : exponent (ofParts s m q) = q :=
  (parts_of_toBits h (toBits_ofParts s h)).2.2.1

theorem signOf_ofParts : signOf (ofParts s m q) = s :=
  (parts_of_toBits h (toBits_ofParts s h)).2.2.2

theorem isFinite_ofParts : (ofParts s m q).isFinite :=
  (isFinite_iff _).2 (parts_of_toBits h (toBits_ofParts s h)).1

end ofParts

/-- The bits of a double, put together again. -/
theorem toBits_eq_bitsOf {x : Float} (h : x.isFinite) :
    x.toBits.toNat = bitsOf (signOf x) (significand x) (exponent x) := by
  have hbound : x.toBits.toNat < 2 ^ 64 := x.toBits.toNat_lt
  have hmax := (isFinite_iff x).1 h
  have hsig : significand x = if exponentField x = 0 then fraction x else leadingBit + fraction x :=
    rfl
  have hexp : exponent x = (max (exponentField x) 1 : ℕ) - 1075 := rfl
  have hfield : exponentField x = x.toBits.toNat / leadingBit % 2048 := rfl
  have hfraction : fraction x = x.toBits.toNat % leadingBit := rfl
  have hsign :
      signWeight (signOf x) = x.toBits.toNat / leadingBit / 2048 * (2048 * leadingBit) := by
    simp only [signOf, isNegative]
    by_cases hneg : x.toBits.toNat / leadingBit / 2048 = 1
    · simp [hneg, signWeight]
    · have : x.toBits.toNat / leadingBit / 2048 = 0 := by
        simp only [leadingBit] at *
        omega
      simp [this, signWeight]
  simp only [bitsOf]
  rw [hsign]
  simp only [leadingBit] at *
  split at hsig <;> omega

/-- **A finite double is put together from its parts.** -/
theorem ofParts_parts {x : Float} (h : x.isFinite) :
    ofParts (signOf x) (significand x) (exponent x) = x :=
  (eq_ofParts (isCanonical_parts h) (toBits_eq_bitsOf h)).symm

/-- Reading bits that spell a canonical pair. -/
theorem ofBits_eq_ofParts {a : UInt64} {s : Sign} {m : ℕ} {q : ℤ} (h : IsCanonical m q)
    (ha : a.toNat = bitsOf s m q) : Float.ofBits a = ofParts s m q := by
  have hbits : a = (ofParts s m q).toBits := UInt64.toNat_inj.1 (ha.trans (toBits_ofParts s h).symm)
  have hunpack := unpack_of_isFinite (isFinite_ofParts s h)
  rw [signOf_ofParts s h, significand_ofParts s h, exponent_ofParts s h] at hunpack
  subst hbits
  show Float.ofModel (.pack (ofParts s m q).toModel.unpack) = _
  rw [hunpack]
  rfl

/-! ### Signs -/

theorem neg_eq_ofParts {x : Float} (h : x.isFinite) :
    -x = ofParts (-signOf x) (significand x) (exponent x) := by
  show Float.ofModel (.pack x.toModel.unpack.neg) = _
  rw [unpack_of_isFinite h]
  rw [ofParts, assemble, assemble]
  by_cases hm : significand x = 0
  · rw [dif_pos hm, dif_pos hm]
    rfl
  · rw [dif_neg hm, dif_neg hm]
    rfl

theorem abs_eq_ofParts {x : Float} (h : x.isFinite) :
    x.abs = ofParts .positive (significand x) (exponent x) := by
  show Float.ofModel (.pack x.toModel.unpack.abs) = _
  rw [unpack_of_isFinite h]
  rw [ofParts, assemble, assemble]
  by_cases hm : significand x = 0
  · rw [dif_pos hm, dif_pos hm]
    rfl
  · rw [dif_neg hm, dif_neg hm]
    rfl

/-- A double is its magnitude with its sign put back. -/
theorem signed_abs {x : Float} (h : x.isFinite) :
    (if isNegative x then -x.abs else x.abs) = x := by
  have hc := isCanonical_parts h
  have habs := abs_eq_ofParts h
  by_cases hneg : isNegative x
  · have hsign : signOf x = .negative := by simp [signOf, hneg]
    have hfinite : x.abs.isFinite := habs ▸ isFinite_ofParts .positive hc
    rw [if_pos hneg, neg_eq_ofParts hfinite, habs, signOf_ofParts _ hc, significand_ofParts _ hc,
      exponent_ofParts _ hc]
    conv_rhs => rw [← ofParts_parts h, hsign]
    rfl
  · have hsign : signOf x = .positive := by simp [signOf, hneg]
    rw [if_neg hneg, habs]
    conv_rhs => rw [← ofParts_parts h, hsign]

/-! ### Exact values -/

/-- The number `±m · 2 ^ q`. -/
def valueOf (s : Sign) (m : ℕ) (q : ℤ) : ℚ := (s.apply m : ℤ) * 2 ^ q

/-- **The exact value of a finite double.** -/
theorem toRat?_of_isFinite {x : Float} (h : x.isFinite) :
    toRat? x = some (valueOf (signOf x) (significand x) (exponent x)) := by
  have hsigned : (if isNegative x then -(significand x : ℤ) else significand x) =
      (signOf x).apply (significand x) := by
    simp only [signOf]
    split <;> rfl
  simp only [toRat?]
  rw [if_pos h]
  simp only [ratio, valueOf]
  by_cases hq : 0 ≤ exponent x
  · obtain ⟨k, hk⟩ := Int.eq_ofNat_of_zero_le hq
    simp only [hk, Rat.mkRat_eq_div]
    rw [← hsigned]
    split <;> simp
  · obtain ⟨k, hk⟩ := Int.eq_ofNat_of_zero_le (a := -exponent x) (by omega)
    have hk' : exponent x = -(k : ℤ) := by omega
    simp only [hq, if_false, hk, Rat.mkRat_eq_div]
    rw [← hsigned, hk']
    split <;> simp [zpow_neg, div_eq_mul_inv]

theorem toRat?_ofParts (s : Sign) {m : ℕ} {q : ℤ} (h : IsCanonical m q) :
    toRat? (ofParts s m q) = some (valueOf s m q) := by
  rw [toRat?_of_isFinite (isFinite_ofParts s h), signOf_ofParts s h, significand_ofParts s h,
    exponent_ofParts s h]

theorem toRat?_zero : toRat? 0.0 = some 0 := by
  rw [eq_ofParts (x := 0.0) (s := .positive) .zero (by decide), toRat?_ofParts .positive .zero]
  simp [valueOf, Sign.apply]

theorem toRat?_one : toRat? 1.0 = some 1 := by decide

theorem toRat?_half : toRat? 0.5 = some (1 / 2) := by
  have h : IsCanonical leadingBit (-53) := by constructor <;> decide
  rw [eq_ofParts (x := 0.5) (s := .positive) h (by decide), toRat?_ofParts .positive h]
  norm_num [valueOf, Sign.apply, leadingBit]

theorem isFinite_of_toRat? {x : Float} {r : ℚ} (h : toRat? x = some r) : x.isFinite := by
  simp only [toRat?] at h
  split at h
  · assumption
  · cases h

/-! ### The order of doubles -/

/-- Of two canonical pairs the one with the larger exponent has the larger magnitude. -/
theorem IsCanonical.magnitude_lt {m m' : ℕ} {q q' : ℤ} (h : IsCanonical m q)
    (h' : IsCanonical m' q') (hq : q < q') : (m : ℚ) * 2 ^ q < m' * 2 ^ q' := by
  have hm' : leadingBit ≤ m' := h'.leading.resolve_right (by have := h.ge; omega)
  have hm : (m : ℚ) < 2 * (leadingBit : ℕ) := by exact_mod_cast h.lt
  have hpow : (2 : ℚ) ^ (q + 1) ≤ 2 ^ q' := zpow_le_zpow_right₀ (by norm_num) (by omega)
  calc (m : ℚ) * 2 ^ q < 2 * (leadingBit : ℕ) * 2 ^ q :=
        mul_lt_mul_of_pos_right hm (by positivity)
    _ = (leadingBit : ℕ) * 2 ^ (q + 1) := by rw [zpow_add_one₀ (by norm_num)]; ring
    _ ≤ (leadingBit : ℕ) * 2 ^ q' := by gcongr
    _ ≤ m' * 2 ^ q' := by gcongr

theorem compare_magnitude {m m' : ℕ} {q q' : ℤ} (h : IsCanonical m q) (h' : IsCanonical m' q') :
    (compare q q').then (compare m m') = compare ((m : ℚ) * 2 ^ q) (m' * 2 ^ q') := by
  rcases lt_trichotomy q q' with hq | rfl | hq
  · rw [compare_lt_iff_lt.2 hq, compare_lt_iff_lt.2 (h.magnitude_lt h' hq)]
    rfl
  · have hpos : (0 : ℚ) < 2 ^ q := by positivity
    rw [compare_eq_iff_eq.2 rfl]
    rcases lt_trichotomy m m' with hm | rfl | hm
    · rw [compare_lt_iff_lt.2 hm, compare_lt_iff_lt.2]
      · rfl
      · exact mul_lt_mul_of_pos_right (by exact_mod_cast hm) hpos
    · simp
    · rw [compare_gt_iff_gt.2 hm, compare_gt_iff_gt.2]
      · rfl
      · exact mul_lt_mul_of_pos_right (by exact_mod_cast hm) hpos
  · rw [compare_gt_iff_gt.2 hq, compare_gt_iff_gt.2 (h'.magnitude_lt h hq)]
    rfl

theorem valueOf_positive (m : ℕ) (q : ℤ) : valueOf .positive m q = m * 2 ^ q := by
  simp [valueOf, Sign.apply]

theorem valueOf_negative (m : ℕ) (q : ℤ) : valueOf .negative m q = -(m * 2 ^ q) := by
  simp [valueOf, Sign.apply]

@[simp] theorem valueOf_zero (s : Sign) (q : ℤ) : valueOf s 0 q = 0 := by
  cases s <;> simp [valueOf, Sign.apply]

/-- **The order of the core model is that of exact values.** -/
theorem compare_assemble (s s' : Sign) {m m' : ℕ} {q q' : ℤ} (h : IsCanonical m q)
    (h' : IsCanonical m' q') :
    (assemble s m q).compare (assemble s' m' q') =
      some (compare (valueOf s m q) (valueOf s' m' q')) := by
  have hpos {n : ℕ} (hn : n ≠ 0) (e : ℤ) : (0 : ℚ) < n * 2 ^ e :=
    mul_pos (by exact_mod_cast Nat.pos_of_ne_zero hn) (by positivity)
  have hswap (a b : ℚ) : (compare a b).swap = compare (-a) (-b) := by
    rcases lt_trichotomy a b with hab | rfl | hab
    · rw [compare_lt_iff_lt.2 hab, compare_gt_iff_gt.2 (neg_lt_neg hab)]; rfl
    · simp
    · rw [compare_gt_iff_gt.2 hab, compare_lt_iff_lt.2 (neg_lt_neg hab)]; rfl
  unfold assemble
  by_cases hm : m = 0 <;> by_cases hm' : m' = 0
  · rw [dif_pos hm, dif_pos hm', hm, hm', valueOf_zero, valueOf_zero, compare_eq_iff_eq.2 rfl]
    rfl
  · rw [dif_pos hm, dif_neg hm', hm, valueOf_zero]
    have := hpos hm' q'
    cases s'
    · rw [valueOf_negative, compare_gt_iff_gt.2 (by linarith)]; rfl
    · rw [valueOf_positive, compare_lt_iff_lt.2 (by linarith)]; rfl
  · rw [dif_neg hm, dif_pos hm', hm', valueOf_zero]
    have := hpos hm q
    cases s
    · rw [valueOf_negative, compare_lt_iff_lt.2 (by linarith)]; rfl
    · rw [valueOf_positive, compare_gt_iff_gt.2 (by linarith)]; rfl
  · rw [dif_neg hm, dif_neg hm']
    have hv := hpos hm q
    have hv' := hpos hm' q'
    cases s <;> cases s'
    · rw [valueOf_negative, valueOf_negative, ← hswap, ← compare_magnitude h h']; rfl
    · rw [valueOf_negative, valueOf_positive, compare_lt_iff_lt.2 (by linarith)]; rfl
    · rw [valueOf_positive, valueOf_negative, compare_gt_iff_gt.2 (by linarith)]; rfl
    · rw [valueOf_positive, valueOf_positive, ← compare_magnitude h h']; rfl

theorem compare_unpack {x y : Float} {a b : ℚ} (hx : toRat? x = some a) (hy : toRat? y = some b) :
    x.toModel.unpack.compare y.toModel.unpack = some (compare a b) := by
  have hfx := isFinite_of_toRat? hx
  have hfy := isFinite_of_toRat? hy
  rw [toRat?_of_isFinite hfx, Option.some.injEq] at hx
  rw [toRat?_of_isFinite hfy, Option.some.injEq] at hy
  rw [unpack_of_isFinite hfx, unpack_of_isFinite hfy,
    compare_assemble _ _ (isCanonical_parts hfx) (isCanonical_parts hfy), hx, hy]

/-- **Comparing finite doubles is comparing their exact values.** -/
theorem lt_iff_of_toRat? {x y : Float} {a b : ℚ} (hx : toRat? x = some a)
    (hy : toRat? y = some b) : x < y ↔ a < b := by
  show decide (x.toModel.unpack.lt y.toModel.unpack = true) = true ↔ _
  rw [decide_eq_true_iff, UnpackedFloat.lt, compare_unpack hx hy, ← compare_lt_iff_lt]
  simp

theorem le_iff_of_toRat? {x y : Float} {a b : ℚ} (hx : toRat? x = some a)
    (hy : toRat? y = some b) : x ≤ y ↔ a ≤ b := by
  show decide (x.toModel.unpack.le y.toModel.unpack = true) = true ↔ _
  rw [decide_eq_true_iff, UnpackedFloat.le, compare_unpack hx hy, ← compare_le_iff_le,
    Option.any_some]
  exact Ordering.isLE_iff_ne_gt

end OptModel.Binary64
