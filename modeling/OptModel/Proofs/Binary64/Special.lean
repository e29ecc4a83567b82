import OptModel.Proofs.Binary64.Sums

/-!
# Infinities and NaN

A double is finite, a NaN or one of the two infinities. Products and differences of finite doubles
are no NaN, but they may overflow, and adding the two infinities to each other makes a NaN. That is
the only way in which a sum of doubles that are no NaN can become one, however many they are: at
some point an infinite partial sum meets the opposite infinity.

## Main definitions

* `Binary64.Opposite` — two infinities of different signs

## Main results

* `Binary64.classify` — the kinds of doubles
* `Binary64.isNaN_sub_finite`, `isNaN_finite_sub`, `isNaN_mul`, `isNaN_abs` — what makes no NaN
* `Binary64.isNaN_add_iff`, `isNaN_foldl_add_iff` — what makes one
-/

namespace OptModel.Binary64

open Float.Model Float.Model.UnpackedFloat

variable {x y : Float}

/-! ### The kinds of doubles -/

/-- **A double is finite, a NaN or an infinity.** -/
theorem classify (x : Float) : x.isFinite ∨ x.isNaN ∨ x = infinity ∨ x = -infinity := by
  by_cases hfinite : x.isFinite
  · exact .inl hfinite
  have hfield : exponentField x = 2047 := not_ne_iff.1 (mt (isFinite_iff x).2 hfinite)
  by_cases hfraction : fraction x = 0
  · have hlt : x.toBits.toNat < 2 ^ 64 := x.toBits.toNat_lt
    have hfield : x.toBits.toNat / leadingBit % 2048 = 2047 := hfield
    have hfraction : x.toBits.toNat % leadingBit = 0 := hfraction
    have hinfinity : infinity.toBits.toNat = 2047 * leadingBit := by decide
    have hneg : (-infinity).toBits.toNat = 4095 * leadingBit := by decide
    have hbits : x.toBits.toNat = 2047 * leadingBit ∨ x.toBits.toNat = 4095 * leadingBit := by
      simp only [leadingBit] at *
      omega
    rcases hbits with hbits | hbits
    · exact .inr (.inr (.inl (eq_of_toNat_toBits (hbits.trans hinfinity.symm))))
    · exact .inr (.inr (.inr (eq_of_toNat_toBits (hbits.trans hneg.symm))))
  · refine .inr (.inl ?_)
    show x.toModel.unpack.isNaN = true
    rw [unpack_eq, if_pos hfield, if_neg hfraction]
    rfl

theorem unpack_neg_infinity : (-infinity).toModel.unpack = .infinity .negative := by
  rw [unpack_eq, if_pos (by decide), if_pos (by decide)]
  rfl

theorem lt_infinity (hx : x.isFinite) : x < infinity := by
  have hfinite : x.toModel.unpack.isFinite = true := hx
  rw [lt_iff_compare, unpack_infinity]
  cases hu : x.toModel.unpack with
  | notANumber | infinity => exact nomatch hu ▸ hfinite
  | zero s | finite s => cases s <;> rfl

theorem neg_infinity_lt (hx : x.isFinite) : -infinity < x := by
  have hfinite : x.toModel.unpack.isFinite = true := hx
  rw [lt_iff_compare, unpack_neg_infinity]
  cases hu : x.toModel.unpack with
  | notANumber | infinity => exact nomatch hu ▸ hfinite
  | zero s | finite s => cases s <;> rfl

/-! ### What makes no NaN -/

theorem isFinite_unpacked_mul {u v : UnpackedFloat} (hu : u.isFinite = true)
    (hv : v.isFinite = true) : (UnpackedFloat.mul Format.binary64 u v).isFinite = true := by
  cases u with
  | notANumber | infinity => exact nomatch hu
  | zero s =>
    cases v with
    | notANumber | infinity => exact nomatch hv
    | zero | finite => rfl
  | finite s m e hm =>
    cases v with
    | notANumber | infinity => exact nomatch hv
    | zero => rfl
    | finite => exact isFinite_roundWithAccuracy ..

theorem isFinite_unpacked_sub {u v : UnpackedFloat} (hu : u.isFinite = true)
    (hv : v.isFinite = true) : (UnpackedFloat.sub Format.binary64 u v).isFinite = true := by
  cases u with
  | notANumber | infinity => exact nomatch hu
  | zero s =>
    cases v with
    | notANumber | infinity => exact nomatch hv
    | zero s' => cases s <;> cases s' <;> rfl
    | finite => rfl
  | finite s m e hm =>
    cases v with
    | notANumber | infinity => exact nomatch hv
    | zero => rfl
    | finite => exact isFinite_normalize ..

theorem notANumber_sub (u : UnpackedFloat) :
    UnpackedFloat.sub Format.binary64 .notANumber u = .notANumber := by
  cases u <;> rfl

theorem sub_notANumber (u : UnpackedFloat) :
    UnpackedFloat.sub Format.binary64 u .notANumber = .notANumber := by
  cases u <;> rfl

/-- **A product of finite doubles is no NaN.** -/
theorem isNaN_mul (hx : x.isFinite) (hy : y.isFinite) : (x * y).isNaN = false :=
  isNaN_pack (isFinite_unpacked_mul hx hy)

/-- Taking a finite double away makes no NaN and mends none. -/
theorem isNaN_sub_finite (hy : y.isFinite) : (x - y).isNaN = x.isNaN := by
  have hfinite : y.toModel.unpack.isFinite = true := hy
  show (Float.Model.pack (UnpackedFloat.sub Format.binary64 x.toModel.unpack
    y.toModel.unpack)).unpack.isNaN = x.toModel.unpack.isNaN
  cases hu : x.toModel.unpack with
  | notANumber =>
    rw [notANumber_sub]
    rfl
  | infinity s =>
    cases hv : y.toModel.unpack with
    | notANumber | infinity => exact nomatch hv ▸ hfinite
    | zero | finite =>
      show (Float.Model.pack (.infinity s)).unpack.isNaN = _
      rw [unpack_pack_infinity]
  | zero | finite => exact isNaN_pack (isFinite_unpacked_sub rfl hfinite)

/-- Taking something away from a finite double makes no NaN and mends none. -/
theorem isNaN_finite_sub (hx : x.isFinite) : (x - y).isNaN = y.isNaN := by
  have hfinite : x.toModel.unpack.isFinite = true := hx
  show (Float.Model.pack (UnpackedFloat.sub Format.binary64 x.toModel.unpack
    y.toModel.unpack)).unpack.isNaN = y.toModel.unpack.isNaN
  cases hv : y.toModel.unpack with
  | notANumber =>
    rw [sub_notANumber]
    rfl
  | infinity s =>
    cases hu : x.toModel.unpack with
    | notANumber | infinity => exact nomatch hu ▸ hfinite
    | zero | finite =>
      show (Float.Model.pack (.infinity (-s))).unpack.isNaN = _
      rw [unpack_pack_infinity]
      rfl
  | zero | finite => exact isNaN_pack (isFinite_unpacked_sub hfinite rfl)

/-- A magnitude is a NaN just when what it is the magnitude of is one. -/
theorem isNaN_abs (x : Float) : x.abs.isNaN = x.isNaN := by
  show (Float.Model.pack x.toModel.unpack.abs).unpack.isNaN = x.toModel.unpack.isNaN
  cases x.toModel.unpack with
  | notANumber => rfl
  | infinity s | zero s => cases s <;> rfl
  | finite s m e hm => exact isNaN_pack_finite .positive e hm

/-! ### What makes a NaN -/

/-- Two infinities of different signs. -/
def Opposite (x y : Float) : Prop := x = infinity ∧ y = -infinity ∨ x = -infinity ∧ y = infinity

theorem not_opposite_self (x : Float) : ¬ Opposite x x := by
  have hne : infinity ≠ -infinity := fun h => absurd (congrArg Float.toBits h) (by decide)
  rintro (⟨h, h'⟩ | ⟨h, h'⟩)
  · exact hne (h.symm.trans h')
  · exact hne (h'.symm.trans h)

theorem not_opposite_of_isFinite (h : x.isFinite ∨ y.isFinite) : ¬ Opposite x y := by
  rintro (⟨rfl, rfl⟩ | ⟨rfl, rfl⟩)
  · exact h.elim (by decide) (by decide)
  · exact h.elim (by decide) (by decide)

theorem unpack_add_of_infinity_right {s : Sign} (hx : x.isFinite)
    (hy : y.toModel.unpack = .infinity s) : (x + y).toModel.unpack = .infinity s := by
  have hfinite : x.toModel.unpack.isFinite = true := hx
  rw [unpack_add, hy]
  cases hu : x.toModel.unpack with
  | notANumber | infinity => exact nomatch hu ▸ hfinite
  | zero | finite => exact unpack_pack_infinity s

/-- **A sum of two numbers is a NaN** just when they are opposite infinities. -/
theorem isNaN_add_iff (hx : x.isNaN = false) (hy : y.isNaN = false) :
    (x + y).isNaN ↔ Opposite x y := by
  have hfinite (hsum : (x + y).isNaN = false) (h : x.isFinite ∨ y.isFinite) :
      (x + y).isNaN ↔ Opposite x y := by
    rw [hsum]
    exact iff_of_false Bool.false_ne_true (not_opposite_of_isFinite h)
  have hinfinite {s : Sign} (hsum : (x + y).toModel.unpack = .infinity s) :
      (x + y).isNaN = false := by
    show (x + y).toModel.unpack.isNaN = false
    rw [hsum]
    rfl
  rcases classify y with hyf | hynan | rfl | rfl
  · exact hfinite (isNaN_add hx hyf) (.inr hyf)
  · exact absurd (hy.symm.trans hynan) Bool.false_ne_true
  · rcases classify x with hxf | hxnan | rfl | rfl
    · exact hfinite (hinfinite (unpack_add_of_infinity_right hxf unpack_infinity)) (.inl hxf)
    · exact absurd (hx.symm.trans hxnan) Bool.false_ne_true
    · exact iff_of_false (by decide) (not_opposite_self _)
    · exact iff_of_true (by decide) (.inr ⟨rfl, rfl⟩)
  · rcases classify x with hxf | hxnan | rfl | rfl
    · exact hfinite (hinfinite (unpack_add_of_infinity_right hxf unpack_neg_infinity)) (.inl hxf)
    · exact absurd (hx.symm.trans hxnan) Bool.false_ne_true
    · exact iff_of_true (by decide) (.inl ⟨rfl, rfl⟩)
    · exact iff_of_false (by decide) (not_opposite_self _)

/-- **A sum of numbers is a NaN** just when, added up from the left, an infinite partial sum meets
the opposite infinity. -/
theorem isNaN_foldl_add_iff {start : Float} {cs : List Float} (hstart : start.isNaN = false)
    (hcs : ∀ c ∈ cs, c.isNaN = false) :
    (cs.foldl (· + ·) start).isNaN ↔
      ∃ before c after, cs = before ++ c :: after ∧ Opposite (before.foldl (· + ·) start) c := by
  induction cs using List.reverseRecOn with
  | nil =>
    rw [List.foldl_nil, hstart]
    refine iff_of_false Bool.false_ne_true ?_
    rintro ⟨before, c, after, hsplit, -⟩
    simp at hsplit
  | append_singleton cs c ih =>
    have hc : c.isNaN = false := hcs c (by simp)
    have ih := ih fun d hd => hcs d (List.mem_append_left _ hd)
    rw [List.foldl_append, List.foldl_cons, List.foldl_nil]
    constructor
    · intro h
      by_cases hsum : (cs.foldl (· + ·) start).isNaN
      · obtain ⟨before, d, after, rfl, hopposite⟩ := ih.1 hsum
        exact ⟨before, d, after ++ [c], by simp, hopposite⟩
      · exact ⟨cs, c, [], rfl, (isNaN_add_iff (Bool.eq_false_iff.2 hsum) hc).1 h⟩
    · rintro ⟨before, d, after, heq, hopposite⟩
      rcases List.eq_nil_or_concat after with rfl | ⟨after, e, rfl⟩
      · obtain ⟨rfl, hlast⟩ := List.append_inj' heq rfl
        obtain rfl := List.singleton_inj.1 hlast
        by_cases hsum : (cs.foldl (· + ·) start).isNaN
        · exact isNaN_add_of_isNaN (.inl hsum)
        · exact (isNaN_add_iff (Bool.eq_false_iff.2 hsum) hc).2 hopposite
      · have hsplit : cs ++ [c] = (before ++ d :: after) ++ [e] := by
          rw [heq]
          simp
        obtain ⟨rfl, -⟩ := List.append_inj' hsplit rfl
        exact isNaN_add_of_isNaN (.inl (ih.2 ⟨before, d, after, rfl, hopposite⟩))

end OptModel.Binary64
