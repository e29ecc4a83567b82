import OptModel.Proofs.Binary64.Order

/-!
# Adding finite doubles

The sum of two finite doubles is a number or an infinity, and what is infinite stays so whatever
finite double is added to it. So when finite doubles are added one after another the sum is never a
NaN, and it is finite just when it has been finite all along: one step that overflows is enough to
lose it, and nothing that is added later brings it back.

## Main results

* `Binary64.isNaN_add` — adding a finite double makes no NaN
* `Binary64.isFinite_of_isFinite_add` — a finite sum with a finite double has a finite summand
* `Binary64.isNaN_foldl_add`, `Binary64.isFinite_foldl_add_iff` — adding finite doubles in turn
-/

namespace OptModel.Binary64

open Float.Model Float.Model.UnpackedFloat

/-! ### Packing what is no NaN -/

theorem unpack_pack_infinity (s : Sign) :
    (Float.Model.pack (.infinity s)).unpack = .infinity s := by
  cases s <;> rfl

/-- Components with an exponent that is not all ones are those of a number. -/
theorem isNaN_unpack_packComponents (s : Sign) {e : BitVec 11} (he : e ≠ -1#11) (m : BitVec 52) :
    (UnpackedFloat.unpack Format.binary64
      (packComponents Format.binary64 s e m)).isNaN = false := by
  have hones : unpackExponent (packComponents Format.binary64 s e m) ≠ -1#11 := by
    rwa [unpackExponent_packComponents]
  generalize packComponents Format.binary64 s e m = bits at hones ⊢
  rw [unpack_fields, if_neg hones]
  by_cases hzero : unpackExponent bits = 0#11
  · rw [if_pos hzero]
    by_cases hfraction : unpackMantissa bits = 0#52
    · rw [dif_pos hfraction]
      rfl
    · rw [dif_neg hfraction]
      rfl
  · rw [if_neg hzero]
    rfl

theorem isNaN_pack_finite (s : Sign) {m : ℕ} (e : ℤ) (hm : 0 < m) :
    (Float.Model.pack (.finite s m e hm)).unpack.isNaN = false := by
  show (UnpackedFloat.unpack Format.binary64
    (UnpackedFloat.pack Format.binary64 (.finite s m e hm))).isNaN = false
  rw [pack_finite s hm rfl]
  split
  · -- too large to be packed: an infinity
    cases s <;> decide
  · next hlt =>
    split
    · refine isNaN_unpack_packComponents s (fun hones => ?_) _
      have hfield := congrArg BitVec.toNat hones
      simp at hfield hlt
      omega
    · exact isNaN_unpack_packComponents s (by decide) _

theorem isNaN_pack {u : UnpackedFloat} (h : u.isFinite = true) :
    (Float.Model.pack u).unpack.isNaN = false := by
  cases u with
  | notANumber => exact nomatch h
  | infinity s => exact nomatch h
  | zero s => cases s <;> rfl
  | finite s m e hm => exact isNaN_pack_finite s e hm

/-! ### Adding before packing -/

theorem isFinite_dite {s : Sign} {p : Prop} [Decidable p] {f : ¬ p → UnpackedFloat}
    (hf : ∀ h, (f h).isFinite = true) : (dite p (fun _ => zero s) f).isFinite = true := by
  by_cases h : p
  · rw [dif_pos h]
    rfl
  · rw [dif_neg h]
    exact hf h

/-- Rounding gives a zero or a mantissa, whatever the exponent. -/
theorem isFinite_roundWithAccuracy (s : Sign) (m : ℕ) (e : ℤ) (accuracy : Accuracy) :
    (roundWithAccuracy Format.binary64 s m e accuracy).isFinite = true := by
  rw [roundWithAccuracy]
  exact isFinite_dite fun _ => rfl

theorem isFinite_round (s : Sign) (m : ℕ) (e : ℤ) :
    (UnpackedFloat.round Format.binary64 s m e).isFinite = true := by
  rw [UnpackedFloat.round]
  exact isFinite_roundWithAccuracy ..

theorem isFinite_normalize (k e : ℤ) (s : Sign) :
    (UnpackedFloat.normalize Format.binary64 k e s).isFinite = true := by
  rw [UnpackedFloat.normalize]
  split
  · exact isFinite_round ..
  · rfl
  · exact isFinite_round ..

variable {u v : UnpackedFloat}

theorem isFinite_add (hu : u.isFinite = true) (hv : v.isFinite = true) :
    (UnpackedFloat.add Format.binary64 u v).isFinite = true := by
  cases u with
  | notANumber | infinity => exact nomatch hu
  | zero s =>
    cases v with
    | notANumber | infinity => exact nomatch hv
    | zero s' => cases s <;> cases s' <;> rfl
    | finite => rfl
  | finite s m e hm =>
    cases v with
    | notANumber | infinity => exact nomatch hv
    | zero => rfl
    | finite => exact isFinite_normalize ..

theorem infinity_add (s : Sign) (hv : v.isFinite = true) :
    UnpackedFloat.add Format.binary64 (.infinity s) v = .infinity s := by
  cases v with
  | notANumber | infinity => exact nomatch hv
  | zero | finite => rfl

theorem notANumber_add : UnpackedFloat.add Format.binary64 .notANumber v = .notANumber := by
  cases v <;> rfl

theorem add_notANumber : UnpackedFloat.add Format.binary64 u .notANumber = .notANumber := by
  cases u <;> rfl

/-! ### Adding doubles -/

variable {x y : Float}

theorem unpack_add (x y : Float) :
    (x + y).toModel.unpack = (Float.Model.pack
      (UnpackedFloat.add Format.binary64 x.toModel.unpack y.toModel.unpack)).unpack := rfl

theorem unpack_add_of_infinity {s : Sign} (hx : x.toModel.unpack = .infinity s)
    (hy : y.isFinite) : (x + y).toModel.unpack = .infinity s := by
  rw [unpack_add, hx, infinity_add s hy, unpack_pack_infinity]

/-- A NaN makes a NaN of every sum. -/
theorem isNaN_add_of_isNaN (h : x.isNaN ∨ y.isNaN) : (x + y).isNaN := by
  show (x + y).toModel.unpack.isNaN = true
  rcases h with hx | hy
  · rw [unpack_add, unpack_of_isNaN hx, notANumber_add]
    rfl
  · rw [unpack_add, unpack_of_isNaN hy, add_notANumber]
    rfl

/-- **Adding a finite double makes no NaN.** -/
theorem isNaN_add (hx : x.isNaN = false) (hy : y.isFinite) : (x + y).isNaN = false := by
  show (x + y).toModel.unpack.isNaN = false
  cases hu : x.toModel.unpack with
  | notANumber =>
    have hnan : x.toModel.unpack.isNaN = false := hx
    rw [hu] at hnan
    exact nomatch hnan
  | infinity s =>
    rw [unpack_add_of_infinity hu hy]
    rfl
  | zero s =>
    rw [unpack_add, hu]
    exact isNaN_pack (isFinite_add rfl hy)
  | finite s m e hm =>
    rw [unpack_add, hu]
    exact isNaN_pack (isFinite_add rfl hy)

/-- **A finite sum with a finite double** has a finite summand. -/
theorem isFinite_of_isFinite_add (hy : y.isFinite) (h : (x + y).isFinite) : x.isFinite := by
  have hsum : (x + y).toModel.unpack.isFinite = true := h
  show x.toModel.unpack.isFinite = true
  cases hu : x.toModel.unpack with
  | notANumber =>
    rw [unpack_add, hu, notANumber_add] at hsum
    exact nomatch hsum
  | infinity s =>
    rw [unpack_add_of_infinity hu hy] at hsum
    exact nomatch hsum
  | zero s => rfl
  | finite s m e hm => rfl

/-- **Adding finite doubles in turn makes no NaN.** -/
theorem isNaN_foldl_add {start : Float} {cs : List Float} (hstart : start.isNaN = false)
    (hcs : ∀ c ∈ cs, c.isFinite) : (cs.foldl (· + ·) start).isNaN = false := by
  induction cs generalizing start with
  | nil => exact hstart
  | cons c cs ih =>
    obtain ⟨hc, hcs⟩ := List.forall_mem_cons.1 hcs
    exact ih (isNaN_add hstart hc) hcs

/-- **A sum of finite doubles is finite** when it has been finite after every step. -/
theorem isFinite_foldl_add_iff {start : Float} {cs : List Float} (hcs : ∀ c ∈ cs, c.isFinite) :
    (cs.foldl (· + ·) start).isFinite ↔
      ∀ before, before <+: cs → (before.foldl (· + ·) start).isFinite := by
  induction cs using List.reverseRecOn with
  | nil => simp
  | append_singleton cs c ih =>
    have hc : c.isFinite := hcs c (by simp)
    have ih := ih fun d hd => hcs d (List.mem_append_left _ hd)
    constructor
    · intro h before hbefore
      rcases List.prefix_concat_iff.1 hbefore with rfl | hbefore
      · exact h
      · rw [List.foldl_append] at h
        exact ih.1 (isFinite_of_isFinite_add hc h) before hbefore
    · intro h
      exact h _ List.prefix_rfl

end OptModel.Binary64
