import Mathlib.Data.List.Forall2
import Mathlib.Data.List.Nodup
import Mathlib.Data.Rat.Defs
import Mathlib.Algebra.Order.Ring.Rat
import Mathlib.Algebra.Order.Ring.Abs
import Mathlib.Tactic.Linarith
import Mathlib.Tactic.Ring

/-!
# Lists

Facts about two lists whose elements are related one by one, and about the elements of one list that
are counted, ranked or added up.

## Main results

* `List.exists_forall₂`, `List.forall₂_exists_map_iff` — finding the second list
* `List.rank_induction` — induction on the elements of a list along a rank
* `List.sum_map_filter` — summands that may be left out
* `List.abs_sum_sub_countP_le` — a sum of numbers near one and zero
-/

namespace List

variable {α β : Type} {R : α → β → Prop} {l : List α} {l' : List β}

/-- An element on the right has a partner on the left. -/
theorem Forall₂.exists_of_mem_right (h : Forall₂ R l l') {b : β} (hb : b ∈ l') :
    ∃ a ∈ l, R a b := by
  induction h with
  | nil => exact absurd hb not_mem_nil
  | cons hab _ ih =>
    rcases mem_cons.1 hb with rfl | hb
    · exact ⟨_, mem_cons_self, hab⟩
    · obtain ⟨a, ha, hr⟩ := ih hb
      exact ⟨a, mem_cons_of_mem _ ha, hr⟩

theorem Forall₂.imp_of_mem {S : α → β → Prop} (h : Forall₂ R l l')
    (hS : ∀ a ∈ l, ∀ b ∈ l', R a b → S a b) : Forall₂ S l l' := by
  induction h with
  | nil => exact .nil
  | cons hab _ ih =>
    refine .cons (hS _ mem_cons_self _ mem_cons_self hab) (ih fun a ha b hb => ?_)
    exact hS a (mem_cons_of_mem _ ha) b (mem_cons_of_mem _ hb)

/-- Elements on the right that are images of partners. -/
theorem forall₂_exists_map_iff {γ : Type} {f : γ → β} {S : α → γ → Prop} :
    Forall₂ (fun a b => ∃ c, S a c ∧ f c = b) l l' ↔ ∃ m, Forall₂ S l m ∧ m.map f = l' := by
  constructor
  · intro h
    induction h with
    | nil => exact ⟨[], .nil, rfl⟩
    | cons hab _ ih =>
      obtain ⟨c, hc, rfl⟩ := hab
      obtain ⟨m, hm, rfl⟩ := ih
      exact ⟨c :: m, .cons hc hm, rfl⟩
  · rintro ⟨m, hm, rfl⟩
    rw [forall₂_map_right_iff]
    exact hm.imp fun a c hac => ⟨c, hac, rfl⟩

/-- Partners for every element make a list. -/
theorem exists_forall₂ (h : ∀ a ∈ l, ∃ b, R a b) : ∃ l', Forall₂ R l l' := by
  induction l with
  | nil => exact ⟨[], .nil⟩
  | cons a l ih =>
    obtain ⟨b, hb⟩ := h a mem_cons_self
    obtain ⟨l', hl'⟩ := ih fun a' ha' => h a' (mem_cons_of_mem a ha')
    exact ⟨b :: l', .cons hb hl'⟩

/-- Two images of one list. -/
theorem forall₂_map_same {γ : Type} {f : γ → α} {g : γ → β} {m : List γ}
    (h : ∀ c ∈ m, R (f c) (g c)) : Forall₂ R (m.map f) (m.map g) := by
  rw [forall₂_map_left_iff, forall₂_map_right_iff, forall₂_same]
  exact h

theorem forall₂_flatMap_same {γ : Type} {f : γ → List α} {g : γ → List β} {m : List γ}
    (h : ∀ c ∈ m, Forall₂ R (f c) (g c)) : Forall₂ R (m.flatMap f) (m.flatMap g) := by
  induction m with
  | nil => exact .nil
  | cons c m ih =>
    rw [flatMap_cons, flatMap_cons]
    exact rel_append (h c mem_cons_self) (ih fun d hd => h d (mem_cons_of_mem c hd))

/-- A relation that is decided by the left element. -/
theorem Forall₂.iff_forall_left {S : α → β → Prop} {p : α → Prop} (h : Forall₂ R l l')
    (hp : ∀ a ∈ l, ∀ b, R a b → (S a b ↔ p a)) : Forall₂ S l l' ↔ ∀ a ∈ l, p a := by
  induction h with
  | nil => exact ⟨fun _ _ ha => absurd ha not_mem_nil, fun _ => .nil⟩
  | @cons a b l l' hab _ ih =>
    rw [forall₂_cons, forall_mem_cons, hp a mem_cons_self b hab,
      ih fun a ha => hp a (mem_cons_of_mem _ ha)]

/-- A relation that sees the left elements through `f` only. -/
theorem Forall₂.of_map_left_eq {γ : Type} {f : α → γ} {m : List α} (h : Forall₂ R l l')
    (heq : m.map f = l.map f) (hR : ∀ a a' b, R a b → f a' = f a → R a' b) : Forall₂ R m l' := by
  induction h generalizing m with
  | nil =>
    rw [map_eq_nil_iff.1 heq]
    exact .nil
  | cons hab _ ih =>
    obtain ⟨a', m, rfl, ha', hm⟩ := map_eq_cons_iff.1 heq
    exact .cons (hR _ a' _ hab ha') (ih hm)

theorem forall_mem_zipWith_iff {γ : Type} {f : α → β → γ} {p : γ → Prop} (h : Forall₂ R l l') :
    (∀ c ∈ zipWith f l l', p c) ↔ Forall₂ (fun a b => p (f a b)) l l' := by
  induction h with
  | nil => exact ⟨fun _ => .nil, fun _ _ hc => absurd hc not_mem_nil⟩
  | cons _ _ ih =>
    rw [zipWith_cons_cons, forall_mem_cons, forall₂_cons, ih]

/-- The only element with a property. -/
theorem exists_unique_of_countP_eq_one {p : α → Bool} (h : l.countP p = 1) :
    ∃ a ∈ l, p a = true ∧ ∀ b ∈ l, p b = true → b = a := by
  rw [countP_eq_length_filter, length_eq_one_iff] at h
  obtain ⟨a, ha⟩ := h
  have hmem : ∀ b, b ∈ l ∧ p b = true ↔ b = a := by
    intro b
    rw [← mem_filter, ha, mem_singleton]
  obtain ⟨hal, hpa⟩ := (hmem a).2 rfl
  exact ⟨a, hal, hpa, fun b hb hpb => (hmem b).1 ⟨hb, hpb⟩⟩

/-- Counting the elements of `l` that `g` takes into `m`, and those of `m` that come from `l`. -/
theorem countP_mem_eq [BEq β] [LawfulBEq β] {g : α → β} {m : List β} {p : β → Bool} (hl : l.Nodup)
    (hm : m.Nodup) (hg : Function.Injective g) (hp : ∀ b ∈ m, p b = true ↔ ∃ a ∈ l, g a = b) :
    l.countP (fun a => g a ∈ m) = m.countP p := by
  have hperm : ((l.filter fun a => g a ∈ m).map g).Perm (m.filter p) := by
    rw [perm_ext_iff_of_nodup ((hl.filter _).map hg) (hm.filter _)]
    intro b
    simp only [mem_map, mem_filter, decide_eq_true_iff]
    constructor
    · rintro ⟨a, ⟨ha, hmem⟩, rfl⟩
      exact ⟨hmem, (hp _ hmem).2 ⟨a, ha, rfl⟩⟩
    · rintro ⟨hmem, hb⟩
      obtain ⟨a, ha, rfl⟩ := (hp b hmem).1 hb
      exact ⟨a, ⟨ha, hmem⟩, rfl⟩
  rw [countP_eq_length_filter, countP_eq_length_filter, ← hperm.length_eq, length_map]

/-- **Induction along a rank** on the elements of a list. -/
theorem rank_induction (rank : α → ℚ) {p : α → Prop}
    (h : ∀ a ∈ l, (∀ b ∈ l, rank b < rank a → p b) → p a) : ∀ a ∈ l, p a := by
  have hcount : ∀ n, ∀ a ∈ l, l.countP (fun b => rank b < rank a) = n → p a := by
    intro n
    induction n using Nat.strong_induction_on with
    | _ n ih =>
      rintro a ha rfl
      refine h a ha fun b hb hlt => ih _ ?_ b hb rfl
      -- what lies below `b` lies below `a`, and so does `b`
      have hle : l.countP (fun c => rank c < rank b) ≤
          (l.filter fun c => rank c < rank a).countP fun c => rank c < rank b := by
        rw [countP_filter]
        refine le_of_eq (countP_congr fun c _ => ?_)
        simp only [decide_eq_true_iff, Bool.and_eq_true]
        exact ⟨fun hc => ⟨hc, hc.trans hlt⟩, fun hc => hc.1⟩
      refine hle.trans_lt ?_
      rw [countP_eq_length_filter (p := fun c => decide (rank c < rank a))]
      refine lt_of_le_of_ne countP_le_length fun heq => ?_
      rw [countP_eq_length] at heq
      have hb' := heq b (mem_filter.2 ⟨hb, by simpa using hlt⟩)
      simp at hb'
  exact fun a ha => hcount _ a ha rfl

/-- Summands that are zero may be left out. -/
theorem sum_map_filter {M : Type} [AddMonoid M] {p : α → Bool} {f : α → M}
    (h : ∀ a ∈ l, p a = false → f a = 0) : ((l.filter p).map f).sum = (l.map f).sum := by
  induction l with
  | nil => rfl
  | cons a l ih =>
    obtain ⟨ha, hl⟩ := forall_mem_cons.1 h
    cases hp : p a with
    | false => simp [hp, ha hp, ih hl]
    | true => simp [hp, ih hl]

/-! ### Sums of numbers that are near others -/

variable {f : α → ℚ} {t : ℚ}

/-- A sum of numbers near one and zero is near how many are near one. -/
theorem abs_sum_sub_countP_le {p : α → Bool} (h : ∀ a ∈ l, |f a - (if p a then 1 else 0)| ≤ t) :
    |(l.map f).sum - l.countP p| ≤ l.length * t := by
  induction l with
  | nil => simp
  | cons a l ih =>
    have ha := h a mem_cons_self
    have hl := ih fun b hb => h b (mem_cons_of_mem a hb)
    have hsplit : ((a :: l).map f).sum - ((a :: l).countP p : ℕ) =
        (f a - (if p a then 1 else 0)) + ((l.map f).sum - (l.countP p : ℕ)) := by
      rw [map_cons, sum_cons, countP_cons]
      push_cast
      split <;> ring
    calc |((a :: l).map f).sum - ((a :: l).countP p : ℕ)|
        ≤ |f a - (if p a then 1 else 0)| + |(l.map f).sum - (l.countP p : ℕ)| := by
          rw [hsplit]
          exact abs_add_le _ _
      _ ≤ t + l.length * t := add_le_add ha hl
      _ = ((a :: l).length : ℚ) * t := by
          rw [length_cons]
          push_cast
          ring

/-- Two sums with weights are no further apart than their terms. -/
theorem abs_sum_sub_sum_le {w g : α → ℚ} (hw : ∀ a ∈ l, 0 ≤ w a)
    (h : ∀ a ∈ l, |f a - g a| ≤ t) :
    |(l.map fun a => w a * f a).sum - (l.map fun a => w a * g a).sum| ≤ t * (l.map w).sum := by
  induction l with
  | nil => simp
  | cons a l ih =>
    have hl := ih (fun b hb => hw b (mem_cons_of_mem a hb)) fun b hb => h b (mem_cons_of_mem a hb)
    have hsplit : ((a :: l).map fun a => w a * f a).sum - ((a :: l).map fun a => w a * g a).sum =
        w a * (f a - g a) +
          ((l.map fun a => w a * f a).sum - (l.map fun a => w a * g a).sum) := by
      rw [map_cons, map_cons, sum_cons, sum_cons]
      ring
    have ha : |w a * (f a - g a)| ≤ w a * t := by
      rw [abs_mul, abs_of_nonneg (hw a mem_cons_self)]
      exact mul_le_mul_of_nonneg_left (h a mem_cons_self) (hw a mem_cons_self)
    rw [hsplit, map_cons, sum_cons]
    refine (abs_add_le _ _).trans ?_
    linarith

end List
