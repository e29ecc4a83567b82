import Mathlib.Data.List.Forall2

/-!
# Computations that can fail

A chain of computations ends well when every link does. Stated for a bind, for running a computation
over a list, and for the fold that runs a computation at every element.

## Main results

* `Except.bind_eq_ok_iff`, `Except.bind_eq_error_iff` — two links
* `Except.map_eq_ok_iff`, `Except.map_eq_error_iff` — one link
* `Except.mapM_eq_ok_iff`, `Except.mapM_eq_error_iff` — over a list
* `Except.foldlM_map` — folding while computing is computing and then folding
-/

namespace Except

variable {ε α β γ : Type}

theorem bind_eq_ok_iff {x : Except ε α} {f : α → Except ε β} {b : β} :
    (x >>= f) = .ok b ↔ ∃ a, x = .ok a ∧ f a = .ok b := by
  cases x with
  | error e => exact ⟨nofun, nofun⟩
  | ok a => exact ⟨fun h => ⟨a, rfl, h⟩, fun ⟨_, rfl, h⟩ => h⟩

theorem bind_eq_error_iff {x : Except ε α} {f : α → Except ε β} {e : ε} :
    (x >>= f) = .error e ↔ x = .error e ∨ ∃ a, x = .ok a ∧ f a = .error e := by
  cases x with
  | error e' =>
    constructor
    · intro h
      exact .inl (congrArg _ (Except.error.inj h))
    · rintro (h | ⟨a, ha, -⟩)
      · exact congrArg _ (Except.error.inj h)
      · cases ha
  | ok a =>
    constructor
    · intro h
      exact .inr ⟨a, rfl, h⟩
    · rintro (h | ⟨b, hb, h⟩)
      · cases h
      · rw [Except.ok.inj hb]
        exact h

theorem map_eq_ok_iff {x : Except ε α} {f : α → β} {b : β} :
    x.map f = .ok b ↔ ∃ a, x = .ok a ∧ f a = b := by
  cases x with
  | error e => exact ⟨nofun, nofun⟩
  | ok a =>
    constructor
    · intro h
      exact ⟨a, rfl, Except.ok.inj h⟩
    · rintro ⟨_, ha, rfl⟩
      rw [← Except.ok.inj ha]
      rfl

theorem map_eq_error_iff {x : Except ε α} {f : α → β} {e : ε} :
    x.map f = .error e ↔ x = .error e := by
  cases x with
  | error e' =>
    constructor
    · intro h
      exact congrArg _ (Except.error.inj h)
    · intro h
      exact congrArg _ (Except.error.inj h)
  | ok a => exact ⟨nofun, nofun⟩

/-- **Over a list, all computations end well or none does.** -/
theorem mapM_eq_ok_iff {f : α → Except ε β} {l : List α} {results : List β} :
    l.mapM f = .ok results ↔ List.Forall₂ (fun a b => f a = .ok b) l results := by
  induction l generalizing results with
  | nil =>
    rw [List.mapM_nil, List.forall₂_nil_left_iff]
    exact ⟨fun h => (Except.ok.inj h).symm, fun h => h ▸ rfl⟩
  | cons a l ih =>
    rw [List.mapM_cons, bind_eq_ok_iff, List.forall₂_cons_left_iff]
    constructor
    · rintro ⟨b, hb, hrest⟩
      obtain ⟨bs, hbs, heq⟩ := bind_eq_ok_iff.1 hrest
      exact ⟨b, bs, hb, ih.1 hbs, (Except.ok.inj heq).symm⟩
    · rintro ⟨b, bs, hb, hbs, rfl⟩
      exact ⟨b, hb, bind_eq_ok_iff.2 ⟨bs, ih.2 hbs, rfl⟩⟩

/-- **Over a list, the first failure is the failure.** -/
theorem mapM_eq_error_iff {f : α → Except ε β} {l : List α} {e : ε} :
    l.mapM f = .error e ↔
      ∃ before a behind, l = before ++ a :: behind ∧ (∀ b ∈ before, ∃ c, f b = .ok c) ∧
        f a = .error e := by
  induction l with
  | nil => simp [pure, Except.pure]
  | cons a l ih =>
    have hcons : (a :: l).mapM f = .error e ↔
        f a = .error e ∨ (∃ c, f a = .ok c) ∧ l.mapM f = .error e := by
      rw [List.mapM_cons]
      cases f a with
      | error e' => simp [bind, Except.bind]
      | ok c => cases l.mapM f <;> simp [bind, Except.bind, pure, Except.pure]
    rw [hcons, ih]
    constructor
    · rintro (ha | ⟨ha, before, b, behind, rfl, hbefore, hb⟩)
      · exact ⟨[], a, l, rfl, List.forall_mem_nil _, ha⟩
      · exact ⟨a :: before, b, behind, rfl, List.forall_mem_cons.2 ⟨ha, hbefore⟩, hb⟩
    · rintro ⟨before, b, behind, hl, hbefore, hb⟩
      cases before with
      | nil =>
        obtain ⟨rfl, -⟩ := List.cons.inj hl
        exact .inl hb
      | cons b' before =>
        obtain ⟨rfl, rfl⟩ := List.cons.inj hl
        obtain ⟨ha, hbefore⟩ := List.forall_mem_cons.1 hbefore
        exact .inr ⟨ha, before, b, behind, rfl, hbefore, hb⟩

/-- Computations that agree element by element agree over the lists. -/
theorem mapM_congr {f : α → Except ε γ} {g : β → Except ε γ} {l : List α} {l' : List β}
    (h : List.Forall₂ (fun a b => f a = g b) l l') : l.mapM f = l'.mapM g := by
  induction h with
  | nil => rfl
  | cons hab _ ih => rw [List.mapM_cons, List.mapM_cons, hab, ih]

theorem mapM_map_right {g : β → γ} {f : α → Except ε β} (l : List α) :
    (l.mapM fun a => (f a).map g) = (l.mapM f).map (List.map g) := by
  induction l with
  | nil => rfl
  | cons a l ih =>
    rw [List.mapM_cons, List.mapM_cons, ih]
    cases f a with
    | error e => rfl
    | ok b =>
      cases l.mapM f with
      | error e => rfl
      | ok bs => rfl

/-- **Folding while computing** is computing everything first and then folding. -/
theorem foldlM_map {f : α → Except ε β} {g : γ → β → γ} (l : List α) (start : γ) :
    l.foldlM (fun sum a => (f a).map fun b => g sum b) start =
      (l.mapM f).map (List.foldl g start) := by
  induction l generalizing start with
  | nil => rfl
  | cons a l ih =>
    rw [List.foldlM_cons, List.mapM_cons]
    cases f a with
    | error e => rfl
    | ok b =>
      show l.foldlM _ (g start b) = _
      rw [ih]
      cases l.mapM f with
      | error e => rfl
      | ok bs => rfl

end Except
