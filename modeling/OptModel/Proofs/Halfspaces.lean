import Mathlib.Algebra.Module.LinearMap.End
import Mathlib.Algebra.Order.Ring.Rat
import Mathlib.Tactic.Linarith

/-!
# Halfspaces

A linear functional over the points that finitely many halfspaces have in common is bounded, or
there is a direction that never leaves a halfspace and along which the functional grows. Nothing is
assumed of the space, and the numbers are rationals, so the direction is one of rationals as well.

The proof eliminates one halfspace at a time. A direction that suits all others but leaves this one
is used to move every point onto the boundary of this one; what is left is the same question for the
others, sheared along that direction.

## Main definitions

* `Halfspace`, `Halfspace.Contains` — a functional with a bound
* `Halfspace.Keeps` — a direction that never leaves
* `Halfspace.project`, `Halfspace.shear` — moving along a direction

## Main results

* `Halfspace.exists_ray_or_bound` — a direction to grow in, or a bound
-/

namespace OptModel

/-- The points at which a linear functional is at most `bound`. -/
structure Halfspace (V : Type) [AddCommGroup V] [Module ℚ V] where
  normal : V →ₗ[ℚ] ℚ
  bound : ℚ

namespace Halfspace

variable {V : Type} [AddCommGroup V] [Module ℚ V]

/-- Whether a point lies in a halfspace. -/
def Contains (h : Halfspace V) (x : V) : Prop := h.normal x ≤ h.bound

/-- Whether going along `d` never leaves a halfspace. -/
def Keeps (h : Halfspace V) (d : V) : Prop := h.normal d ≤ 0

theorem Keeps.contains {h : Halfspace V} {x d : V} (hd : h.Keeps d) (hx : h.Contains x) {t : ℚ}
    (ht : 0 ≤ t) : h.Contains (x + t • d) := by
  have hstep : t * h.normal d ≤ 0 := mul_nonpos_of_nonneg_of_nonpos ht hd
  rw [Contains, map_add, map_smul, smul_eq_mul]
  exact (add_le_of_nonpos_right hstep).trans hx

theorem Keeps.smul {h : Halfspace V} {d : V} (hd : h.Keeps d) {t : ℚ} (ht : 0 ≤ t) :
    h.Keeps (t • d) := by
  rw [Keeps, map_smul, smul_eq_mul]
  exact mul_nonpos_of_nonneg_of_nonpos ht hd

/-! ### Moving onto a boundary -/

/-- The point of the hyperplane `a = 0` that is reached from `x` along `d`, when `a d = 1`. -/
def project (a : V →ₗ[ℚ] ℚ) (d : V) : V →ₗ[ℚ] V := LinearMap.id - a.smulRight d

@[simp] theorem project_apply (a : V →ₗ[ℚ] ℚ) (d x : V) : project a d x = x - a x • d := rfl

theorem apply_project (f a : V →ₗ[ℚ] ℚ) (d x : V) :
    f (project a d x) = f x - a x * f d := by
  rw [project_apply, map_sub, map_smul, smul_eq_mul]

theorem apply_project_self {a : V →ₗ[ℚ] ℚ} {d : V} (hd : a d = 1) (x : V) :
    a (project a d x) = 0 := by
  rw [apply_project, hd, mul_one, sub_self]

/-- A halfspace seen along `d` from the boundary of `edge`. -/
def shear (edge : Halfspace V) (d : V) (h : Halfspace V) : Halfspace V where
  normal := h.normal.comp (project edge.normal d)
  bound := h.bound - edge.bound * h.normal d

theorem shear_contains {edge h : Halfspace V} {d x : V} (hd : h.Keeps d) (hx : h.Contains x)
    (hedge : edge.Contains x) : (shear edge d h).Contains x := by
  have hstep : edge.bound * h.normal d ≤ edge.normal x * h.normal d :=
    mul_le_mul_of_nonpos_right hedge hd
  show h.normal (project edge.normal d x) ≤ h.bound - edge.bound * h.normal d
  rw [apply_project]
  exact sub_le_sub hx hstep

theorem shear_keeps_iff (edge h : Halfspace V) (d x : V) :
    (shear edge d h).Keeps x ↔ h.Keeps (project edge.normal d x) := Iff.rfl

/-! ### Growing or bounded -/

variable {c : V →ₗ[ℚ] ℚ}

/-- Going along `d` never leaves any of the halfspaces, and `c` grows. -/
structure Ray (l : List (Halfspace V)) (c : V →ₗ[ℚ] ℚ) (d : V) : Prop where
  keeps : ∀ h ∈ l, h.Keeps d
  grows : 0 < c d

/-- `c` is at most `b` on what the halfspaces have in common. -/
def BoundedBy (l : List (Halfspace V)) (c : V →ₗ[ℚ] ℚ) (b : ℚ) : Prop :=
  ∀ x, (∀ h ∈ l, h.Contains x) → c x ≤ b

/-- A functional over the whole space grows somewhere unless it is zero. -/
theorem exists_ray_or_bound_nil (c : V →ₗ[ℚ] ℚ) :
    (∃ d, Ray [] c d) ∨ ∃ b, BoundedBy [] c b := by
  by_cases hzero : ∀ x, c x ≤ 0
  · exact .inr ⟨0, fun x _ => hzero x⟩
  · push Not at hzero
    obtain ⟨d, hd⟩ := hzero
    exact .inl ⟨d, nofun, hd⟩

/-- A ray that leaves one halfspace, at unit speed. -/
theorem exists_unit_ray {l : List (Halfspace V)} {edge : Halfspace V} {d : V} (hd : Ray l c d)
    (hnone : ¬ ∃ d, Ray (edge :: l) c d) : ∃ e, Ray l c e ∧ edge.normal e = 1 := by
  have hpos : 0 < edge.normal d := by
    refine not_le.1 fun hkeeps => hnone ⟨d, ?_, hd.grows⟩
    exact List.forall_mem_cons.2 ⟨hkeeps, hd.keeps⟩
  refine ⟨(edge.normal d)⁻¹ • d, ⟨fun h hh => ?_, ?_⟩, ?_⟩
  · exact (hd.keeps h hh).smul (inv_nonneg.2 hpos.le)
  · rw [map_smul, smul_eq_mul]
    exact mul_pos (inv_pos.2 hpos) hd.grows
  · rw [map_smul, smul_eq_mul, inv_mul_cancel₀ hpos.ne']

/-- **A functional over finitely many halfspaces grows along a ray or is bounded.** -/
theorem exists_ray_or_bound (l : List (Halfspace V)) (c : V →ₗ[ℚ] ℚ) :
    (∃ d, Ray l c d) ∨ ∃ b, BoundedBy l c b := by
  -- shearing changes the halfspaces that are left, so the induction is on how many there are
  induction hn : l.length generalizing l c with
  | zero =>
    rw [List.length_eq_zero_iff.1 hn]
    exact exists_ray_or_bound_nil c
  | succ n ih =>
    obtain ⟨edge, l, rfl⟩ := List.exists_cons_of_length_eq_add_one hn
    have hlength : l.length = n := Nat.succ.inj hn
    by_cases hnone : ∃ d, Ray (edge :: l) c d
    · exact .inl hnone
    right
    rcases ih l c hlength with ⟨d, hd⟩ | ⟨b, hb⟩
    · obtain ⟨e, he, hunit⟩ := exists_unit_ray hd hnone
      rcases ih (l.map (shear edge e)) (c.comp (project edge.normal e))
        ((List.length_map _).trans hlength) with ⟨f, hf⟩ | ⟨b, hb⟩
      · -- a ray of the sheared halfspaces runs along the boundary of `edge`
        refine absurd ⟨project edge.normal e f, ?_, hf.grows⟩ hnone
        refine List.forall_mem_cons.2 ⟨(apply_project_self hunit f).le, fun h hh => ?_⟩
        exact (shear_keeps_iff edge h e f).1 (hf.keeps _ (List.mem_map_of_mem hh))
      · refine ⟨b + edge.bound * c e, fun x hx => ?_⟩
        obtain ⟨hedge, hl⟩ := List.forall_mem_cons.1 hx
        have hproject : c (project edge.normal e x) ≤ b := by
          refine hb x (List.forall_mem_map.2 fun h hh => ?_)
          exact shear_contains (he.keeps h hh) (hl h hh) hedge
        have hstep : edge.normal x * c e ≤ edge.bound * c e :=
          mul_le_mul_of_nonneg_right hedge he.grows.le
        rw [apply_project] at hproject
        linarith
    · exact ⟨b, fun x hx => hb x fun h hh => hx h (List.mem_cons_of_mem edge hh)⟩

end Halfspace

end OptModel
