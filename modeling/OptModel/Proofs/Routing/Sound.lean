import OptModel.Proofs.Routing.Returned
import OptModel.Proofs.Routing.Rounds
import Mathlib.Tactic.Linarith

/-!
# Solutions drive tours

What satisfies the program of a plan drives tours, also if it satisfies it only nearly. With `n`
locations and a tolerance `t` with `n · t < 1`, an arc is within `t` of one or of zero, so a sum
over the arcs of one location, which is within `t` of one, has one driven arc in it: it can be off
by `n · t` and no more. The row that orders two customers makes the order variables rise along a
driven arc by `1 - n · t`, which is more than nothing. So the driven arcs make rounds.

## Main results

* `Plan.Feasible.makesRounds` — the driven arcs make rounds
* `Plan.compile_sound` — the tours that a solution drives
-/

namespace OptModel.Plan

/-- Which arcs are driven when `x` tells how often. -/
def drivenAt (x : ℕ → ℕ → ℚ) (i j : ℕ) : Bool := 1 / 2 < x i j

/-- A number near an integer and near the unit interval is near one or zero. -/
theorem abs_sub_indicator_le {x t : ℚ} (ht : 2 * t < 1) (hlower : -t ≤ x) (hupper : x ≤ 1 + t)
    {k : ℤ} (hk : |x - k| ≤ t) : |x - (if decide (1 / 2 < x) = true then 1 else 0)| ≤ t := by
  obtain ⟨hleft, hright⟩ := abs_le.1 hk
  have hk0 : -1 < k := by
    have : (-1 : ℚ) < k := by linarith
    exact_mod_cast this
  have hk2 : k < 2 := by
    have : (k : ℚ) < 2 := by linarith
    exact_mod_cast this
  have hcases : k = 0 ∨ k = 1 := by omega
  rcases hcases with rfl | rfl
  · have hx : ¬ 1 / 2 < x := by
      push_cast at hright
      linarith
    rw [if_neg (by simpa using hx)]
    simpa using hk
  · have hx : 1 / 2 < x := by
      push_cast at hleft
      linarith
    rw [if_pos (by simpa using hx)]
    simpa using hk

theorem two_mul_lt {plan : Plan} (hplan : plan.IsProper) {t : ℚ} (ht : 0 ≤ t)
    (hsmall : plan.size * t < 1) : 2 * t < 1 := by
  have hsize : (2 : ℚ) ≤ plan.size := by exact_mod_cast hplan.two_le_size
  have hle : 2 * t ≤ plan.size * t := mul_le_mul_of_nonneg_right hsize ht
  linarith

namespace Feasible

variable {plan : Plan} {t : ℚ} {x : ℕ → ℕ → ℚ} {u : ℕ → ℚ} (h : plan.Feasible t x u)
  (hplan : plan.IsProper) (ht : 0 ≤ t) (hsmall : plan.size * t < 1)
include h hplan ht hsmall

/-- An arc is near one or zero. -/
theorem arc_near : ∀ a ∈ plan.arcs,
    |x a.1 a.2 - (if drivenAt x a.1 a.2 then 1 else 0)| ≤ t := by
  intro a ha
  obtain ⟨hlower, hupper, k, hk⟩ := h.arc a ha
  exact abs_sub_indicator_le (two_mul_lt hplan ht hsmall) hlower hupper hk

omit h ht in
/-- A sum of arcs of one location that is near one has one driven arc. -/
theorem countP_eq_one {l : List ℕ} (hlength : l.length = plan.size - 1) {f : ℕ → ℚ} {p : ℕ → Bool}
    (hnear : ∀ j ∈ l, |f j - (if p j then 1 else 0)| ≤ t) (hsum : |(l.map f).sum - 1| ≤ t) :
    l.countP p = 1 := by
  have hcount := List.abs_sum_sub_countP_le hnear
  have hsize : (l.length : ℚ) = plan.size - 1 := by
    rw [hlength, Nat.cast_sub (by have := hplan.two_le_size; omega), Nat.cast_one]
  rw [hsize] at hcount
  obtain ⟨hc₁, hc₂⟩ := abs_le.1 hcount
  obtain ⟨hs₁, hs₂⟩ := abs_le.1 hsum
  have hlt : (l.countP p : ℚ) < 2 := by linarith
  have hgt : (0 : ℚ) < l.countP p := by linarith
  have hlt' : l.countP p < 2 := by exact_mod_cast hlt
  have hgt' : 0 < l.countP p := by exact_mod_cast hgt
  omega

/-- **The driven arcs make rounds**, and the order variables rise along them. -/
theorem makesRounds : plan.MakesRounds (drivenAt x) u where
  leave i hi := by
    have hlt := (mem_customers.1 hi).1
    refine countP_eq_one hplan hsmall (length_others hlt) (fun j hj => ?_) (h.leave i hi)
    exact h.arc_near hplan ht hsmall (i, j) (mem_arcs_of_mem_others hlt hj)
  enter j hj := by
    have hlt := (mem_customers.1 hj).1
    refine countP_eq_one hplan hsmall (length_others hlt) (fun i hi => ?_) (h.enter j hj)
    exact h.arc_near hplan ht hsmall (i, j) (mem_arcs_into hlt hi)
  rises i hi j hj hne hdriven := by
    have harc : (i, j) ∈ plan.arcs :=
      mem_arcs.2 ⟨(mem_customers.1 hi).1, (mem_customers.1 hj).1, hne⟩
    have hnear := h.arc_near hplan ht hsmall (i, j) harc
    rw [if_pos hdriven] at hnear
    have horder := h.order i hi j hj hne
    have hlast : (0 : ℚ) ≤ plan.size - 1 := by
      have : (2 : ℚ) ≤ plan.size := by exact_mod_cast hplan.two_le_size
      linarith
    have hx : 1 - t ≤ x i j := by linarith [(abs_le.1 hnear).1]
    have hbig : (plan.size - 1) * (1 - t) ≤ (plan.size - 1) * x i j :=
      mul_le_mul_of_nonneg_left hx hlast
    linarith

/-- No more walks start than there are vehicles. -/
theorem length_firstStops_le : (plan.firstStops (drivenAt x)).length ≤ plan.vehicles := by
  have hcount := List.abs_sum_sub_countP_le (l := plan.customers) (f := fun j => x plan.depot j)
    (p := fun j => drivenAt x plan.depot j) fun j hj =>
      h.arc_near hplan ht hsmall (plan.depot, j) (mem_arcs_of_mem_others hplan.depot_lt hj)
  have hsize : (plan.customers.length : ℚ) = plan.size - 1 := by
    rw [length_customers hplan.depot_lt,
      Nat.cast_sub (by have := hplan.two_le_size; omega), Nat.cast_one]
  rw [hsize, List.countP_eq_length_filter] at hcount
  have hfleet := h.fleet
  have hlt : ((plan.firstStops (drivenAt x)).length : ℚ) < plan.vehicles + 1 := by
    have hleft := (abs_le.1 hcount).1
    change _ ≤ _ - ((plan.firstStops (drivenAt x)).length : ℚ) at hleft
    linarith
  have hlt' : (plan.firstStops (drivenAt x)).length < plan.vehicles + 1 := by exact_mod_cast hlt
  omega

/-- The walks are as long as the objective says, up to the tolerance. -/
theorem abs_sum_sub_cost_le {sequences : List (List ℕ)}
    (hwalks : List.Forall₂ (Leads plan (drivenAt x)) (plan.firstStops (drivenAt x)) sequences) :
    |(sequences.map fun inner => alongLegs plan.way (plan.closed inner)).sum - plan.cost x| ≤
      t * (plan.arcs.map fun a => plan.way a.1 a.2).sum := by
  have hlegs := (h.makesRounds hplan ht hsmall).sum_legs hplan.depot_lt hwalks plan.way
  have hweights : (plan.arcs.map fun a =>
      if drivenAt x a.1 a.2 then plan.way a.1 a.2 else 0) =
      plan.arcs.map fun a => plan.way a.1 a.2 * (if drivenAt x a.1 a.2 then 1 else 0) :=
    List.map_congr_left fun a _ => by rw [mul_ite, mul_one, mul_zero]
  rw [← hlegs, hweights, abs_sub_comm, cost]
  exact List.abs_sum_sub_sum_le (fun a _ => hplan.way_nonneg a.1 a.2)
    (h.arc_near hplan ht hsmall)

/-- **The tours of a solution**: they serve every customer once, use no more vehicles than there
are, and are as long as the objective says, up to the tolerance. -/
theorem exists_tours :
    ∃ sequences, plan.Split sequences ∧
      plan.tours (drivenAt x) = .ok (sequences.map plan.closed) ∧
      |(sequences.map fun inner => alongLegs plan.way (plan.closed inner)).sum - plan.cost x| ≤
        t * (plan.arcs.map fun a => plan.way a.1 a.2).sum := by
  have hrounds := h.makesRounds hplan ht hsmall
  obtain ⟨sequences, hwalks, htours, hperm⟩ := hrounds.tours_eq hplan.depot_lt
  refine ⟨sequences, ⟨fun inner hinner => ?_, hperm, ?_⟩, htours,
    h.abs_sum_sub_cost_le hplan ht hsmall hwalks⟩
  · obtain ⟨i, hi, hwalk⟩ := hwalks.exists_of_mem_right hinner
    have hcustomer := (MakesRounds.mem_firstStops.1 hi).1
    obtain ⟨rest, rfl⟩ := hwalk.eq_cons (mem_customers.1 hcustomer).2
    exact List.cons_ne_nil i rest
  · rw [← hwalks.length_eq]
    exact h.length_firstStops_le hplan ht hsmall

end Feasible

/-! ### The program of a plan -/

/-- Whether doubles have these exact values at the arcs. -/
def Assigns (plan : Plan) (values : Assignment) (value : String → ℚ) : Prop :=
  ∀ a ∈ plan.arcs, ∃ d, values.value? (arcName a.1 a.2) = some d ∧
    Binary64.toRat? d = some (value (arcName a.1 a.2))

/-- Doubles drive the arcs that their exact values do. -/
theorem drives_eq {plan : Plan} {values : Assignment} {value : String → ℚ}
    (h : plan.Assigns values value) :
    ∀ a ∈ plan.arcs, drives values a.1 a.2 = drivenAt (fun i j => value (arcName i j)) a.1 a.2 := by
  intro a ha
  obtain ⟨d, hd, hvalue⟩ := h a ha
  rw [drives, hd, Option.any_some, drivenAt]
  exact decide_eq_decide.2 (Binary64.lt_iff_of_toRat? Binary64.toRat?_half hvalue)

/-- The exact value that an assignment gives to a name, zero if it gives none. -/
def exactly (values : Assignment) (name : String) : ℚ :=
  Binary64.value ((values.value? name).getD 0.0)

/-- Finite doubles have exact values. -/
theorem assigns_exactly {plan : Plan} {values : Assignment}
    (h : ∀ a ∈ plan.arcs, (values.value? (arcName a.1 a.2)).any Float.isFinite = true) :
    plan.Assigns values (exactly values) := by
  intro a ha
  obtain ⟨d, hd, hfinite⟩ := (Option.any_eq_true _ _).1 (h a ha)
  refine ⟨d, hd, ?_⟩
  rw [exactly, hd]
  exact Extended.toRat?_eq_value hfinite

/-- The routes through a split say so: doubles can hold more numbers than there are locations and
vehicles, and machine words can hold more than those. -/
theorem Split.routesAlong {plan : Plan} (hplan : plan.IsProper) {sequences : List (List ℕ)}
    (h : plan.Split sequences) :
    plan.RoutesAlong sequences (plan.routesOf (sequences.map plan.closed)) := by
  have hwords : (2 : ℕ) ^ 53 ≤ UInt64.size := by decide
  refine routesAlong_routesOf hplan.depot_lt (hplan.size_lt.le.trans hwords)
    (h.fleet.trans (hplan.vehicles_lt.le.trans hwords)) fun inner hinner x hx => ?_
  exact (Plan.mem_customers.1 (h.perm.mem_iff.1 (List.mem_flatten_of_mem hinner hx))).1

/-- **Solutions drive tours.** What satisfies the program of a plan within a tolerance that is less
than one over the number of locations drives tours: each starts and ends at the depot, together they
serve every customer once, and there are no more of them than vehicles. They are as long as the
objective says, up to the tolerance times the sum of all distances.

The routes that are read off doubles of these values are these tours, with the vehicles numbered in
turn. Each has the distance of its legs added up in order, which is its length unless something is
rounded. -/
theorem compile_sound {plan : Plan} (hplan : plan.IsProper) :
    ∃ program, Family.mixedInteger.stage Binary64.infinity plan.compile = .ok program ∧
      ∀ (t : ℚ) (value : String → ℚ), 0 ≤ t → plan.size * t < 1 →
        program.exact.Satisfied t (plan.compile.vars.map fun v => value v.name) →
        ∃ sequences total, plan.Split sequences ∧
          plan.tours (fun i j => 1 / 2 < value (arcName i j)) =
            .ok (sequences.map plan.closed) ∧
          program.exact.objectiveAt
              ((plan.compile.vars.map fun v => value v.name).map .rational) = .rational total ∧
          |(sequences.map fun inner => alongLegs plan.way (plan.closed inner)).sum - total| ≤
            t * (plan.arcs.map fun a => plan.way a.1 a.2).sum ∧
          ∀ values, plan.Assigns values value →
            ∃ routes, plan.routes values = .ok routes ∧ plan.RoutesAlong sequences routes ∧
              ∀ route ∈ routes, plan.LengthIsExact (route.stops.map UInt64.toNat) →
                Binary64.value route.distance =
                  alongLegs plan.way (route.stops.map UInt64.toNat) := by
  obtain ⟨program, hprogram, hmeans⟩ := exists_program hplan
  refine ⟨program, hprogram, fun t value ht hsmall hsatisfied => ?_⟩
  obtain ⟨hfeasible, hobjective⟩ := hmeans value
  obtain ⟨sequences, hsplit, htours, hcost⟩ :=
    ((hfeasible t).1 hsatisfied).exists_tours hplan ht hsmall
  refine ⟨sequences, _, hsplit, htours, hobjective, hcost, fun values hvalues => ?_⟩
  have hread := tours_congr hplan.depot_lt (drives_eq hvalues) htours
  have halong := hsplit.routesAlong hplan
  exact ⟨_, routes_eq_ok_iff.2 ⟨_, hread, rfl⟩, halong, halong.value_distance⟩

/-- A depot and two customers, with one vehicle. Every way has a length of its own. -/
def detour : Plan := ⟨0, 1, [[0.0, 1.0, 2.0], [4.0, 0.0, 8.0], [16.0, 32.0, 0.0]]⟩

theorem isProper_detour : detour.IsProper where
  two_le_size := by decide
  size_lt := by decide
  square := by decide
  distances := by decide
  depot_lt := by decide
  one_le_vehicles := by decide
  vehicles_lt := by decide

/-- Three quarters of one round and a quarter of the other. -/
def nearly : Assignment :=
  .ofList [("x_0_1", 0.75), ("x_0_2", 0.25), ("x_1_0", 0.25), ("x_1_2", 0.75), ("x_2_0", 0.75),
    ("x_2_1", 0.25), ("u_1", 1.0), ("u_2", 1.75)]

/-- Everything holds within a quarter. The second customer is close behind the first. -/
theorem feasible_nearly : detour.Feasible (1 / 4) (fun i j => exactly nearly (arcName i j))
    fun i => exactly nearly (orderName i) where
  arc a ha := by
    have hbounds : ∀ a ∈ detour.arcs, -(1 / 4) ≤ exactly nearly (arcName a.1 a.2) ∧
        exactly nearly (arcName a.1 a.2) ≤ 1 + 1 / 4 := by decide +kernel
    have hnear : ∀ a ∈ detour.arcs, |exactly nearly (arcName a.1 a.2) - (0 : ℤ)| ≤ 1 / 4 ∨
        |exactly nearly (arcName a.1 a.2) - (1 : ℤ)| ≤ 1 / 4 := by decide +kernel
    exact ⟨(hbounds a ha).1, (hbounds a ha).2, (hnear a ha).elim (⟨0, ·⟩) (⟨1, ·⟩)⟩
  place := by decide +kernel
  enter := by decide +kernel
  leave := by decide +kernel
  fleet := by decide +kernel
  balance := by decide +kernel
  order := by decide +kernel

/-- Both customers are served in one round, which is shorter than the objective says. -/
theorem compile_sound_detour :
    ∃ program, Family.mixedInteger.stage Binary64.infinity detour.compile = .ok program ∧
      program.exact.Satisfied (1 / 4) (detour.compile.vars.map fun v => exactly nearly v.name) ∧
      detour.routes nearly = .ok [⟨0, [0, 1, 2, 0], 25.0⟩] ∧
      ∃ sequences total, detour.Split sequences ∧
        detour.RoutesAlong sequences [⟨0, [0, 1, 2, 0], 25.0⟩] ∧
        program.exact.objectiveAt
            ((detour.compile.vars.map fun v => exactly nearly v.name).map .rational) =
          .rational total ∧
        |(sequences.map fun inner => alongLegs detour.way (detour.closed inner)).sum - total| ≤
          1 / 4 * (detour.arcs.map fun a => detour.way a.1 a.2).sum := by
  obtain ⟨program, hprogram, hsound⟩ := compile_sound isProper_detour
  obtain ⟨same, hsame, hmeans⟩ := exists_program isProper_detour
  obtain rfl := Except.ok.inj (hsame.symm.trans hprogram)
  have hsatisfied := ((hmeans (exactly nearly)).1 (1 / 4)).2 feasible_nearly
  have hsmall : (detour.size : ℚ) * (1 / 4) < 1 := by decide +kernel
  have hassigns : detour.Assigns nearly (exactly nearly) := assigns_exactly (by decide)
  obtain ⟨sequences, total, hsplit, -, hobjective, hcost, hroutes⟩ :=
    hsound (1 / 4) (exactly nearly) (by norm_num) hsmall hsatisfied
  obtain ⟨routes, hread, halong, -⟩ := hroutes nearly hassigns
  have hround : detour.routes nearly = .ok [⟨0, [0, 1, 2, 0], 25.0⟩] := rfl
  obtain rfl := Except.ok.inj (hread.symm.trans hround)
  exact ⟨same, hprogram, hsatisfied, hround, sequences, total, hsplit, halong, hobjective, hcost⟩

end OptModel.Plan
