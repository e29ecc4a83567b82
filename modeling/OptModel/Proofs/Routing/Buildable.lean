import OptModel.Proofs.Family.Coefficients
import OptModel.Proofs.Routing.Inequalities

/-!
# Accepted plans that cannot be built

A payload is accepted before anything is written or read. When its distances come from a matrix,
what is accepted can be built: every entry has been checked to be finite, and the reader refuses
nothing else that the compiler writes. When they are the straight ones between locations, nothing
has been checked. They are never negative, but the difference of two coordinates may be infinite,
and then so is the distance. The compiler writes it all the same, and the reader refuses the term.

So what decides whether an accepted plan can be built is whether the distances between different
locations are finite. The fault is that of the first arc, in the order of the objective, that has
another distance.

## Main results

* `Plan.parse_objective_eq_error_iff` — why the objective of a plan is refused
* `Plan.build_compile_iff` — which accepted plans can be built
* `Plan.build_antipodes` — one that cannot
-/

namespace OptModel

namespace Family

variable {family : Family} {engine : Engine} {config : Config} {model built : Model Float}
  {plan : Option Plan} {solver : engine.Session}

/-- Where all rows can be read, the objective decides whether a model can be built. -/
theorem build_of_rows {forms : List (LinearForm ℕ Float)}
    (hformulate : family.formulate model = .ok (built, plan))
    (hcreate : engine.create config.backend = .ok solver)
    (hrows : List.Forall₂ (fun row f => Expression.parse (columnOf? built) row.expression = .ok f)
      built.rows forms) :
    (∀ form : LinearForm ℕ Float,
        Expression.parse (columnOf? built) built.objective.expression = .ok form →
        ∃ prepared, (family.build engine config model).2 = .ok prepared) ∧
      ∀ fault, Expression.parse (R := Float) (columnOf? built) built.objective.expression =
          .error fault →
        (family.build engine config model).2 = .error (.expression fault) := by
  constructor
  · intro form hform
    rw [build_of_told hformulate hcreate (directives_of_reads (.complete hrows hform))]
    exact ⟨_, rfl⟩
  · intro fault hfault
    rw [build_of_cut hformulate hcreate (directives_of_reads (.objective hrows hfault))]

end Family

namespace Plan

open Expression

variable {plan : Plan}

section Reading

variable {H : Type} [DecidableEq H] {handle? : String → Option H}

omit [DecidableEq H] in
/-- The term of an arc is read when its distance is finite. -/
theorem exists_readTerm_arc_iff (hlookup : plan.compile.IsLookup handle?) {a : ℕ × ℕ}
    (ha : a ∈ plan.arcs) :
    (∃ t, readTerm (R := Float) handle?
        (term (plan.distance a.1 a.2) (arcName a.1 a.2)).toList = .ok t) ↔
      (plan.distance a.1 a.2).isFinite := by
  have hname := isMentionable_arcName a.1 a.2
  constructor
  · rintro ⟨t, ht⟩
    by_contra hfinite
    rw [readTerm_term_of_not_isFinite (Bool.eq_false_iff.2 hfinite) hname] at ht
    cases ht
  · intro hfinite
    obtain ⟨v, hv, hvname⟩ := List.mem_map.1 (arcName_mem ha)
    obtain ⟨k, hk⟩ := hlookup.declared v hv
    exact ⟨_, readTerm_eq_ok_iff.2 ⟨_, isTerm_iff.1 (isTerm_term hfinite hname), hvname ▸ hk⟩⟩

omit [DecidableEq H] in
/-- And it is refused when its distance is not finite. -/
theorem readTerm_arc_eq_error_iff (hlookup : plan.compile.IsLookup handle?) {a : ℕ × ℕ}
    (ha : a ∈ plan.arcs) {fault : Expression.Fault} :
    readTerm (R := Float) handle? (term (plan.distance a.1 a.2) (arcName a.1 a.2)).toList =
        .error fault ↔
      (plan.distance a.1 a.2).isFinite = false ∧
        fault = .malformed (term (plan.distance a.1 a.2) (arcName a.1 a.2))
          (.notFinite (plainText (plan.distance a.1 a.2))) := by
  have hname := isMentionable_arcName a.1 a.2
  cases hfinite : (plan.distance a.1 a.2).isFinite with
  | true =>
    obtain ⟨t, ht⟩ := (exists_readTerm_arc_iff hlookup ha).2 hfinite
    rw [ht]
    exact ⟨nofun, nofun⟩
  | false =>
    rw [readTerm_term_of_not_isFinite hfinite hname]
    exact ⟨fun h => ⟨rfl, (Except.error.inj h).symm⟩, fun h => congrArg _ h.2.symm⟩

/-- **Why the objective of a plan is refused**: for its first distance that is not finite. -/
theorem parse_objective_eq_error_iff (hlookup : plan.compile.IsLookup handle?)
    {fault : Expression.Fault} :
    parse (R := Float) handle? plan.compiledObjective.expression = .error fault ↔
      ∃ before a behind, plan.arcs = before ++ a :: behind ∧
        (∀ b ∈ before, (plan.distance b.1 b.2).isFinite) ∧
        (plan.distance a.1 a.2).isFinite = false ∧
        fault = .malformed (term (plan.distance a.1 a.2) (arcName a.1 a.2))
          (.notFinite (plainText (plan.distance a.1 a.2))) := by
  have hreadable : ∀ text ∈ plan.arcs.map fun a => term (plan.distance a.1 a.2) (arcName a.1 a.2),
      '+' ∉ text.toList ∧ ¬ Text.allBlank text.toList := by
    rw [List.forall_mem_map]
    exact fun a _ => ⟨noPlus_term _ (isMentionable_arcName a.1 a.2), not_allBlank_term _ _⟩
  have htext : plan.compiledObjective.expression =
      sum (plan.arcs.map fun a => term (plan.distance a.1 a.2) (arcName a.1 a.2)) := rfl
  rw [parse_eq, Except.map_eq_error_iff, htext, readTerms_sum hreadable, List.mapM_map,
    Except.mapM_eq_error_iff]
  simp only [Function.comp_apply]
  refine exists_congr fun before => exists_congr fun a => exists_congr fun behind =>
    and_congr_right fun harcs => ?_
  have hbefore : ∀ b ∈ before, b ∈ plan.arcs := by
    intro b hb
    rw [harcs]
    exact List.mem_append_left _ hb
  have ha : a ∈ plan.arcs := by
    rw [harcs]
    exact List.mem_append_right _ List.mem_cons_self
  rw [readTerm_arc_eq_error_iff hlookup ha]
  refine and_congr_left fun _ => forall₂_congr fun b hb => ?_
  exact exists_readTerm_arc_iff hlookup (hbefore b hb)

end Reading

/-! ### Building -/

section Building

variable {family : Family} {engine : Engine} {config : Config} {model : Model Float}
  {remembered : Option Plan} {solver : engine.Session}

/-- The rows of a plan do not keep it from being built. -/
theorem exists_parse_rows (hdepot : plan.depot < plan.size) (hlast : plan.lastPlace.isFinite) :
    ∃ forms : List (LinearForm ℕ Float), List.Forall₂
      (fun row f => parse (Family.columnOf? plan.compile) row.expression = .ok f)
      plan.compile.rows forms := by
  refine List.exists_forall₂ fun row hrow => ?_
  have hrows := isReadFrom_rows hdepot hlast (Family.isLookup_columnOf? plan.compile)
  obtain ⟨r, -, ⟨form, hform, -⟩, -, -⟩ := hrows.flip.exists_of_mem_right hrow
  exact ⟨form, hform⟩

/-- **Why a compiled plan cannot be built**: the first arc with a distance that is not finite. -/
theorem build_eq_error_iff (hdepot : plan.depot < plan.size) (hlast : plan.lastPlace.isFinite)
    (hformulate : family.formulate model = .ok (plan.compile, remembered))
    (hcreate : engine.create config.backend = .ok solver) {fault : OptModel.Fault} :
    (family.build engine config model).2 = .error fault ↔
      ∃ before a behind, plan.arcs = before ++ a :: behind ∧
        (∀ b ∈ before, (plan.distance b.1 b.2).isFinite) ∧
        (plan.distance a.1 a.2).isFinite = false ∧
        fault = .expression (.malformed (term (plan.distance a.1 a.2) (arcName a.1 a.2))
          (.notFinite (plainText (plan.distance a.1 a.2)))) := by
  obtain ⟨forms, hrows⟩ := exists_parse_rows hdepot hlast
  obtain ⟨hok, herror⟩ := Family.build_of_rows hformulate hcreate hrows
  have hlookup := Family.isLookup_columnOf? plan.compile
  constructor
  · intro h
    cases hparse : parse (R := Float) (Family.columnOf? plan.compile)
        plan.compile.objective.expression with
    | ok form =>
      obtain ⟨prepared, hprepared⟩ := hok form hparse
      exact nomatch hprepared.symm.trans h
    | error cause =>
      obtain ⟨before, a, behind, harcs, hbefore, ha, rfl⟩ :=
        (parse_objective_eq_error_iff hlookup).1 hparse
      obtain rfl := Except.error.inj (h.symm.trans (herror _ hparse))
      exact ⟨before, a, behind, harcs, hbefore, ha, rfl⟩
  · rintro ⟨before, a, behind, harcs, hbefore, ha, rfl⟩
    exact herror _ ((parse_objective_eq_error_iff hlookup).2
      ⟨before, a, behind, harcs, hbefore, ha, rfl⟩)

/-- **A compiled plan can be built** when the distances between its locations are finite. -/
theorem exists_build_iff (hdepot : plan.depot < plan.size) (hlast : plan.lastPlace.isFinite)
    (hformulate : family.formulate model = .ok (plan.compile, remembered))
    (hcreate : engine.create config.backend = .ok solver) :
    (∃ prepared, (family.build engine config model).2 = .ok prepared) ↔
      ∀ a ∈ plan.arcs, (plan.distance a.1 a.2).isFinite := by
  have herror := @build_eq_error_iff plan family engine config model remembered solver hdepot hlast
    hformulate hcreate
  constructor
  · rintro ⟨prepared, hprepared⟩
    by_contra hsome
    -- the first distance that is not finite would have been reported
    cases hfind : plan.arcs.find? fun a => !(plan.distance a.1 a.2).isFinite with
    | none =>
      refine hsome fun a ha => ?_
      simpa using List.find?_eq_none.1 hfind a ha
    | some a =>
      obtain ⟨ha, before, behind, harcs, hbefore⟩ := List.find?_eq_some_iff_append.1 hfind
      have hrefused := herror.2 ⟨before, a, behind, harcs, fun b hb => by simpa using hbefore b hb,
        by simpa using ha, rfl⟩
      exact nomatch hprepared.symm.trans hrefused
  · intro hfinite
    cases hbuild : (family.build engine config model).2 with
    | ok prepared => exact ⟨prepared, rfl⟩
    | error fault =>
      obtain ⟨before, a, behind, harcs, -, ha, -⟩ := herror.1 hbuild
      have hmem : a ∈ plan.arcs := by
        rw [harcs]
        exact List.mem_append_right _ List.mem_cons_self
      exact absurd (ha.symm.trans (hfinite a hmem)) Bool.false_ne_true

/-- **Which accepted plans can be built.** No distance of an accepted model is negative, and those
of a matrix are finite, so that the program of a matrix can always be built. In general it can when
all distances between different locations are finite. Otherwise the first that is not is reported
as a malformed term; no name is ever unknown. -/
theorem build_compile_iff (hplan : ofModel model = .ok plan) (hsize : plan.size < 2 ^ 64)
    (hcreate : engine.create config.backend = .ok solver) :
    (∀ row ∈ plan.distances, row.length = plan.size ∧ ∀ x ∈ row, ¬ x < 0.0) ∧
      (∀ matrix, model.distances = some matrix →
        (∀ row ∈ plan.distances, ∀ x ∈ row, x.isFinite) ∧
          ∃ prepared, (Family.mixedInteger.build engine config plan.compile).2 = .ok prepared) ∧
      ((∃ prepared, (Family.mixedInteger.build engine config plan.compile).2 = .ok prepared) ↔
        ∀ a ∈ plan.arcs, (plan.distance a.1 a.2).isFinite) ∧
      (∀ fault, (Family.mixedInteger.build engine config plan.compile).2 = .error fault ↔
        ∃ before a behind, plan.arcs = before ++ a :: behind ∧
          (∀ b ∈ before, (plan.distance b.1 b.2).isFinite) ∧
          (plan.distance a.1 a.2).isFinite = false ∧
          fault = .expression (.malformed (term (plan.distance a.1 a.2) (arcName a.1 a.2))
            (.notFinite (plainText (plan.distance a.1 a.2))))) ∧
      ∀ name, (Family.mixedInteger.build engine config plan.compile).2 ≠
        .error (.expression (.unknownName name)) := by
  have hdepot := depot_lt_of_ofModel hplan
  have hsquare := square_of_ofModel hplan
  have hlast : plan.lastPlace.isFinite :=
    Binary64.isFinite_ofNat ((Nat.sub_le _ _).trans_lt hsize)
  have hbuilt := @exists_build_iff plan .mixedInteger engine config plan.compile none solver hdepot
    hlast rfl hcreate
  have hrefused := @build_eq_error_iff plan .mixedInteger engine config plan.compile none solver
    hdepot hlast rfl hcreate
  refine ⟨fun row hrow => ⟨hsquare row hrow, not_lt_zero_of_ofModel hplan row hrow⟩,
    fun matrix hmatrix => ?_, hbuilt, fun _ => hrefused, fun name hunknown => ?_⟩
  · have hfinite := isFinite_of_ofModel hplan hmatrix
    refine ⟨hfinite, hbuilt.2 fun a ha => ?_⟩
    obtain ⟨hi, hj, -⟩ := mem_arcs.1 ha
    obtain ⟨row, hrow, hx⟩ := mem_of_cell? (cell?_eq_some hsquare hi hj)
    exact hfinite row hrow _ hx
  · obtain ⟨before, a, behind, -, -, -, hfault⟩ := hrefused.1 hunknown
    cases hfault

/-- A routing problem of two locations without a matrix. -/
def twoPlaces (a b : Location) : Model Float where
  type := .vehicleRouting
  locations := [a, b]
  vehicles := some 1
  depot := some 0

/-- The plan of two locations. -/
def planOfTwo (a b : Location) : Plan := ⟨0, 1, straight [a, b]⟩

theorem ofModel_twoPlaces (a b : Location) : ofModel (twoPlaces a b) = .ok (planOfTwo a b) := rfl

/-- Two locations that are five apart: the program can be built. -/
theorem build_compile_near :
    ofModel (twoPlaces ⟨none, 0.0, 0.0⟩ ⟨none, 3.0, 4.0⟩) =
        .ok (planOfTwo ⟨none, 0.0, 0.0⟩ ⟨none, 3.0, 4.0⟩) ∧
      ∃ prepared, (Family.mixedInteger.build (Engine.scripted {}) {}
        (planOfTwo ⟨none, 0.0, 0.0⟩ ⟨none, 3.0, 4.0⟩).compile).2 = .ok prepared := by
  have hplan := ofModel_twoPlaces ⟨none, 0.0, 0.0⟩ ⟨none, 3.0, 4.0⟩
  obtain ⟨-, -, hbuilt, -⟩ := @build_compile_iff _ (Engine.scripted {}) {} _ _ hplan (by decide) rfl
  exact ⟨hplan, hbuilt.2 (by decide +kernel)⟩

/-! ### Locations too far apart -/

/-- Two locations with finite coordinates that differ by more than the largest double. -/
def antipodes : Location × Location := (⟨none, Family.huge, 0.0⟩, ⟨none, -Family.huge, 0.0⟩)

theorem distance_planOfTwo (a b : Location) : (planOfTwo a b).distance 0 1 = a.distance b := rfl

theorem distance_antipodes :
    (planOfTwo antipodes.1 antipodes.2).distance 0 1 = Binary64.infinity := by
  have hdifference : Family.huge - -Family.huge = Binary64.infinity :=
    Binary64.eq_of_toBits_eq (by decide +kernel)
  have hinfinite : (Binary64.infinity.isInf || (0.0 - 0.0 : Float).isInf) = true := by decide
  rw [distance_planOfTwo, Location.distance]
  dsimp only [antipodes]
  rw [hdifference, Binary64.hypot, if_pos hinfinite]

/-- **An accepted plan that cannot be built.** The coordinates are finite; the distance is not, and
the term with it is malformed. -/
theorem build_antipodes :
    ofModel (twoPlaces antipodes.1 antipodes.2) = .ok (planOfTwo antipodes.1 antipodes.2) ∧
      (antipodes.1.x.isFinite ∧ antipodes.2.x.isFinite) ∧
      (planOfTwo antipodes.1 antipodes.2).cell? 0 1 = some Binary64.infinity ∧
      (Family.mixedInteger.build (Engine.scripted {}) {}
        (planOfTwo antipodes.1 antipodes.2).compile).2 =
          .error (.expression (.malformed "inf*x_0_1" (.notFinite "inf"))) := by
  have hdistance := distance_antipodes
  have hinfinite : Binary64.infinity.isFinite = false := by decide
  have hplan := ofModel_twoPlaces antipodes.1 antipodes.2
  have hcell := cell?_eq_some (square_of_ofModel hplan) (i := 0) (j := 1) (by decide) (by decide)
  have hterm : term Binary64.infinity (arcName 0 1) = "inf*x_0_1" := by decide
  have hword : plainText Binary64.infinity = "inf" := by decide
  refine ⟨hplan, ⟨Family.isFinite_huge, by decide +kernel⟩, hdistance ▸ hcell, ?_⟩
  refine (@build_eq_error_iff _ .mixedInteger (Engine.scripted {}) {} _ none _
    (depot_lt_of_ofModel hplan) (by decide) rfl rfl _).2 ⟨[], (0, 1), [(1, 0)], rfl, nofun, ?_, ?_⟩
  · rw [hdistance]
    exact hinfinite
  · rw [hdistance, hterm, hword]

end Building

end Plan

end OptModel
