import OptModel.Engine.Scripted
import OptModel.Proofs.Dispatch.Presence
import OptModel.Proofs.Json.Failures
import OptModel.Proofs.RoundTrip

/-!
# Results on the wire

A caller of the program does not see a result but its text, so what it can rely on is the record
that is read back. The numbers of a result come from an engine and may be anything. One that is not
finite is printed as `null`, and what becomes of it depends on where it stands: an objective value
or a gap is gone from the record that is read back, so that an optimum may come without an objective
value, while among the values of the variables, as the length of a route or as the time it makes the
whole text unreadable.

So which fields there are survives printing for results whose numbers are all finite, and for no
others.

## Main definitions

* `Result.printed` — a result without the numbers that are gone when it is read back
* `Result.IsReadable` — whether the text of a result can be read
* `Result.SameFields` — results of one status in which the same fields are present
* `Engine.ReportsFinite` — solvers that report finite numbers only

## Main results

* `Result.decode_encode_of_readable`, `Result.decode_encode_of_not_readable` — reading
  the text
* `Result.exists_sameFields_iff` — results whose fields survive printing
* `Engine.dispatch_printed` — what survives of the result of a solve
-/

namespace OptModel

open Json

/-! ### Parts of results -/

/-- The members of an assignment are read up to the first value that is not finite. -/
theorem Assignment.readMembers_separated_error {entries : List (String × Float)}
    (h : ∃ e ∈ entries, ¬ e.2.isFinite) {n : ℕ} (hn : entries.length < n) (first : Bool)
    (values : Assignment) (rest : List Char) :
    readMembers n first values (separated first (memberTexts entries) ++ '}' :: rest) =
      .error (.wrongType .null "f64") := by
  obtain ⟨n, rfl⟩ := Nat.exists_eq_succ_of_ne_zero (Nat.ne_of_gt (Nat.zero_lt_of_lt hn))
  induction entries generalizing values first n with
  | nil => exact absurd h nofun
  | cons e entries ih =>
    rw [readMembers_cons]
    by_cases he : e.2.isFinite
    · obtain ⟨n, rfl⟩ := Nat.exists_eq_succ_of_ne_zero
        (Nat.ne_of_gt (Nat.zero_lt_of_lt (Nat.lt_of_succ_lt_succ hn)))
      have hlater := (List.or_exists_of_exists_mem_cons h).resolve_left (not_not_intro he)
      have hnumber := (restores_number he).read
        (delimited_separated (memberTexts entries) (delimited_brace rest))
      rw [Reader.bind_of_ok hnumber]
      exact ih hlater false _ n (Nat.lt_of_succ_lt_succ hn)
    · exact Reader.bind_of_error (read_number_of_not_isFinite he _) _

/-- An assignment with a value that is not finite cannot be read. -/
theorem Assignment.fails {values : Assignment} (h : ¬ values.IsFinite) :
    codec.Fails values (.wrongType .null "f64") where
  opens := ⟨'{', _, rfl, rfl⟩
  read {rest} _ := by
    have hentry : ∃ e ∈ values.entries, ¬ e.2.isFinite := by
      by_contra hnone
      push Not at hnone
      exact h ⟨hnone⟩
    obtain ⟨n, hn, hread⟩ := values.read_write rest
    rw [hread]
    exact readMembers_separated_error hentry hn true _ rest

theorem Assignment.restores_or_fails (values : Assignment) :
    codec.Restores values ∨ codec.Fails values (.wrongType .null "f64") := by
  by_cases h : values.IsFinite
  · exact .inl (restores h)
  · exact .inr (fails h)

/-- A route whose length is not finite cannot be read. -/
theorem Route.fails {route : Route} (h : ¬ route.IsFinite) :
    layout.codec.Fails route (.wrongType .null "f64") := by
  have hdistance : ¬ route.distance.isFinite := fun hfinite => h ⟨hfinite⟩
  refine Layout.fails (by decide) ?_ ⟨_, .tail _ (.tail _ (.head _)), fails_number hdistance⟩
  simp only [layout, List.forall_mem_cons]
  exact ⟨.inl ⟨route, _, carries_required (restores_count _)⟩,
    .inl ⟨route, _, carries_required (restores_list fun _ _ => restores_count _)⟩,
    .inr (fails_number hdistance), List.forall_mem_nil _⟩

theorem Route.restores_or_fails (route : Route) :
    layout.codec.Restores route ∨ layout.codec.Fails route (.wrongType .null "f64") := by
  by_cases h : route.IsFinite
  · exact .inl (restores h)
  · exact .inr (fails h)

/-- Routes of which one has a length that is not finite cannot be read. -/
theorem Route.fails_list {routes : List Route} (h : ¬ ∀ route ∈ routes, route.IsFinite) :
    (list layout.codec).Fails routes (.wrongType .null "f64") := by
  push Not at h
  obtain ⟨route, hroute, hnot⟩ := h
  exact Json.fails_list (fun route _ => route.restores_or_fails) ⟨route, hroute, fails hnot⟩

theorem Route.restores_or_fails_list (routes : List Route) :
    (list layout.codec).Restores routes ∨
      (list layout.codec).Fails routes (.wrongType .null "f64") := by
  by_cases h : ∀ route ∈ routes, route.IsFinite
  · exact .inl (restores_list fun route hroute => restores (h route hroute))
  · exact .inr (fails_list h)

/-! ### Texts of results -/

namespace Result

/-- A result without an objective value or a gap that is not finite. -/
def printed (result : Result) : Result :=
  { result with
    objectiveValue := result.objectiveValue.filter Float.isFinite
    gap := result.gap.filter Float.isFinite }

/-- Whether the numbers are finite that have to be there where they are printed. -/
structure IsReadable (result : Result) : Prop where
  values : ∀ values ∈ result.values, values.IsFinite
  routes : ∀ routes ∈ result.routes, ∀ route ∈ routes, route.IsFinite
  solveTime : result.solveTime.isFinite

/-- Results of one status in which the same fields are present. -/
structure SameFields (a b : Result) : Prop where
  status : a.status = b.status
  objectiveValue : a.objectiveValue.isSome = b.objectiveValue.isSome
  values : a.values.isSome = b.values.isSome
  gap : a.gap.isSome = b.gap.isSome
  routes : a.routes.isSome = b.routes.isSome
  message : a.message.isSome = b.message.isSome

variable {result : Result}

/-- **The text of a readable result** is read as the result without the numbers that are gone. -/
theorem decode_encode_of_readable (h : result.IsReadable) :
    decode result.encode = .ok result.printed := by
  have hcarried : Layout.Carried result layout.fields layout.blank result.printed :=
    .cons (carries_required (restores_word _)) <|
    .cons (carries_number rfl) <|
    .cons (carries_optional (fun _ hvalues => Assignment.restores (h.values _ hvalues))
      fun _ => rfl) <|
    .cons (carries_number rfl) <|
    .cons (carries_optional (fun _ hroutes => restores_list fun route hroute =>
      Route.restores (h.routes _ hroutes route hroute)) fun _ => rfl) <|
    .cons (carries_optional (fun _ _ => restores_text _) fun _ => rfl) <|
    .cons (carries_required (restores_number h.solveTime)) .nil
  have hread := Layout.read_write (by decide) hcarried []
  rw [List.append_nil] at hread
  exact Codec.decode_encode_of_read hread

/-- **The text of any other result** is refused. -/
theorem decode_encode_of_not_readable (h : ¬ result.IsReadable) :
    decode result.encode = .error (.wrongType .null "f64") := by
  refine Codec.Fails.decode_encode (Layout.fails (by decide) ?_ ?_)
  · simp only [layout, List.forall_mem_cons]
    exact ⟨.inl ⟨result, _, carries_required (restores_word _)⟩,
      .inl ⟨layout.blank, _, carries_number rfl⟩,
      carries_or_fails_optional fun values _ => values.restores_or_fails,
      .inl ⟨layout.blank, _, carries_number rfl⟩,
      carries_or_fails_optional fun routes _ => Route.restores_or_fails_list routes,
      .inl ⟨layout.blank, _, carries_optional (fun _ _ => restores_text _) fun _ => rfl⟩,
      carries_or_fails_number, List.forall_mem_nil _⟩
  · by_cases hvalues : ∀ values ∈ result.values, values.IsFinite
    · by_cases hroutes : ∀ routes ∈ result.routes, ∀ route ∈ routes, route.IsFinite
      · have htime : ¬ result.solveTime.isFinite := fun htime => h ⟨hvalues, hroutes, htime⟩
        exact ⟨_, List.mem_of_getElem? (i := 6) rfl, fails_number htime⟩
      · push Not at hroutes
        obtain ⟨routes, hmem, route, hroute, hnot⟩ := hroutes
        have hfails := Route.fails_list fun hall => hnot (hall route hroute)
        exact ⟨_, List.mem_of_getElem? (i := 4) rfl, fails_optional hmem hfails⟩
    · push Not at hvalues
      obtain ⟨values, hmem, hnot⟩ := hvalues
      exact ⟨_, List.mem_of_getElem? (i := 2) rfl, fails_optional hmem (Assignment.fails hnot)⟩

theorem IsFinite.isReadable (h : result.IsFinite) : result.IsReadable :=
  ⟨h.values, h.routes, h.solveTime⟩

/-- Nothing is gone from a result whose numbers are finite. -/
theorem IsFinite.printed_eq (h : result.IsFinite) : result.printed = result := by
  have hfilter {o : Option Float} (ho : ∀ x ∈ o, x.isFinite) : o.filter Float.isFinite = o := by
    cases o with
    | none => rfl
    | some x => rw [Option.filter_some, if_pos (ho x rfl)]
  rw [printed, hfilter h.objectiveValue, hfilter h.gap]

theorem SameFields.refl (result : Result) : result.SameFields result :=
  ⟨rfl, rfl, rfl, rfl, rfl, rfl⟩

/-- A readable result that keeps its fields has finite numbers. -/
theorem IsReadable.isFinite (h : result.IsReadable) (hsame : result.printed.SameFields result) :
    result.IsFinite := by
  have hfinite {o : Option Float} (ho : (o.filter Float.isFinite).isSome = o.isSome) :
      ∀ x ∈ o, x.isFinite := by
    rintro x rfl
    by_contra hx
    rw [Option.filter_some, if_neg hx] at ho
    exact nomatch ho
  exact ⟨hfinite hsame.objectiveValue, h.values, hfinite hsame.gap, h.routes, h.solveTime⟩

/-- **The fields of a result survive printing** when its numbers are finite, and only then. -/
theorem exists_sameFields_iff :
    (∃ decoded, decode result.encode = .ok decoded ∧ decoded.SameFields result) ↔
      result.IsFinite := by
  constructor
  · rintro ⟨decoded, hdecoded, hsame⟩
    by_cases h : result.IsReadable
    · obtain rfl := Except.ok.inj ((decode_encode_of_readable h).symm.trans hdecoded)
      exact h.isFinite hsame
    · exact nomatch (decode_encode_of_not_readable h).symm.trans hdecoded
  · intro h
    refine ⟨result, ?_, .refl result⟩
    rw [decode_encode_of_readable h.isReadable, h.printed_eq]

end Result

/-! ### Results of solves -/

/-- A result with the time that it took. -/
def Result.timed (result : Result) (seconds : Float) : Result :=
  { result with solveTime := seconds }

/-- A result without a solution has no numbers but the time. -/
theorem Result.isFinite_unsolved (status : SolveStatus) (message : Option String) :
    Result.IsFinite { status := status, message := message } :=
  ⟨nofun, nofun, nofun, nofun, Binary64.isFinite_of_toRat? Binary64.toRat?_zero⟩

theorem Result.IsFinite.timed {result : Result} {seconds : Float} (h : result.IsFinite)
    (hseconds : seconds.isFinite) : (result.timed seconds).IsFinite :=
  ⟨h.objectiveValue, h.values, h.gap, h.routes, hseconds⟩

/-- An assignment has no values but those that it was made of. -/
theorem Assignment.mem_of_mem_ofList {values : List (String × Float)} {e : String × Float}
    (h : e ∈ (ofList values).entries) : e ∈ values := by
  induction values using List.reverseRecOn with
  | nil => exact absurd h List.not_mem_nil
  | append_singleton values last ih =>
    rw [ofList, List.foldl_append] at h
    rcases mem_place h with rfl | h
    · exact List.mem_append_right _ List.mem_cons_self
    · exact List.mem_append_left _ (ih h)

/-- An outcome with finite numbers comes to a result with finite numbers. -/
theorem Outcome.isFinite_normalize {outcome : Outcome}
    (hobjective : ∀ x ∈ outcome.objectiveValue, x.isFinite)
    (hvalues : ∀ values ∈ outcome.values, values.IsFinite)
    (hgap : ∀ x ∈ outcome.gap, x.isFinite)
    (hroutes : ∀ routes ∈ outcome.normalize.routes, ∀ route ∈ routes, route.IsFinite) :
    outcome.normalize.IsFinite := by
  revert hroutes
  rw [normalize]
  split
  · exact fun _ => Result.isFinite_unsolved _ _
  · split
    · exact fun _ => Result.isFinite_unsolved _ _
    · split
      · next objective values hsome hsome' =>
        intro hroutes
        exact ⟨hsome ▸ hobjective, hsome' ▸ hvalues, hgap, hroutes,
          Binary64.isFinite_of_toRat? Binary64.toRat?_zero⟩
      · exact fun _ => Result.isFinite_unsolved _ _

namespace Engine

/-- Whether the numbers that a solver reports are finite. -/
structure ReportsFinite (engine : Engine) (solver : engine.Session) : Prop where
  value : ∀ column, (engine.value solver column).isFinite
  objectiveValue : (engine.objectiveValue solver).isFinite
  gap : ∀ gap ∈ engine.gap solver, gap.isFinite

variable {engine : Engine} {model : Model Float} {config : Config} {calls : List Call}
  {result : Result}

/-- What is read off a solver that reports finite numbers. -/
theorem ReportsFinite.readOutcome {solver : engine.Session} (h : engine.ReportsFinite solver)
    (family : Family) (names : List String) (status : Engine.Status) :
    (∀ x ∈ (family.readOutcome engine names status solver).objectiveValue, x.isFinite) ∧
      (∀ values ∈ (family.readOutcome engine names status solver).values, values.IsFinite) ∧
      ∀ x ∈ (family.readOutcome engine names status solver).gap, x.isFinite := by
  rw [Family.readOutcome]
  split
  · refine ⟨?_, ?_, ?_⟩
    · rintro x ⟨⟩
      exact h.objectiveValue
    · rintro values ⟨⟩
      refine ⟨fun e he => ?_⟩
      obtain ⟨e, -, rfl⟩ := List.mem_map.1 (Assignment.mem_of_mem_ofList he)
      exact h.value e.2
    · intro x (hx : x ∈ if family.readsGap then engine.gap solver else none)
      split at hx
      · exact h.gap x hx
      · cases hx
  · refine ⟨?_, ?_, ?_⟩
    · rintro x ⟨⟩
    · rintro values ⟨⟩
    · rintro x ⟨⟩

/-- **Finite numbers of a solver make finite results**, as long as no route is too long. -/
theorem Conversation.isFinite (h : Conversation engine model config calls result)
    (hreports : ∀ answer after, engine.Answers calls answer after → engine.ReportsFinite after)
    (hroutes : ∀ routes ∈ result.routes, ∀ route ∈ routes, route.IsFinite) : result.IsFinite := by
  cases h with
  | rejected => exact Result.isFinite_unsolved _ _
  | refused => exact Result.isFinite_unsolved _ _
  | cut => exact Result.isFinite_unsolved _ _
  | stayed =>
    have hzero := Binary64.isFinite_of_toRat? Binary64.toRat?_zero
    refine Outcome.isFinite_normalize ?_ ?_ ?_ hroutes
    · rintro x ⟨⟩
      exact hzero
    · rintro values ⟨⟩
      exact ⟨nofun⟩
    · rintro x ⟨⟩
      exact hzero
  | crashed => exact Result.isFinite_unsolved _ _
  | @answered family built plan solver after directives status _ hcreate _ _ hsolve =>
    obtain ⟨hobjective, hvalues, hgap⟩ := (hreports _ after (.intro hcreate hsolve)).readOutcome
      family (built.vars.map (·.name)) status
    revert hroutes
    cases plan with
    | none => exact Outcome.isFinite_normalize hobjective hvalues hgap
    | some plan =>
      rw [conclude, Family.addRoutes]
      split
      · exact Outcome.isFinite_normalize hobjective hvalues hgap
      · split
        · exact fun _ => Result.isFinite_unsolved _ _
        · exact Outcome.isFinite_normalize hobjective hvalues hgap

/-- **What survives printing.** The text of the result of a solve is read back with the same status
and the same fields just when the numbers of the result are finite, and then it tells the solutions
from the other results. They are finite when those are that the solver reports, unless the time or
the length of a route is not. -/
theorem dispatch_printed (engine : Engine) (model : Model Float) (config : Config)
    (seconds : Float) :
    let result := (engine.dispatch model config).2.timed seconds
    ((∃ decoded, Result.decode result.encode = .ok decoded ∧ decoded.SameFields result) ↔
      result.IsFinite) ∧
    (result.IsFinite → Result.decode result.encode = .ok result ∧
      (result.objectiveValue.isSome ↔ result.IsSolution) ∧
      (result.values.isSome ↔ result.IsSolution)) ∧
    (result.IsReadable → Result.decode result.encode = .ok result.printed) ∧
    (¬ result.IsReadable → Result.decode result.encode = .error (.wrongType .null "f64")) ∧
    ((∀ answer after, engine.Answers (engine.dispatch model config).1 answer after →
        engine.ReportsFinite after) → seconds.isFinite →
      (∀ routes ∈ result.routes, ∀ route ∈ routes, route.IsFinite) → result.IsFinite) := by
  obtain ⟨calls, outcome, hconversation⟩ := exists_conversation engine model config
  rw [hconversation.dispatch_eq]
  intro result
  refine ⟨Result.exists_sameFields_iff, fun h => ⟨?_, ?_⟩, Result.decode_encode_of_readable,
    Result.decode_encode_of_not_readable, fun hreports hseconds hroutes => ?_⟩
  · rw [Result.decode_encode_of_readable h.isReadable, h.printed_eq]
  · exact ⟨hconversation.presence.objectiveValue, hconversation.presence.values⟩
  · exact (hconversation.isFinite hreports hroutes).timed hseconds

/-- One amount, which counts ten times. -/
def amount : Model Float where
  type := .linearProgramming
  vars := [{ name := "x" }]
  objective := { sense := .maximize, expression := "10*x" }

/-- An engine that finds an optimum in which the first column has the value `x`. -/
def optimumAt (x : Float) : Engine := .scripted { status := .optimal, values := [x] }

/-- An engine that finds an optimum with the same numbers whatever it has been told. -/
def steady : Engine :=
  { optimumAt 2.0 with
    value := fun _ _ => 2.0
    objectiveValue := fun _ => 20.0 }

theorem dispatch_printed_amount :
    let result := (steady.dispatch amount {}).2.timed 0.5
    result.IsFinite ∧ Result.decode result.encode = .ok result ∧
      result.objectiveValue.isSome ∧ result.values.isSome := by
  obtain ⟨-, hpresent, -, -, hreports⟩ := dispatch_printed steady amount {} 0.5
  have htwo : (2.0 : Float).isFinite := by decide
  have htwenty : (20.0 : Float).isFinite := by decide
  have hfinite := hreports (fun _ _ _ => ⟨fun _ => htwo, htwenty, nofun⟩) (by decide) nofun
  obtain ⟨hdecode, hobjective, hvalues⟩ := hpresent hfinite
  exact ⟨hfinite, hdecode, hobjective.2 (.inl rfl), hvalues.2 (.inl rfl)⟩

/-- A value that is no number makes the text of an optimum unreadable, and one that is too large to
be counted ten times leaves an optimum without an objective value. -/
theorem dispatch_printed_void :
    (∀ decoded, Result.decode (((optimumAt (0.0 / 0.0)).dispatch amount {}).2.timed 0.5).encode ≠
      .ok decoded) ∧
    ∃ decoded, Result.decode (((optimumAt 1e308).dispatch amount {}).2.timed 0.5).encode =
      .ok decoded ∧ decoded.status = .optimal ∧ decoded.objectiveValue.isSome = false := by
  constructor
  · intro decoded hdecoded
    have hvoid : ¬ (((optimumAt (0.0 / 0.0)).dispatch amount {}).2.timed 0.5).IsReadable := by
      intro h
      have hentries := (h.values (.ofList [("x", 0.0 / 0.0)]) rfl).entries
      exact absurd (hentries ("x", 0.0 / 0.0) (.head _)) (by decide)
    exact nomatch (Result.decode_encode_of_not_readable hvoid).symm.trans hdecoded
  · have hreadable : (((optimumAt 1e308).dispatch amount {}).2.timed 0.5).IsReadable := by
      refine ⟨?_, nofun, by decide⟩
      rintro values ⟨⟩
      exact ⟨by decide +kernel⟩
    exact ⟨_, Result.decode_encode_of_readable hreadable, rfl, by decide +kernel⟩

end Engine

end OptModel
