import OptModel.Config
import OptModel.Model.Json
import OptModel.Proofs.Json.Records
import OptModel.Proofs.Json.Yields
import OptModel.Result

/-!
# Records round-trip

A model, settings or a result whose numbers are all finite is decoded from its own text, whichever
of its fields are absent. For every field that may be left out this rests on one fact: where it is
left out the blank record already has its value. Conversely whatever is decoded has finite numbers
only, so that decoding, encoding and decoding again gives the record of the first decoding.

Nothing is assumed of numbers and strings: that their texts read back is part of it.

## Main definitions

* `Model.IsFinite`, `Config.IsFinite`, `Result.IsFinite` — records whose numbers are all finite
* `RoundTrips` — records of a kind are decoded from their texts, and only such are decoded

## Main results

* `Model.roundTrips`, `Config.roundTrips`, `Result.roundTrips` — the records
* `records_roundTrip` — all of them, and valid settings
-/

namespace OptModel

open Json

/-! ### Models -/

/-- Whether the bounds and the start of a variable are finite where there are any. -/
structure Variable.IsFinite (v : Variable Float) : Prop where
  lowerBound : ∀ x ∈ v.lowerBound, x.isFinite
  upperBound : ∀ x ∈ v.upperBound, x.isFinite
  initialValue : ∀ x ∈ v.initialValue, x.isFinite

theorem Variable.restores {v : Variable Float} (h : v.IsFinite) : layout.codec.Restores v := by
  refine Layout.restores (by decide) ?_
  exact .cons (carries_required (restores_text _)) <|
    .cons (carries_defaulted (restores_word _) nofun) <|
    .cons (carries_optional (fun x hx => restores_number (h.lowerBound x hx)) fun _ => rfl) <|
    .cons (carries_optional (fun x hx => restores_number (h.upperBound x hx)) fun _ => rfl) <|
    .cons (carries_optional (fun x hx => restores_number (h.initialValue x hx)) fun _ => rfl) .nil

/-- The record of a variable reads finite numbers. -/
theorem Variable.yields : Yields layout.codec.read Variable.IsFinite := by
  refine Layout.yields ⟨nofun, nofun, nofun⟩ ?_
  simp only [layout, List.forall_mem_cons]
  exact ⟨keeps_required (yields_trivial _)
      fun _ _ _ h => ⟨h.lowerBound, h.upperBound, h.initialValue⟩,
    keeps_defaulted (yields_trivial _) fun _ _ _ h => ⟨h.lowerBound, h.upperBound, h.initialValue⟩,
    keeps_optional yields_number fun _ _ ho h => ⟨ho, h.upperBound, h.initialValue⟩,
    keeps_optional yields_number fun _ _ ho h => ⟨h.lowerBound, ho, h.initialValue⟩,
    keeps_optional yields_number fun _ _ ho h => ⟨h.lowerBound, h.upperBound, ho⟩, nofun⟩

/-- Whether the right-hand side of a row is finite. -/
structure Row.IsFinite (row : Row Float) : Prop where
  rhs : row.rhs.isFinite

theorem Row.restores {row : Row Float} (h : row.IsFinite) : layout.codec.Restores row := by
  refine Layout.restores (by decide) ?_
  exact .cons (carries_defaulted (restores_text _) nofun) <|
    .cons (carries_required (restores_text _)) <|
    .cons (carries_required (restores_word _)) <|
    .cons (carries_required (restores_number h.rhs)) .nil

theorem Row.yields : Yields layout.codec.read Row.IsFinite := by
  refine Layout.yields ⟨by decide⟩ ?_
  simp only [layout, List.forall_mem_cons]
  exact ⟨keeps_defaulted (yields_trivial _) fun _ _ _ h => ⟨h.rhs⟩,
    keeps_required (yields_trivial _) fun _ _ _ h => ⟨h.rhs⟩,
    keeps_required (yields_trivial _) fun _ _ _ h => ⟨h.rhs⟩,
    keeps_required yields_number fun _ _ hx _ => ⟨hx⟩, nofun⟩

theorem Objective.restores (objective : Objective) : layout.codec.Restores objective := by
  refine Layout.restores (by decide) ?_
  exact .cons (carries_defaulted (restores_text _) nofun) <|
    .cons (carries_defaulted (restores_word _) nofun) <|
    .cons (carries_defaulted (restores_text _) nofun) .nil

/-- Whether the coordinates of a location are finite. -/
structure Location.IsFinite (location : Location) : Prop where
  x : location.x.isFinite
  y : location.y.isFinite

theorem Location.restores {location : Location} (h : location.IsFinite) :
    layout.codec.Restores location := by
  refine Layout.restores (by decide) ?_
  exact .cons (carries_optional (fun _ _ => restores_text _) fun _ => rfl) <|
    .cons (carries_required (restores_number h.x)) <|
    .cons (carries_required (restores_number h.y)) .nil

theorem Location.yields : Yields layout.codec.read Location.IsFinite := by
  refine Layout.yields ⟨by decide, by decide⟩ ?_
  simp only [layout, List.forall_mem_cons]
  exact ⟨keeps_optional (yields_trivial _) fun _ _ _ h => ⟨h.x, h.y⟩,
    keeps_required yields_number fun _ _ hx h => ⟨hx, h.y⟩,
    keeps_required yields_number fun _ _ hy h => ⟨h.x, hy⟩, nofun⟩

/-- Whether all numbers of a model are finite. -/
structure Model.IsFinite (model : Model Float) : Prop where
  vars : ∀ v ∈ model.vars, v.IsFinite
  rows : ∀ row ∈ model.rows, row.IsFinite
  locations : ∀ location ∈ model.locations, location.IsFinite
  distances : ∀ matrix ∈ model.distances, ∀ row ∈ matrix, ∀ x ∈ row, x.isFinite

theorem Model.restores {model : Model Float} (h : model.IsFinite) :
    layout.codec.Restores model := by
  refine Layout.restores (by decide) ?_
  exact .cons (carries_defaulted (restores_text _) nofun) <|
    .cons (carries_required (restores_word _)) <|
    .cons (carries_defaulted (restores_list fun v hv => Variable.restores (h.vars v hv)) nofun) <|
    .cons (carries_defaulted (restores_list fun row hrow => Row.restores (h.rows row hrow))
      nofun) <|
    .cons (carries_defaulted (Objective.restores _) nofun) <|
    .cons (carries_list (fun location hlocation =>
      Location.restores (h.locations location hlocation)) rfl) <|
    .cons (carries_optional (fun _ _ => restores_count _) fun _ => rfl) <|
    .cons (carries_optional (fun _ _ => restores_count _) fun _ => rfl) <|
    .cons (carries_optional (fun matrix hmatrix => restores_list fun row hrow =>
      restores_list fun x hx => restores_number (h.distances matrix hmatrix row hrow x hx))
        fun _ => rfl) .nil

theorem Model.yields : Yields layout.codec.read Model.IsFinite := by
  refine Layout.yields ⟨nofun, nofun, nofun, nofun⟩ ?_
  simp only [layout, List.forall_mem_cons]
  have hsame {model other : Model Float} (h : model.IsFinite) (hvars : other.vars = model.vars)
      (hrows : other.rows = model.rows) (hlocations : other.locations = model.locations)
      (hdistances : other.distances = model.distances) : other.IsFinite :=
    ⟨hvars ▸ h.vars, hrows ▸ h.rows, hlocations ▸ h.locations, hdistances ▸ h.distances⟩
  exact ⟨keeps_defaulted (yields_trivial _) fun _ _ _ h => hsame h rfl rfl rfl rfl,
    keeps_required (yields_trivial _) fun _ _ _ h => hsame h rfl rfl rfl rfl,
    keeps_defaulted (yields_list Variable.yields) fun _ _ hvars h =>
      ⟨hvars, h.rows, h.locations, h.distances⟩,
    keeps_defaulted (yields_list Row.yields) fun _ _ hrows h =>
      ⟨h.vars, hrows, h.locations, h.distances⟩,
    keeps_defaulted (yields_trivial _) fun _ _ _ h => hsame h rfl rfl rfl rfl,
    keeps_defaulted (yields_list Location.yields) fun _ _ hlocations h =>
      ⟨h.vars, h.rows, hlocations, h.distances⟩,
    keeps_optional (yields_trivial _) fun _ _ _ h => hsame h rfl rfl rfl rfl,
    keeps_optional (yields_trivial _) fun _ _ _ h => hsame h rfl rfl rfl rfl,
    keeps_optional (yields_list (yields_list yields_number)) fun _ _ hdistances h =>
      ⟨h.vars, h.rows, h.locations, hdistances⟩, nofun⟩

/-! ### Settings -/

/-- Whether the numbers of settings are finite. -/
structure Config.IsFinite (config : Config) : Prop where
  timeLimit : ∀ x ∈ config.timeLimit, x.isFinite
  gapTolerance : ∀ x ∈ config.gapTolerance, x.isFinite

theorem Config.restores {config : Config} (h : config.IsFinite) : layout.codec.Restores config := by
  refine Layout.restores (by decide) ?_
  exact .cons (carries_optional (fun x hx => restores_number (h.timeLimit x hx)) fun _ => rfl) <|
    .cons (carries_optional (fun _ _ => restores_word32 _) fun _ => rfl) <|
    .cons (carries_optional (fun _ _ => restores_word64 _) fun _ => rfl) <|
    .cons (carries_optional (fun x hx => restores_number (h.gapTolerance x hx)) fun _ => rfl) <|
    .cons (carries_optional (fun _ _ => restores_word _) fun _ => rfl) <|
    .cons (carries_defaulted (restores_word _) nofun) .nil

theorem Config.yields : Yields layout.codec.read Config.IsFinite := by
  refine Layout.yields ⟨nofun, nofun⟩ ?_
  simp only [layout, List.forall_mem_cons]
  exact ⟨keeps_optional yields_number fun _ _ ho h => ⟨ho, h.gapTolerance⟩,
    keeps_optional (yields_trivial _) fun _ _ _ h => ⟨h.timeLimit, h.gapTolerance⟩,
    keeps_optional (yields_trivial _) fun _ _ _ h => ⟨h.timeLimit, h.gapTolerance⟩,
    keeps_optional yields_number fun _ _ ho h => ⟨h.timeLimit, ho⟩,
    keeps_optional (yields_trivial _) fun _ _ _ h => ⟨h.timeLimit, h.gapTolerance⟩,
    keeps_defaulted (yields_trivial _) fun _ _ _ h => ⟨h.timeLimit, h.gapTolerance⟩, nofun⟩

/-- The numbers of valid settings are finite. -/
theorem Config.isFinite_of_flaw?_eq_none {config : Config} (h : config.flaw? = none) :
    config.IsFinite := by
  have hfinite {o : Option Float} {p : Float → Bool}
      (hnone : (o.filter fun x => !x.isFinite || p x) = none) : ∀ x ∈ o, x.isFinite := by
    rintro x rfl
    by_contra hx
    rw [Option.filter_some, if_pos (by rw [Bool.eq_false_iff.2 hx]; rfl)] at hnone
    exact nomatch hnone
  rw [flaw?] at h
  split at h
  · exact nomatch h
  · next htime =>
    split at h
    · exact nomatch h
    · exact ⟨hfinite (Option.eq_none_iff_forall_ne_some.2 htime),
        hfinite (Option.map_eq_none_iff.1 h)⟩

/-! ### Results -/

/-- Whether all values of an assignment are finite. -/
structure Assignment.IsFinite (values : Assignment) : Prop where
  entries : ∀ e ∈ values.entries, e.2.isFinite

/-- A name behind all others is placed at the end. -/
theorem Assignment.place_of_lt {name : String} {entries : List (String × Float)}
    (h : ∀ e ∈ entries, e.1 < name) (x : Float) :
    place name x entries = entries ++ [(name, x)] := by
  induction entries with
  | nil => rfl
  | cons e entries ih =>
    obtain ⟨he, hentries⟩ := List.forall_mem_cons.1 h
    have hne : name ≠ e.1 := fun heq => String.lt_irrefl e.1 (heq ▸ he)
    rw [place, if_neg (String.lt_asymm he), if_neg hne, ih hentries, List.cons_append]

/-- The members of an assignment, as they are written. -/
def Assignment.memberTexts (entries : List (String × Float)) : List (List Char) :=
  entries.map fun e => memberText (e.1, number.write e.2)

/-- The value of the first member is read, and then the other members. -/
theorem Assignment.readMembers_cons (n : ℕ) (first : Bool) (values : Assignment)
    (e : String × Float) (entries : List (String × Float)) (rest : List Char) :
    readMembers (n + 1) first values (separated first (memberTexts (e :: entries)) ++ '}' :: rest) =
      (number.read >>= fun x => readMembers n false (values.insert e.1 x))
        (number.write e.2 ++ (separated false (memberTexts entries) ++ '}' :: rest)) := by
  have hnext : nextKey first (separated first (memberTexts (e :: entries)) ++ '}' :: rest) = _ :=
    nextKey_separated first (e.1, number.write e.2) (memberTexts entries) ('}' :: rest)
  rw [readMembers_of_name hnext, Reader.bind_of_ok (colon_cons _)]

/-- The members of an assignment are read in the order in which they are listed. -/
theorem Assignment.readMembers_separated {values result : Assignment}
    {entries : List (String × Float)} (hresult : result.entries = values.entries ++ entries)
    (h : ∀ e ∈ entries, e.2.isFinite) {n : ℕ} (hn : entries.length < n) (first : Bool)
    (rest : List Char) :
    readMembers n first values (separated first (memberTexts entries) ++ '}' :: rest) =
      .ok (result, rest) := by
  obtain ⟨n, rfl⟩ := Nat.exists_eq_succ_of_ne_zero (Nat.ne_of_gt (Nat.zero_lt_of_lt hn))
  induction entries generalizing values first n with
  | nil =>
    obtain ⟨entries, increasing⟩ := result
    obtain rfl : entries = values.entries := hresult.trans (List.append_nil _)
    rw [readMembers]
    exact Reader.bind_of_ok (nextKey_close first rest) _
  | cons e entries ih =>
    obtain ⟨he, hentries⟩ := List.forall_mem_cons.1 h
    obtain ⟨n, rfl⟩ := Nat.exists_eq_succ_of_ne_zero
      (Nat.ne_of_gt (Nat.zero_lt_of_lt (Nat.lt_of_succ_lt_succ hn)))
    -- the names of the result increase, so the next one is behind those that have been read
    have hplace : (values.insert e.1 e.2).entries = values.entries ++ [e] := by
      have hincreasing := result.increasing
      rw [hresult] at hincreasing
      exact place_of_lt (fun f hf =>
        (List.pairwise_append.1 hincreasing).2.2 f hf e List.mem_cons_self) e.2
    have hnumber := (restores_number he).read
      (delimited_separated (memberTexts entries) (delimited_brace rest))
    have hbehind : result.entries = (values.insert e.1 e.2).entries ++ entries := by
      rw [hresult, hplace, List.append_assoc, List.singleton_append]
    rw [readMembers_cons, Reader.bind_of_ok hnumber]
    exact ih hbehind hentries false n (Nat.lt_of_succ_lt_succ hn)

/-- There are steps enough for the members of an assignment. -/
theorem Assignment.read_write (values : Assignment) (rest : List Char) :
    ∃ n, values.entries.length < n ∧ codec.read (codec.write values ++ rest) =
      readMembers n true .empty (separated true (memberTexts values.entries) ++ '}' :: rest) := by
  have hne : ∀ item ∈ memberTexts values.entries, item ≠ [] := by
    intro item hitem
    obtain ⟨e, -, rfl⟩ := List.mem_map.1 hitem
    exact memberText_ne_nil _
  have hlength := length_le_separated hne true
  have hwrite : codec.write values =
      '{' :: (separated true (memberTexts values.entries) ++ ['}']) := by
    rw [← commaSeparated_eq]
    show writeMembers (values.entries.map fun e => (e.1, number.write e.2)) = _
    rw [writeMembers, List.map_map]
    rfl
  rw [memberTexts, List.length_map] at hlength
  refine ⟨(separated true (memberTexts values.entries) ++ '}' :: rest).length + 1, ?_, ?_⟩
  · rw [memberTexts, List.length_append]
    omega
  · rw [hwrite, List.cons_append, List.append_assoc]
    show (peekValue >>= _) _ = _
    rw [Reader.bind_of_ok (peekValue_cons (by decide)), if_pos rfl]
    rfl

theorem Assignment.restores {values : Assignment} (h : values.IsFinite) :
    codec.Restores values where
  opens := ⟨'{', _, rfl, rfl⟩
  read {rest} _ := by
    obtain ⟨n, hn, hread⟩ := values.read_write rest
    rw [hread]
    exact readMembers_separated (List.nil_append _).symm h.entries hn true rest

theorem Assignment.yields_readMembers (n : ℕ) (first : Bool) {values : Assignment}
    (h : values.IsFinite) : Yields (readMembers n first values) IsFinite := by
  induction n generalizing first values with
  | zero => exact yields_throw _ _
  | succ n ih =>
    refine yields_then fun name? => ?_
    cases name? with
    | none => exact yields_pure h
    | some name =>
      refine yields_then fun _ => yields_bind yields_number fun x hx => ih _ ⟨fun e he => ?_⟩
      rcases mem_place he with rfl | he
      · exact hx
      · exact h.entries e he

theorem Assignment.yields : Yields codec.read IsFinite := by
  refine yields_then fun c => ?_
  split
  · exact yields_then fun _ => yields_of_text fun text => yields_readMembers _ _ ⟨nofun⟩
  · exact yields_mismatch _ _ _

/-- Whether the length of a tour is finite. -/
structure Route.IsFinite (route : Route) : Prop where
  distance : route.distance.isFinite

theorem Route.restores {route : Route} (h : route.IsFinite) : layout.codec.Restores route := by
  refine Layout.restores (by decide) ?_
  exact .cons (carries_required (restores_count _)) <|
    .cons (carries_required (restores_list fun _ _ => restores_count _)) <|
    .cons (carries_required (restores_number h.distance)) .nil

theorem Route.yields : Yields layout.codec.read Route.IsFinite := by
  refine Layout.yields ⟨by decide⟩ ?_
  simp only [layout, List.forall_mem_cons]
  exact ⟨keeps_required (yields_trivial _) fun _ _ _ h => ⟨h.distance⟩,
    keeps_required (yields_trivial _) fun _ _ _ h => ⟨h.distance⟩,
    keeps_required yields_number fun _ _ hx _ => ⟨hx⟩, nofun⟩

/-- Whether all numbers of a result are finite. -/
structure Result.IsFinite (result : Result) : Prop where
  objectiveValue : ∀ x ∈ result.objectiveValue, x.isFinite
  values : ∀ values ∈ result.values, values.IsFinite
  gap : ∀ x ∈ result.gap, x.isFinite
  routes : ∀ routes ∈ result.routes, ∀ route ∈ routes, route.IsFinite
  solveTime : result.solveTime.isFinite

theorem Result.restores {result : Result} (h : result.IsFinite) : layout.codec.Restores result := by
  refine Layout.restores (by decide) ?_
  exact .cons (carries_required (restores_word _)) <|
    .cons (carries_optional (fun x hx => restores_number (h.objectiveValue x hx)) fun _ => rfl) <|
    .cons (carries_optional (fun _ hvalues => Assignment.restores (h.values _ hvalues))
      fun _ => rfl) <|
    .cons (carries_optional (fun x hx => restores_number (h.gap x hx)) fun _ => rfl) <|
    .cons (carries_optional (fun _ hroutes => restores_list fun route hroute =>
      Route.restores (h.routes _ hroutes route hroute)) fun _ => rfl) <|
    .cons (carries_optional (fun _ _ => restores_text _) fun _ => rfl) <|
    .cons (carries_required (restores_number h.solveTime)) .nil

theorem Result.yields : Yields layout.codec.read Result.IsFinite := by
  refine Layout.yields ⟨nofun, nofun, nofun, nofun, by decide⟩ ?_
  simp only [layout, List.forall_mem_cons]
  exact ⟨keeps_required (yields_trivial _) fun _ _ _ h =>
      ⟨h.objectiveValue, h.values, h.gap, h.routes, h.solveTime⟩,
    keeps_optional yields_number fun _ _ ho h => ⟨ho, h.values, h.gap, h.routes, h.solveTime⟩,
    keeps_optional Assignment.yields fun _ _ ho h =>
      ⟨h.objectiveValue, ho, h.gap, h.routes, h.solveTime⟩,
    keeps_optional yields_number fun _ _ ho h =>
      ⟨h.objectiveValue, h.values, ho, h.routes, h.solveTime⟩,
    keeps_optional (yields_list Route.yields) fun _ _ ho h =>
      ⟨h.objectiveValue, h.values, h.gap, ho, h.solveTime⟩,
    keeps_optional (yields_trivial _) fun _ _ _ h =>
      ⟨h.objectiveValue, h.values, h.gap, h.routes, h.solveTime⟩,
    keeps_required yields_number fun _ _ hx h =>
      ⟨h.objectiveValue, h.values, h.gap, h.routes, hx⟩, nofun⟩

/-! ### Decoding what has been encoded -/

/-- **Records of a kind round-trip**: each is decoded from its text, only such are decoded, and so
decoding, encoding and decoding again gives what was decoded first. -/
structure RoundTrips {ρ ε : Type} (decode : String → Except ε ρ) (encode : ρ → String)
    (p : ρ → Prop) : Prop where
  decode_encode : ∀ r, p r → decode (encode r) = .ok r
  of_decode : ∀ text r, decode text = .ok r → p r
  again : ∀ text r, decode text = .ok r → decode (encode r) = .ok r

/-- A codec that restores all that its reader yields. -/
theorem RoundTrips.of_codec {ρ : Type} {codec : Codec ρ} {p : ρ → Prop}
    (hrestores : ∀ r, p r → codec.Restores r) (hyields : Yields codec.read p) :
    RoundTrips codec.decode codec.encode p where
  decode_encode r hr := (hrestores r hr).decode_encode
  of_decode _ _ hdecode := yields_of_decode hyields hdecode
  again _ r hdecode := (hrestores r (yields_of_decode hyields hdecode)).decode_encode

theorem Model.roundTrips : RoundTrips decode encode IsFinite :=
  .of_codec (fun _ h => restores h) yields

theorem Config.roundTrips : RoundTrips layout.codec.decode encode IsFinite :=
  .of_codec (fun _ h => restores h) yields

theorem Result.roundTrips : RoundTrips decode encode IsFinite :=
  .of_codec (fun _ h => restores h) yields

theorem Config.flaw?_of_decode {text : String} {config : Config}
    (h : decode text = .ok config) : config.flaw? = none :=
  (decode_eq_ok_iff.1 h).2

/-- Valid settings are decoded from their text. -/
theorem Config.decode_encode_of_valid {config : Config} (h : config.flaw? = none) :
    decode config.encode = .ok config :=
  decode_eq_ok_iff.2 ⟨Config.roundTrips.decode_encode config (isFinite_of_flaw?_eq_none h), h⟩

/-- **Records round-trip**: models, settings and results whose numbers are finite, and of settings
also just the valid ones, when they are checked on decoding. -/
theorem records_roundTrip :
    RoundTrips Model.decode Model.encode Model.IsFinite ∧
      RoundTrips Config.layout.codec.decode Config.encode Config.IsFinite ∧
      RoundTrips Config.decode Config.encode (fun config => config.flaw? = none) ∧
      (∀ config : Config, config.flaw? = none → config.IsFinite) ∧
      RoundTrips Result.decode Result.encode Result.IsFinite := by
  refine ⟨Model.roundTrips, Config.roundTrips, ?_, fun _ => Config.isFinite_of_flaw?_eq_none,
    Result.roundTrips⟩
  exact {
    decode_encode := fun _ h => Config.decode_encode_of_valid h
    of_decode := fun _ _ h => Config.flaw?_of_decode h
    again := fun _ _ h => Config.decode_encode_of_valid (Config.flaw?_of_decode h) }

/-- A depot without a name, and no distances in a matrix that is there. -/
def lonelyDepot : Model Float where
  name := "depot \"0\""
  type := .vehicleRouting
  locations := [{ x := 0.5, y := -2.0 }]
  vehicles := some 1
  distances := some []

/-- Settings with a time limit and a seed. -/
def hurried : Config where
  timeLimit := some 1.5
  randomSeed := some 7

/-- An optimum with one value. -/
def tiny : Result where
  status := .optimal
  objectiveValue := some 0.5
  values := some (.ofList [("x", 0.5)])

theorem records_roundTrip_samples :
    Model.decode lonelyDepot.encode = .ok lonelyDepot ∧
      Config.decode hurried.encode = .ok hurried ∧ Result.decode tiny.encode = .ok tiny := by
  obtain ⟨hmodel, -, hconfig, -, hresult⟩ := records_roundTrip
  refine ⟨hmodel.decode_encode _ ⟨nofun, nofun, ?_, ?_⟩, hconfig.decode_encode _ rfl,
    hresult.decode_encode _ ⟨?_, ?_, nofun, nofun, by decide⟩⟩
  · rintro location (_ | ⟨_, ⟨⟩⟩)
    exact ⟨by decide, by decide⟩
  · rintro matrix ⟨⟩
    exact nofun
  · rintro x ⟨⟩
    decide
  · rintro values ⟨⟩
    constructor
    decide

end OptModel
