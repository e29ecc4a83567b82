import OptModel.Proofs.Json.Records

/-!
# Values that are not read back

A double that is not finite is written as `null`. Where a number may be absent this is read as its
absence, so the number is gone from the record that comes back; where a number has to be, it is a
fault. A fault inside a value is a fault of the value, whatever that is made of: reading a list
stops at its first item that cannot be read, and reading a record at the first such field.

## Main definitions

* `Json.Codec.Fails` — what has been written cannot be read

## Main results

* `Json.carries_number` — a number that may be absent
* `Json.fails_number` — a number that has to be there
* `Json.fails_optional`, `Json.fails_list`, `Json.Layout.fails` — values made from others
-/

namespace OptModel.Json

variable {ρ α : Type} {fault : Fault}

/-- **What is written of a value cannot be read**, for the same reason whatever follows. -/
structure Codec.Fails (codec : Codec α) (a : α) (fault : Fault) : Prop where
  opens : ∃ c more, codec.write a = c :: more ∧ opens c
  read : ∀ {rest}, Delimited rest → codec.read (codec.write a ++ rest) = .error fault

theorem Codec.Fails.decode_encode {codec : Codec α} {a : α} (h : codec.Fails a fault) :
    codec.decode (codec.encode a) = .error fault := by
  have hread := h.read delimited_nil
  rw [List.append_nil] at hread
  rw [decode, encode, readWhole_of_error (by rwa [String.toList_ofList])]

/-! ### Numbers -/

theorem write_number_of_not_isFinite {x : Float} (hx : ¬ x.isFinite) :
    number.write x = ['n', 'u', 'l', 'l'] := if_neg hx

theorem read_number_null (rest : List Char) :
    number.read ('n' :: 'u' :: 'l' :: 'l' :: rest) = .error (.wrongType .null "f64") := by
  refine Reader.map_of_error ?_ _
  rw [readNumberAs, Reader.bind_of_ok (peekValue_cons (by decide)), if_neg (by decide)]
  rfl

theorem read_number_of_not_isFinite {x : Float} (hx : ¬ x.isFinite) (rest : List Char) :
    number.read (number.write x ++ rest) = .error (.wrongType .null "f64") := by
  rw [write_number_of_not_isFinite hx]
  exact read_number_null rest

/-! ### Fields -/

section Fields

variable {name : String} {codec : Codec α} {r acc : ρ}

/-- **A number that may be absent** is absent from what is read when it is not finite. -/
theorem carries_number {get : ρ → Option Float} {set : Option Float → ρ → ρ}
    (hnone : set none acc = acc) :
    (Field.optional name number get set).Carries r acc
      (set ((get r).filter Float.isFinite) acc) := by
  have hwrite : (Field.optional name number get set).write r = (get r).map number.write := rfl
  cases hget : get r with
  | none =>
    rw [hget] at hwrite
    rw [Option.filter_none, hnone]
    exact .omitted hwrite rfl
  | some x =>
    rw [hget] at hwrite
    by_cases hx : x.isFinite
    · rw [Option.filter_some, if_pos hx]
      exact .written hwrite fun hrest =>
        Reader.map_of_ok ((restores_nullable (restores_number hx)).read hrest) set
    · rw [Option.filter_some, if_neg hx]
      refine .written hwrite fun {rest} _ => ?_
      rw [write_number_of_not_isFinite hx]
      exact Reader.map_of_ok (read_nullable_null number rest) set

/-- **A number that has to be there** is not read when it is not finite. -/
theorem fails_number {get : ρ → Float} {set : Float → ρ → ρ} (h : ¬ (get r).isFinite) :
    (Field.required name number get set).Fails r (.wrongType .null "f64") :=
  ⟨_, rfl, fun {rest} _ => Reader.map_of_error (read_number_of_not_isFinite h rest) set⟩

theorem fails_optional {get : ρ → Option α} {set : Option α → ρ → ρ} {a : α} (hget : get r = some a)
    (h : codec.Fails a fault) : (Field.optional name codec get set).Fails r fault := by
  refine ⟨codec.write a, congrArg (Option.map codec.write) hget, fun {rest} hrest => ?_⟩
  obtain ⟨c, more, hcons, hc⟩ := h.opens
  have hread := Reader.map_of_error (h.read hrest) some
  rw [hcons, List.cons_append] at hread ⊢
  rw [← read_nullable_of_opens codec hc] at hread
  exact Reader.map_of_error hread set

/-- A field is read or fails as the value does that is there. -/
theorem carries_or_fails_optional {get : ρ → Option α} {set : Option α → ρ → ρ}
    (h : ∀ a ∈ get r, codec.Restores a ∨ codec.Fails a fault) :
    (∃ acc mid, (Field.optional name codec get set).Carries r acc mid) ∨
      (Field.optional name codec get set).Fails r fault := by
  cases hget : get r with
  | none => exact .inl ⟨r, r, .omitted (congrArg (Option.map codec.write) hget) rfl⟩
  | some a =>
    rcases h a hget with hrestores | hfails
    · have hnullable := restores_nullable hrestores
      exact .inl ⟨r, _, .written (congrArg (Option.map codec.write) hget) fun hrest =>
        Reader.map_of_ok (hnullable.read hrest) set⟩
    · exact .inr (fails_optional hget hfails)

/-- A number that has to be there is read or fails. -/
theorem carries_or_fails_number {get : ρ → Float} {set : Float → ρ → ρ} :
    (∃ acc mid, (Field.required name number get set).Carries r acc mid) ∨
      (Field.required name number get set).Fails r (.wrongType .null "f64") := by
  by_cases h : (get r).isFinite
  · exact .inl ⟨r, _, carries_required (restores_number h)⟩
  · exact .inr (fails_number h)

end Fields

/-! ### Lists -/

/-- The items of a list are read up to the first one that cannot be. -/
theorem readItems_separated_error {item : Codec α} {items : List α}
    (h : ∀ a ∈ items, item.Restores a ∨ item.Fails a fault)
    (hfails : ∃ a ∈ items, item.Fails a fault) {n : Nat} (hn : items.length < n) (first : Bool)
    (rest : List Char) :
    readItems item.read n first (separated first (items.map item.write) ++ ']' :: rest) =
      .error fault := by
  obtain ⟨n, rfl⟩ := Nat.exists_eq_succ_of_ne_zero (Nat.ne_of_gt (Nat.zero_lt_of_lt hn))
  induction items generalizing n first with
  | nil => exact absurd hfails nofun
  | cons a items ih =>
    obtain ⟨ha, hitems⟩ := List.forall_mem_cons.1 h
    have hbehind := delimited_separated (items.map item.write) (delimited_bracket rest)
    by_cases hfault : item.Fails a fault
    · rw [readItems_cons hfault.opens, Reader.bind_of_error (hfault.read hbehind)]
    · have hrestores := ha.resolve_right hfault
      have hlater := (List.or_exists_of_exists_mem_cons hfails).resolve_left hfault
      obtain ⟨n, rfl⟩ := Nat.exists_eq_succ_of_ne_zero
        (Nat.ne_of_gt (Nat.zero_lt_of_lt (Nat.lt_of_succ_lt_succ hn)))
      have hrest := ih hitems hlater false n (Nat.lt_of_succ_lt_succ hn)
      rw [readItems_cons hrestores.opens, Reader.bind_of_ok (hrestores.read hbehind),
        Reader.bind_of_error hrest]

/-- **A list with an item that cannot be read** cannot be read. -/
theorem fails_list {item : Codec α} {items : List α}
    (h : ∀ a ∈ items, item.Restores a ∨ item.Fails a fault)
    (hfails : ∃ a ∈ items, item.Fails a fault) : (list item).Fails items fault where
  opens := ⟨'[', _, write_list item items, rfl⟩
  read {rest} _ := by
    obtain ⟨n, hn, hread⟩ := read_list
      (fun a ha => (h a ha).elim Codec.Restores.opens Codec.Fails.opens) rest
    rw [hread]
    exact readItems_separated_error h hfails hn true rest

/-! ### Records -/

/-- Whether a field is read does not depend on what has been read before it. -/
theorem Field.Carries.exists_carries {field : Field ρ} {r acc mid : ρ}
    (h : field.Carries r acc mid) (other : ρ) : ∃ mid, field.Carries r other mid := by
  cases h with
  | omitted hwrite hrequired => exact ⟨_, .omitted hwrite hrequired⟩
  | written hwrite hread => exact ⟨_, .written hwrite hread⟩

namespace Layout

/-- Of fields some of which fail the first one that does comes behind fields that are read. -/
theorem exists_first_failing {fields : List (Field ρ)} {r : ρ}
    (h : ∀ field ∈ fields, (∃ acc mid, field.Carries r acc mid) ∨ field.Fails r fault)
    (hfails : ∃ field ∈ fields, field.Fails r fault) (acc : ρ) :
    ∃ before field after mid, fields = before ++ field :: after ∧ Carried r before acc mid ∧
      field.Fails r fault := by
  induction fields generalizing acc with
  | nil => exact absurd hfails nofun
  | cons field fields ih =>
    obtain ⟨hfield, hfields⟩ := List.forall_mem_cons.1 h
    by_cases hfault : field.Fails r fault
    · exact ⟨[], field, fields, acc, rfl, .nil, hfault⟩
    · obtain ⟨acc', mid', hcarries⟩ := hfield.resolve_right hfault
      obtain ⟨next, hnext⟩ := hcarries.exists_carries acc
      have hlater := (List.or_exists_of_exists_mem_cons hfails).resolve_left hfault
      obtain ⟨before, first, after, mid, rfl, hbefore, hfirst⟩ := ih hfields hlater next
      exact ⟨field :: before, first, after, mid, rfl, .cons hnext hbefore, hfirst⟩

/-- **A record with a field that cannot be read** cannot be read. -/
theorem fails {layout : Layout ρ} {r : ρ} (hnames : (layout.fields.map (·.name)).Nodup)
    (h : ∀ field ∈ layout.fields, (∃ acc mid, field.Carries r acc mid) ∨ field.Fails r fault)
    (hfails : ∃ field ∈ layout.fields, field.Fails r fault) : layout.codec.Fails r fault where
  opens := ⟨'{', _, rfl, rfl⟩
  read {rest} _ := by
    obtain ⟨before, field, after, mid, hfields, hbefore, hfirst⟩ :=
      exists_first_failing h hfails layout.blank
    exact read_write_error hnames hfields hbefore hfirst rest

end Layout

end OptModel.Json
