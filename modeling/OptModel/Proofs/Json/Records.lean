import OptModel.Json.Record
import OptModel.Proofs.Json.Codecs

/-!
# Records read back

What is written of a record is read field by field into the blank one. A field that is left out adds
nothing, and one that is written puts in what is read from its text, so what comes of the whole
follows from what every field carries over (`Layout.Carried`), as long as no two fields have the
same name. The record that comes out need not be the one that was written: that it is depends on the
fields, and on what the blank record has in those that are left out.

Reading stops at the first field that cannot be read, with the fault of that field.

## Main definitions

* `Json.Field.Carries` — what one field adds to what has been read
* `Json.Layout.Carried` — what several fields add
* `Json.Layout.Midway` — where the members of an object have been read up to

## Main results

* `Json.carries_required`, `carries_defaulted`, `carries_optional` — the three kinds of fields
* `Json.carries_list` — a list that is left out where it is empty
* `Json.Layout.read_write` — the record that comes of a text
* `Json.Layout.read_write_error` — the fault that comes of a text
-/

namespace OptModel.Json

variable {ρ α : Type} {text rest : List Char}

/-! ### Keys -/

theorem nextKey_close (first : Bool) (rest : List Char) :
    nextKey first ('}' :: rest) = .ok (none, rest) := by
  rw [nextKey, Reader.bind_of_ok (peek_cons (by decide))]
  rfl

/-- The text of a member. -/
def memberText (m : String × List Char) : List Char := writeText m.1 ++ ':' :: m.2

@[simp] theorem memberText_ne_nil (m : String × List Char) : memberText m ≠ [] :=
  List.cons_ne_nil _ _

/-- The first key of an object is due right away. -/
theorem nextKey_first (text : List Char) :
    nextKey true ('"' :: text) = (some <$> readText) ('"' :: text) := by
  rw [nextKey, Reader.bind_of_ok (peek_cons (by decide))]
  rfl

/-- Another key is due behind a comma. -/
theorem nextKey_comma (text : List Char) :
    nextKey false (',' :: '"' :: text) = (some <$> readText) ('"' :: text) := by
  rw [nextKey, Reader.bind_of_ok (peek_cons (by decide))]
  show (advance >>= fun _ => peek >>= _) (',' :: '"' :: text) = _
  rw [Reader.bind_of_ok (advance_cons ',' _), Reader.bind_of_ok (peek_cons (by decide))]
  rfl

theorem nextKey_separated (first : Bool) (m : String × List Char) (items : List (List Char))
    (rest : List Char) :
    nextKey first (separated first (memberText m :: items) ++ rest) =
      .ok (some m.1, ':' :: (m.2 ++ (separated false items ++ rest))) := by
  have hkey := Reader.map_of_ok
    (readText_writeText m.1 (':' :: (m.2 ++ (separated false items ++ rest)))) some
  have htext : separated first (memberText m :: items) ++ rest =
      (if first then [] else [',']) ++
        (writeText m.1 ++ ':' :: (m.2 ++ (separated false items ++ rest))) := by
    cases first with
    | true => simp [separated, memberText]
    | false => simp [separated, memberText]
  rw [htext]
  cases first with
  | true => exact (nextKey_first _).trans hkey
  | false => exact (nextKey_comma _).trans hkey

@[simp] theorem colon_cons (text : List Char) : colon (':' :: text) = .ok ((), text) := by
  rw [colon, Reader.bind_of_ok (peek_cons (by decide))]
  rfl

/-! ### Fields -/

/-- **What a field adds** to what has been read, when a record is written and read: nothing when it
is left out, else what is read from what is written. -/
inductive Field.Carries (field : Field ρ) (r acc : ρ) : ρ → Prop where
  | omitted (hwrite : field.write r = none) (hrequired : field.isRequired = false) :
    Carries field r acc acc
  | written {value : List Char} {put : ρ → ρ} (hwrite : field.write r = some value)
    (hread : ∀ {rest}, Delimited rest → field.read (value ++ rest) = .ok (put, rest)) :
    Carries field r acc (put acc)

/-- A field that is written and cannot be read. -/
def Field.Fails (field : Field ρ) (r : ρ) (fault : Fault) : Prop :=
  ∃ value, field.write r = some value ∧
    ∀ {rest}, Delimited rest → field.read (value ++ rest) = .error fault

variable {name : String} {codec : Codec α} {r acc : ρ}

theorem carries_required {get : ρ → α} {set : α → ρ → ρ} (h : codec.Restores (get r)) :
    (Field.required name codec get set).Carries r acc (set (get r) acc) :=
  .written rfl fun hrest => Reader.map_of_ok (h.read hrest) set

/-- A field that is left out where it has the value of the blank record. -/
theorem carries_defaulted {get : ρ → α} {set : α → ρ → ρ} {omitted : α → Bool}
    (h : codec.Restores (get r)) (homitted : omitted (get r) = true → set (get r) acc = acc) :
    (Field.defaulted name codec get set omitted).Carries r acc (set (get r) acc) := by
  cases hcase : omitted (get r) with
  | true =>
    rw [homitted hcase]
    exact .omitted (if_pos hcase) rfl
  | false =>
    exact .written (if_neg (by rw [hcase]; exact Bool.false_ne_true)) fun hrest =>
      Reader.map_of_ok (h.read hrest) set

/-- A list that is left out where it is empty, as it is in the blank record. -/
theorem carries_list {item : Codec α} {get : ρ → List α} {set : List α → ρ → ρ}
    (h : ∀ a ∈ get r, item.Restores a) (hempty : set [] acc = acc) :
    (Field.defaulted name (list item) get set List.isEmpty).Carries r acc (set (get r) acc) :=
  carries_defaulted (restores_list h) fun homitted => by
    rw [List.isEmpty_iff.1 homitted, hempty]

/-- A field that is left out where it is absent, as it is in the blank record. -/
theorem carries_optional {get : ρ → Option α} {set : Option α → ρ → ρ}
    (h : ∀ a ∈ get r, codec.Restores a) (hnone : get r = none → set none acc = acc) :
    (Field.optional name codec get set).Carries r acc (set (get r) acc) := by
  cases hget : get r with
  | none =>
    rw [hnone hget]
    exact .omitted (congrArg (Option.map codec.write) hget) rfl
  | some a =>
    have hrestores := restores_nullable (h a hget)
    exact .written (congrArg (Option.map codec.write) hget) fun hrest =>
      Reader.map_of_ok (hrestores.read hrest) set

/-! ### Records -/

namespace Layout

/-- What several fields add, one after the other. -/
inductive Carried (r : ρ) : List (Field ρ) → ρ → ρ → Prop where
  | nil {acc : ρ} : Carried r [] acc acc
  | cons {field : Field ρ} {fields : List (Field ρ)} {acc mid last : ρ}
    (hfield : field.Carries r acc mid) (hfields : Carried r fields mid last) :
    Carried r (field :: fields) acc last

/-- The texts of the members that a record has for some fields. -/
def memberTexts (r : ρ) (fields : List (Field ρ)) : List (List Char) :=
  (fields.filterMap fun field =>
    (field.write r).map fun value => (field.name, value)).map memberText

/-- Where the members of an object have been read up to: the fields before have been read or left
out, those behind have not been seen, and there are steps enough for them. -/
structure Midway (layout : Layout ρ) (r : ρ) (before after : List (Field ρ)) (n : Nat)
    (seen : List String) : Prop where
  fields : layout.fields = before ++ after
  required : ∀ field ∈ before, field.isRequired = true → field.name ∈ seen
  unseen : ∀ field ∈ after, field.name ∉ seen
  steps : (memberTexts r after).length < n

variable {layout : Layout ρ} {before after : List (Field ρ)} {field : Field ρ} {mid last : ρ}
  {n : Nat} {seen : List String} {fault : Fault}

theorem memberTexts_of_none (h : field.write r = none) :
    memberTexts r (field :: after) = memberTexts r after := by
  rw [memberTexts, List.filterMap_cons_none (by rw [h]; rfl)]
  rfl

theorem memberTexts_of_some {value : List Char} (h : field.write r = some value) :
    memberTexts r (field :: after) = memberText (field.name, value) :: memberTexts r after := by
  rw [memberTexts, List.filterMap_cons_some (by rw [h]; rfl)]
  rfl

/-- A field is found by its name. -/
theorem find?_name (hnames : (layout.fields.map (·.name)).Nodup) (hfield : field ∈ layout.fields) :
    (layout.fields.find? fun f => f.name == field.name) = some field := by
  cases hfind : layout.fields.find? fun f => f.name == field.name with
  | none =>
    rw [List.find?_eq_none] at hfind
    exact absurd (beq_self_eq_true _) (hfind field hfield)
  | some other =>
    have hname := List.find?_some hfind
    have hmem := List.mem_of_find?_eq_some hfind
    rw [List.inj_on_of_nodup_map hnames hmem hfield (eq_of_beq hname)]

/-- The next member is that of a field that is written. -/
theorem Midway.readMembers_eq (hnames : (layout.fields.map (·.name)).Nodup)
    (h : layout.Midway r before (field :: after) n seen) {value : List Char}
    (hwrite : field.write r = some value) (first : Bool) (acc : ρ) (rest : List Char) :
    ∃ n', n = n' + 1 ∧
      layout.readMembers n first seen acc
          (separated first (memberTexts r (field :: after)) ++ rest) =
        (field.read >>= fun put => layout.readMembers n' false (field.name :: seen) (put acc))
          (value ++ (separated false (memberTexts r after) ++ rest)) := by
  obtain ⟨n, rfl⟩ := Nat.exists_eq_succ_of_ne_zero (Nat.ne_of_gt (Nat.zero_lt_of_lt h.steps))
  have hmem : field ∈ layout.fields := by
    rw [h.fields]
    exact List.mem_append_right _ List.mem_cons_self
  have hseen : seen.contains field.name = false := by
    rw [List.contains_eq_mem, decide_eq_false_iff_not]
    exact h.unseen field List.mem_cons_self
  refine ⟨n, rfl, ?_⟩
  rw [memberTexts_of_some hwrite, readMembers_of_field (nextKey_separated _ _ _ _)
    (find?_name hnames hmem) hseen, Reader.bind_of_ok (colon_cons _)]

/-- **One field more.** -/
theorem Midway.step (hnames : (layout.fields.map (·.name)).Nodup)
    (h : layout.Midway r before (field :: after) n seen) (hfield : field.Carries r acc mid)
    (first : Bool) (hrest : Delimited rest) :
    ∃ n' first' seen', layout.Midway r (before ++ [field]) after n' seen' ∧
      layout.readMembers n first seen acc
          (separated first (memberTexts r (field :: after)) ++ rest) =
        layout.readMembers n' first' seen' mid
          (separated first' (memberTexts r after) ++ rest) := by
  have hfields : layout.fields = before ++ [field] ++ after := by
    rw [h.fields, List.append_assoc, List.singleton_append]
  cases hfield with
  | omitted hwrite hrequired =>
    refine ⟨n, first, seen,
      ⟨hfields, ?_, fun f hf => h.unseen f (List.mem_cons_of_mem _ hf), ?_⟩, ?_⟩
    · intro f hf
      rcases List.mem_append.1 hf with hf | hf
      · exact h.required f hf
      · rw [List.mem_singleton.1 hf, hrequired]
        exact fun hfalse => absurd hfalse Bool.false_ne_true
    · have hsteps := h.steps
      rwa [memberTexts_of_none hwrite] at hsteps
    · rw [memberTexts_of_none hwrite]
  | @written value put hwrite hread =>
    obtain ⟨n, rfl, hmembers⟩ := h.readMembers_eq hnames hwrite first acc rest
    refine ⟨n, false, field.name :: seen, ⟨hfields, ?_, ?_, ?_⟩, ?_⟩
    · intro f hf hrequired
      rcases List.mem_append.1 hf with hf | hf
      · exact List.mem_cons_of_mem _ (h.required f hf hrequired)
      · rw [List.mem_singleton.1 hf]
        exact List.mem_cons_self
    · intro f hf hmem
      rcases List.mem_cons.1 hmem with heq | hmem
      · -- two fields of one name
        rw [h.fields, List.map_append, List.map_cons] at hnames
        have hcons := (List.nodup_append.1 hnames).2.1
        exact (List.nodup_cons.1 hcons).1 (heq ▸ List.mem_map_of_mem hf)
      · exact h.unseen f (List.mem_cons_of_mem _ hf) hmem
    · have hsteps := h.steps
      rw [memberTexts_of_some hwrite, List.length_cons] at hsteps
      omega
    · rw [hmembers, Reader.bind_of_ok (hread (delimited_separated _ hrest))]

/-- **Several fields more.** -/
theorem Midway.run (hnames : (layout.fields.map (·.name)).Nodup)
    {fields : List (Field ρ)} (hcarried : Carried r fields acc last)
    (h : layout.Midway r before (fields ++ after) n seen) (first : Bool) (hrest : Delimited rest) :
    ∃ n' first' seen', layout.Midway r (before ++ fields) after n' seen' ∧
      layout.readMembers n first seen acc
          (separated first (memberTexts r (fields ++ after)) ++ rest) =
        layout.readMembers n' first' seen' last
          (separated first' (memberTexts r after) ++ rest) := by
  induction hcarried generalizing before n first seen with
  | nil => exact ⟨n, first, seen, by rwa [List.append_nil], rfl⟩
  | cons hfield _ ih =>
    obtain ⟨n₁, first₁, seen₁, hmidway, hstep⟩ := h.step hnames hfield first hrest
    obtain ⟨n₂, first₂, seen₂, hmidway', hrun⟩ := ih hmidway first₁
    rw [List.append_assoc] at hmidway'
    exact ⟨n₂, first₂, seen₂, hmidway', hstep.trans hrun⟩

/-- Before the first member nothing has been read. -/
theorem midway_start {fields : List (Field ρ)} (hfields : layout.fields = fields) (r : ρ)
    {text : List Char} (htext : (separated true (memberTexts r fields)).length ≤ text.length) :
    layout.Midway r [] fields (text.length + 1) [] := by
  have hne : ∀ item ∈ memberTexts r fields, item ≠ [] := by
    intro item hitem
    obtain ⟨m, -, rfl⟩ := List.mem_map.1 hitem
    exact memberText_ne_nil m
  exact ⟨hfields, nofun, fun _ _ => List.not_mem_nil,
    Nat.lt_succ_of_le ((length_le_separated hne true).trans htext)⟩

theorem write_eq (layout : Layout ρ) (r : ρ) :
    layout.codec.write r = '{' :: (separated true (memberTexts r layout.fields) ++ ['}']) := by
  rw [← commaSeparated_eq]
  rfl

/-- The members of an object are read into the blank record. -/
theorem read_object (layout : Layout ρ) (text : List Char) :
    layout.codec.read ('{' :: text) =
      layout.readMembers (text.length + 1) true [] layout.blank text := by
  show (peekValue >>= _) _ = _
  rw [Reader.bind_of_ok (peekValue_cons (by decide))]
  rfl

/-- **The record that comes of a text** is what the fields carry over into the blank one. -/
theorem read_write (hnames : (layout.fields.map (·.name)).Nodup)
    (h : Carried r layout.fields layout.blank last) (rest : List Char) :
    layout.codec.read (layout.codec.write r ++ rest) = .ok (last, rest) := by
  set text := separated true (memberTexts r layout.fields) ++ '}' :: rest with htext
  have hwrite : layout.codec.write r ++ rest = '{' :: text := by
    rw [write_eq, List.cons_append, List.append_assoc, htext]
    rfl
  have hstart : layout.Midway r [] (layout.fields ++ []) (text.length + 1) [] := by
    refine midway_start (List.append_nil _).symm r ?_
    rw [List.append_nil, htext, List.length_append]
    omega
  obtain ⟨n, first, seen, hend, hrun⟩ := hstart.run hnames h true (delimited_brace rest)
  rw [List.append_nil] at hrun
  obtain ⟨n, rfl⟩ := Nat.exists_eq_succ_of_ne_zero (Nat.ne_of_gt (Nat.zero_lt_of_lt hend.steps))
  have hmissing : layout.firstMissing? seen = none := by
    rw [firstMissing?, Option.map_eq_none_iff, List.find?_eq_none]
    rintro ⟨field, i⟩ hfield
    have hmem : field ∈ [] ++ layout.fields := (List.mem_zipIdx' hfield).2 ▸ List.getElem_mem _
    rw [Bool.and_eq_true, not_and]
    intro hrequired
    rw [List.contains_iff_mem.2 (hend.required field hmem hrequired)]
    exact Bool.false_ne_true
  rw [hwrite, read_object, htext, hrun]
  exact readMembers_of_end (nextKey_close first rest) hmissing _ _

/-- **The fault that comes of a text** is that of the first field that cannot be read. -/
theorem read_write_error (hnames : (layout.fields.map (·.name)).Nodup)
    (hfields : layout.fields = before ++ field :: after) (h : Carried r before layout.blank mid)
    (hfails : field.Fails r fault) (rest : List Char) :
    layout.codec.read (layout.codec.write r ++ rest) = .error fault := by
  set text := separated true (memberTexts r (before ++ field :: after)) ++ '}' :: rest with htext
  have hwrite : layout.codec.write r ++ rest = '{' :: text := by
    rw [write_eq, List.cons_append, List.append_assoc, htext, hfields]
    rfl
  have hstart : layout.Midway r [] (before ++ field :: after) (text.length + 1) [] := by
    refine midway_start hfields r ?_
    rw [htext, List.length_append]
    omega
  obtain ⟨n, first, seen, hmidway, hrun⟩ :=
    hstart.run hnames h true (delimited_brace rest)
  obtain ⟨value, hvalue, hread⟩ := hfails
  obtain ⟨n, -, hmembers⟩ := hmidway.readMembers_eq hnames hvalue first mid ('}' :: rest)
  rw [hwrite, read_object, htext, hrun, hmembers]
  exact Reader.bind_of_error (hread (delimited_separated _ (delimited_brace rest))) _

/-- A record that its fields carry over is restored. -/
theorem restores (hnames : (layout.fields.map (·.name)).Nodup)
    (h : Carried r layout.fields layout.blank r) : layout.codec.Restores r where
  opens := ⟨'{', _, rfl, rfl⟩
  read {rest} _ := read_write hnames h rest

end Layout

end OptModel.Json
