import OptModel.Json.Codec

/-!
# Records

A record is an object with known keys. Its layout is a list of fields, each of which knows how to
read its value into a record and how to write it out of one; a record is read by overwriting a blank
one. Keys that are not known are passed over, a known key must not come twice, and a field that is
required must come. A record may also be given as a list of its values, in the order of the layout,
from which fields that are not required may be missing at the end.

## Main definitions

* `Json.Field` — one field of a record
* `Json.Field.required`, `Json.Field.defaulted`, `Json.Field.optional` — the three kinds of fields
* `Json.Layout` — the fields of a record
* `Json.Layout.codec` — the codec of a record
-/

namespace OptModel.Json

variable {ρ α : Type}

/-- One field of records of type `ρ`. -/
structure Field (ρ : Type) where
  name : String
  isRequired : Bool
  /-- Read the value, to be put into a record. -/
  read : Reader (ρ → ρ)
  /-- The written value, unless the field is left out. -/
  write : ρ → Option (List Char)

/-- A field that has to be there. -/
def Field.required (name : String) (codec : Codec α) (get : ρ → α) (set : α → ρ → ρ) :
    Field ρ where
  name := name
  isRequired := true
  read := set <$> codec.read
  write r := some (codec.write (get r))

/-- A field that keeps the value of the blank record when it is not there, and is left out of
records for which `omitted` holds. -/
def Field.defaulted (name : String) (codec : Codec α) (get : ρ → α) (set : α → ρ → ρ)
    (omitted : α → Bool) : Field ρ where
  name := name
  isRequired := false
  read := set <$> codec.read
  write r := if omitted (get r) then none else some (codec.write (get r))

/-- A field that may be absent. It is read from `null` too, and left out when absent. -/
def Field.optional (name : String) (codec : Codec α) (get : ρ → Option α)
    (set : Option α → ρ → ρ) : Field ρ where
  name := name
  isRequired := false
  read := set <$> (nullable codec).read
  write r := (get r).map codec.write

/-- The fields of a record, in the order in which they are written. -/
structure Layout (ρ : Type) where
  /-- What messages call the record. -/
  title : String
  /-- The record that nothing has been read into. -/
  blank : ρ
  fields : List (Field ρ)

namespace Layout

/-- The position of the first required field that is not among `seen`, and its name. -/
def firstMissing? (layout : Layout ρ) (seen : List String) : Option (Nat × String) :=
  (layout.fields.zipIdx.find? fun (field, _) => field.isRequired && !seen.contains field.name).map
    fun (field, i) => (i, field.name)

/-- The remaining members of an object, read into a record whose fields `seen` have been read
already. -/
def readMembers (layout : Layout ρ) : Nat → Bool → List String → ρ → Reader ρ
  | 0, _, _, _ => throw .endInObject
  | n + 1, first, seen, record => do
    match ← nextKey first with
    | none =>
      match layout.firstMissing? seen with
      | some (_, name) => throw (.missingField name)
      | none => pure record
    | some key =>
      match layout.fields.find? fun field => field.name == key with
      | none =>
        colon
        skipValue
        readMembers layout n false seen record
      | some field =>
        if seen.contains key then throw (.duplicateField key)
        else
          colon
          let put ← field.read
          readMembers layout n false (key :: seen) (put record)

section Members

variable {layout : Layout ρ} {first : Bool} {seen : List String} {text rest : List Char}

theorem readMembers_of_end (hkey : nextKey first text = .ok (none, rest))
    (hmissing : layout.firstMissing? seen = none) (n : Nat) (record : ρ) :
    layout.readMembers (n + 1) first seen record text = .ok (record, rest) := by
  rw [readMembers, Reader.bind_of_ok hkey]
  simp only [hmissing]
  rfl

theorem readMembers_of_field {field : Field ρ} {key : String}
    (hkey : nextKey first text = .ok (some key, rest))
    (hfind : (layout.fields.find? fun field => field.name == key) = some field)
    (hseen : seen.contains key = false) (n : Nat) (record : ρ) :
    layout.readMembers (n + 1) first seen record text =
      (colon >>= fun _ => field.read >>= fun put =>
        layout.readMembers n false (key :: seen) (put record)) rest := by
  rw [readMembers, Reader.bind_of_ok hkey]
  simp only [hfind, hseen, Bool.false_eq_true, if_false]

end Members

/-- The values of a list, read into the fields of a record one after the other. -/
def readPositions (layout : Layout ρ) : List (Field ρ) → Bool → List String → ρ → Reader ρ
  | [], _, _, record => closeList record
  | field :: fields, first, seen, record => do
    if ← nextItem first then
      let put ← field.read
      readPositions layout fields false (field.name :: seen) (put record)
    else
      match layout.firstMissing? seen with
      | some (i, _) => throw (.shortArray i layout.title layout.fields.length)
      | none => closeList record
where
  /-- The end of the list, at which the record is complete. -/
  closeList (record : ρ) : Reader ρ := do
    match ← peek with
    | none => throw .endInList
    | some ']' => advance; pure record
    | some ',' => do
      advance
      match ← peek with
      | some ']' => throw .trailingComma
      | _ => throw .trailingCharacters
    | some _ => throw .trailingCharacters

/-- Records of this layout. -/
def codec (layout : Layout ρ) : Codec ρ where
  read := do
    let c ← peekValue
    if c = '{' then
      advance
      fun text => layout.readMembers (text.length + 1) true [] layout.blank text
    else if c = '[' then
      advance
      layout.readPositions layout.fields true [] layout.blank
    else mismatch layout.title c
  write r := writeMembers (layout.fields.filterMap fun field =>
    (field.write r).map fun value => (field.name, value))

end Layout

end OptModel.Json
