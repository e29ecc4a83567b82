import OptModel.Json.Scan
import OptModel.Vocabulary

/-!
# Codecs

A codec pairs the reader of a type with its writer, so that what a value looks like in a text is
said in one place. Values are written without blanks, numbers in the record spelling of doubles, and
a double that is not finite as `null`.

## Main definitions

* `Json.Codec` — a reader and a writer
* `Json.text`, `Json.number`, `Json.bounded`, `Json.word` — codecs of scalars
* `Json.nullable`, `Json.list` — codecs made from others
* `Json.Codec.decode`, `Json.Codec.encode` — whole texts
-/

namespace OptModel.Json

/-- How values of a type are read and written. -/
structure Codec (α : Type) where
  read : Reader α
  write : α → List Char

namespace Codec

/-- The value that a whole text holds. -/
def decode {α : Type} (codec : Codec α) (text : String) : Except Fault α :=
  readWhole codec.read text

/-- The text of a value. -/
def encode {α : Type} (codec : Codec α) (value : α) : String := String.ofList (codec.write value)

end Codec

/-! ### What was found instead -/

/-- The kind of the value that comes next and starts with `c`. Scalars are read to show them, and
fail if they are malformed; of a list or an object the bracket tells enough. -/
def found (c : Char) : Reader Found := do
  if c = 'n' then readWord "null"; pure .null
  else if c = 't' then readWord "true"; pure (.boolean true)
  else if c = 'f' then readWord "false"; pure (.boolean false)
  else if c = '-' || c.isDigit then Number.found <$> readNumber
  else if c = '"' then .text <$> readText
  else if c = '[' then pure .sequence
  else if c = '{' then pure .map
  else throw .expectedValue

/-- Fail because the value that comes next and starts with `c` is of the wrong kind. -/
def mismatch {α : Type} (expected : String) (c : Char) : Reader α := do
  throw (.wrongType (← found c) expected)

/-- The first character of a value that is due. -/
def peekValue : Reader Char := do
  match ← peek with
  | none => throw .endInValue
  | some c => pure c

/-! ### Scalars -/

/-- A hexadecimal digit, in lower case. -/
def hexDigit (n : Nat) : Char := Nat.digitChar n

/-- How a character is written inside a string. -/
def escaped (c : Char) : List Char :=
  if c = '"' then ['\\', '"']
  else if c = '\\' then ['\\', '\\']
  else if c = '\x08' then ['\\', 'b']
  else if c = '\x0c' then ['\\', 'f']
  else if c = '\n' then ['\\', 'n']
  else if c = '\r' then ['\\', 'r']
  else if c = '\t' then ['\\', 't']
  else if c.toNat < 0x20 then
    ['\\', 'u', '0', '0', hexDigit (c.toNat / 16), hexDigit (c.toNat % 16)]
  else [c]

/-- A string with its quotes. -/
def writeText (s : String) : List Char := '"' :: s.toList.flatMap escaped ++ ['"']

/-- A string, where `expected` is what a string here is called. -/
def readTextAs (expected : String) : Reader String := do
  let c ← peekValue
  if c = '"' then readText else mismatch expected c

/-- Strings. -/
def text : Codec String where
  read := readTextAs "a string"
  write := writeText

/-- A number, where `expected` is what a number here is called. -/
def readNumberAs (expected : String) : Reader Number := do
  let c ← peekValue
  if c = '-' || c.isDigit then readNumber else mismatch expected c

/-- Doubles. Every number is accepted. -/
def number : Codec Float where
  read := Number.toFloat <$> readNumberAs "f64"
  write x := if x.isFinite then Decimal.record.write x else "null".toList

/-- Naturals below `limit`, given as integers. -/
def readBounded (expected : String) (limit : Nat) : Reader Nat := do
  match ← readNumberAs expected with
  | .natural n =>
    if n < limit then pure n else throw (.wrongValue (Number.natural n).found expected)
  | .negative n => throw (.wrongValue (Number.negative n).found expected)
  | .floating x => throw (.wrongType (.floating x) expected)

/-- Naturals of thirty-two bits. -/
def word32 : Codec UInt32 where
  read := Nat.toUInt32 <$> readBounded "u32" UInt32.size
  write n := Decimal.digitsOf n.toNat

/-- Naturals of sixty-four bits. -/
def word64 : Codec UInt64 where
  read := Nat.toUInt64 <$> readBounded "u64" UInt64.size
  write n := Decimal.digitsOf n.toNat

/-- Counts and positions, which have sixty-four bits. -/
def count : Codec UInt64 where
  read := Nat.toUInt64 <$> readBounded "usize" UInt64.size
  write n := Decimal.digitsOf n.toNat

/-- The member of a vocabulary that `word` stands for. -/
def member {α : Type} [Vocabulary α] (word : String) : Reader α :=
  match Vocabulary.ofWord? α word with
  | some a => pure a
  | none => throw (.unknownWord word ((Vocabulary.all : List α).map Vocabulary.word))

/-- A `null` that is due. -/
def readNull : Reader Unit := do
  let c ← peekValue
  if c = 'n' then readWord "null" else mismatch "unit" c

/-- The members of a vocabulary, as their words. An object whose only key is the word and whose
value is `null` is accepted too. -/
def word (α : Type) [Vocabulary α] : Codec α where
  read := do
    let c ← peekValue
    if c = '"' then readText >>= member
    else if c = '{' then
      advance
      let value ← readTextAs "variant identifier" >>= member
      colon
      readNull
      match ← peek with
      | none => throw .endInObject
      | some '}' => advance; pure value
      | some _ => throw .expectedValue
    else throw .expectedValue
  write a := writeText (Vocabulary.word a)

/-! ### Containers -/

/-- A value or `null`. -/
def nullable {α : Type} (item : Codec α) : Codec (Option α) where
  read := do
    match ← peek with
    | some 'n' => readWord "null"; pure none
    | _ => some <$> item.read
  write
    | none => "null".toList
    | some a => item.write a

/-- The remaining items of a list. Every item takes at least one character, so the length of the
text is enough for the first argument. -/
def readItems {α : Type} (item : Reader α) : Nat → Bool → Reader (List α)
  | 0, _ => throw .endInList
  | n + 1, first => do
    if ← nextItem first then
      let a ← item
      let rest ← readItems item n false
      pure (a :: rest)
    else
      advance
      pure []

/-- Texts with commas between them. -/
def commaSeparated : List (List Char) → List Char := List.intercalate [',']

/-- Lists. -/
def list {α : Type} (item : Codec α) : Codec (List α) where
  read := do
    let c ← peekValue
    if c = '[' then
      advance
      fun text => readItems item.read (text.length + 1) true text
    else mismatch "a sequence" c
  write items := '[' :: commaSeparated (items.map item.write) ++ [']']

/-- The members of an object, its brace and the keys of its members included. -/
def writeMembers (members : List (String × List Char)) : List Char :=
  '{' :: commaSeparated (members.map fun m => writeText m.1 ++ ':' :: m.2) ++ ['}']

end OptModel.Json
