import OptModel.Decimal.Text
import OptModel.Text.Quoted

/-!
# What can be wrong with a JSON text

A text is read once from the left, and the first problem met is the fault. Problems of the syntax
and problems of the data (a wrong type, a missing field) are met in one pass, so either kind can
hide the other further right.

## Main definitions

* `Json.Found` — what stands where something else was due
* `Json.Fault` — the causes, and `Json.Fault.message` their texts
-/

namespace OptModel.Json

/-- The kind of value that stands at some place, with as much of it as messages show. -/
inductive Found where
  | null
  | boolean (b : Bool)
  | integer (i : Int)
  | floating (x : Float)
  | text (s : String)
  | sequence
  | map

/-- How messages name what was found. -/
def Found.describe : Found → String
  | null => "null"
  | boolean b => s!"boolean `{b}`"
  | integer i => s!"integer `{i}`"
  | floating x => "floating point `" ++ String.ofList (Decimal.record.write x) ++ "`"
  | text s => "string " ++ Text.quoted s
  | sequence => "sequence"
  | map => "map"

/-- Why a text cannot be read. -/
inductive Fault where
  | endInValue
  | endInObject
  | endInList
  | endInText
  | expectedValue
  | expectedWord
  | invalidNumber
  | numberOutOfRange
  | expectedColon
  | expectedCommaOrBrace
  | expectedCommaOrBracket
  | trailingComma
  | trailingCharacters
  | keyNotText
  | invalidEscape
  | controlCharacter
  | loneSurrogate
  | unpairedSurrogate
  | wrongType (found : Found) (expected : String)
  | wrongValue (found : Found) (expected : String)
  | duplicateField (name : String)
  | missingField (name : String)
  | shortArray (length : Nat) (record : String) (fields : Nat)
  | unknownWord (word : String) (expected : List String)

/-- The enumeration of the words that are accepted: two are joined by `or`, more are listed. -/
def enumerated (words : List String) : String :=
  let ticked := words.map fun w => "`" ++ w ++ "`"
  match ticked with
  | [a] => a
  | [a, b] => a ++ " or " ++ b
  | _ => "one of " ++ ", ".intercalate ticked

/-- The text of a fault. -/
def Fault.message : Fault → String
  | endInValue => "EOF while parsing a value"
  | endInObject => "EOF while parsing an object"
  | endInList => "EOF while parsing a list"
  | endInText => "EOF while parsing a string"
  | expectedValue => "expected value"
  | expectedWord => "expected ident"
  | invalidNumber => "invalid number"
  | numberOutOfRange => "number out of range"
  | expectedColon => "expected `:`"
  | expectedCommaOrBrace => "expected `,` or `\x7d`"
  | expectedCommaOrBracket => "expected `,` or `]`"
  | trailingComma => "trailing comma"
  | trailingCharacters => "trailing characters"
  | keyNotText => "key must be a string"
  | invalidEscape => "invalid escape"
  | controlCharacter => "control character (\\u0000-\\u001F) found while parsing a string"
  | loneSurrogate => "lone leading surrogate in hex escape"
  | unpairedSurrogate => "unexpected end of hex escape"
  | wrongType found expected => "invalid type: " ++ found.describe ++ ", expected " ++ expected
  | wrongValue found expected => "invalid value: " ++ found.describe ++ ", expected " ++ expected
  | duplicateField name => s!"duplicate field `{name}`"
  | missingField name => s!"missing field `{name}`"
  | shortArray length record fields =>
    s!"invalid length {length}, expected {record} with {fields} element" ++
      (if fields = 1 then "" else "s")
  | unknownWord word expected => s!"unknown variant `{word}`, expected " ++ enumerated expected

end OptModel.Json
