import OptModel.Json.Fault
import OptModel.Decimal.Literal

/-!
# The parts of a JSON text

A reader takes a text, as a list of characters, to a value and the rest of the text, or to a fault.
Here are the readers of the parts that every value is made of: blanks, words, strings and numbers,
the commas and closing brackets of lists and objects, and whole values that are passed over.

A literal that is not an integer of sixty-four bits is read as the double nearest to it, however
many digits it has, and refused if that is infinite. This is the assumption on which a double is the
same once it has been written and read back: a reader that is off in the last place for some
literals would not give every double back.

## Main definitions

* `Json.Reader` — a reader of a value
* `Json.readText` — a string after its opening quote, with its escapes undone
* `Json.readNumber` — a number, its sign, fraction and exponent told apart
* `Json.skipValue` — any value, checked for syntax only
* `Json.nextItem`, `Json.nextKey` — what separates the items of lists and the members of objects
-/

namespace OptModel.Json

/-- A reader of a value from the front of a text. -/
abbrev Reader := StateT (List Char) (Except Fault)

namespace Reader

variable {α β : Type} {x : Reader α} {text rest : List Char} {a : α} {fault : Fault}

theorem bind_of_ok (h : x text = .ok (a, rest)) (f : α → Reader β) : (x >>= f) text = f a rest := by
  show (x text >>= fun read => f read.1 read.2) = _
  rw [h]
  rfl

theorem bind_of_error (h : x text = .error fault) (f : α → Reader β) :
    (x >>= f) text = .error fault := by
  show (x text >>= fun read => f read.1 read.2) = _
  rw [h]
  rfl

theorem map_of_ok (h : x text = .ok (a, rest)) (f : α → β) : (f <$> x) text = .ok (f a, rest) := by
  show (x text >>= fun read => pure (f read.1, read.2)) = _
  rw [h]
  rfl

theorem map_of_error (h : x text = .error fault) (f : α → β) :
    (f <$> x) text = .error fault := by
  show (x text >>= fun read => pure (f read.1, read.2)) = _
  rw [h]
  rfl

end Reader

/-! ### Blanks and words -/

/-- The four blanks of the format. -/
def isSpace (c : Char) : Bool := c = ' ' || c = '\t' || c = '\n' || c = '\r'

/-- The first character that is no blank, left in place. -/
def peek : Reader (Option Char) := fun text =>
  let rest := text.dropWhile isSpace
  .ok (rest.head?, rest)

/-- Pass over one character. -/
def advance : Reader Unit := fun text => .ok ((), text.drop 1)

/-- The remaining letters of a word that has been recognised by its first one. -/
def letters : List Char → List Char → Except Fault (Unit × List Char)
  | [], text => .ok ((), text)
  | _ :: _, [] => .error .endInValue
  | w :: word, c :: text => if w = c then letters word text else .error .expectedWord

/-- A word that has been recognised by its first letter. -/
def readWord (word : String) : Reader Unit := fun text => letters (word.toList.drop 1) (text.drop 1)

/-! ### Strings -/

/-- The value of a hexadecimal digit. -/
def hexValue? (c : Char) : Option Nat :=
  if c.isDigit then some (c.toNat - '0'.toNat)
  else if 'a' ≤ c && c ≤ 'f' then some (c.toNat - 'a'.toNat + 10)
  else if 'A' ≤ c && c ≤ 'F' then some (c.toNat - 'A'.toNat + 10)
  else none

/-- The value of four hexadecimal digits. -/
def hexFour? (a b c d : Char) : Option Nat := do
  let a ← hexValue? a
  let b ← hexValue? b
  let c ← hexValue? c
  let d ← hexValue? d
  pure (((a * 16 + b) * 16 + c) * 16 + d)

/-- The code unit of an escape after its `\u`. A text that ends within four bytes ends inside the
string; any other text without four digits is an invalid escape. -/
def hexUnit : List Char → Except Fault (Nat × List Char)
  | a :: b :: c :: d :: rest =>
    match hexFour? a b c d with
    | some n => .ok (n, rest)
    | none => .error .invalidEscape
  | text =>
    if (String.ofList text).utf8ByteSize < 4 then .error .endInText else .error .invalidEscape

/-- The character of an escape after its `\u`. A code unit that leads a surrogate pair has to be
followed by an escape that trails one. -/
def unicodeEscape (text : List Char) : Except Fault (Char × List Char) := do
  let (lead, rest) ← hexUnit text
  if 0xDC00 ≤ lead && lead ≤ 0xDFFF then .error .loneSurrogate
  else if lead < 0xD800 || 0xDBFF < lead then .ok (Char.ofNat lead, rest)
  else
    match rest with
    | [] => .error .endInText
    | ['\\'] => .error .endInText
    | '\\' :: 'u' :: rest =>
      let (trail, rest) ← hexUnit rest
      if trail < 0xDC00 || 0xDFFF < trail then .error .loneSurrogate
      else .ok (Char.ofNat ((lead - 0xD800) * 0x400 + (trail - 0xDC00) + 0x10000), rest)
    | _ => .error .unpairedSurrogate

/-- The character of an escape after its backslash. -/
def escape : List Char → Except Fault (Char × List Char)
  | [] => .error .endInText
  | '"' :: rest => .ok ('"', rest)
  | '\\' :: rest => .ok ('\\', rest)
  | '/' :: rest => .ok ('/', rest)
  | 'b' :: rest => .ok ('\x08', rest)
  | 'f' :: rest => .ok ('\x0c', rest)
  | 'n' :: rest => .ok ('\n', rest)
  | 'r' :: rest => .ok ('\r', rest)
  | 't' :: rest => .ok ('\t', rest)
  | 'u' :: rest => unicodeEscape rest
  | _ => .error .invalidEscape

/-- An escape that is passed over. Its surrogates need not pair. -/
def skipEscape : List Char → Except Fault (Unit × List Char)
  | 'u' :: rest => (hexUnit rest).map fun unit => ((), unit.2)
  | text => (escape text).map fun unit => ((), unit.2)

/-- A string after its opening quote. Every character takes at least one step of the first
argument, so the length of the text is enough. -/
def textBody : Nat → List Char → Except Fault (List Char × List Char)
  | 0, _ => .error .endInText
  | _ + 1, [] => .error .endInText
  | n + 1, c :: rest =>
    if c = '"' then .ok ([], rest)
    else if c = '\\' then do
      let (c, rest) ← escape rest
      let (body, rest) ← textBody n rest
      .ok (c :: body, rest)
    else if c.toNat < 0x20 then .error .controlCharacter
    else do
      let (body, rest) ← textBody n rest
      .ok (c :: body, rest)

/-- A string that is passed over, after its opening quote. -/
def skipTextBody : Nat → List Char → Except Fault (Unit × List Char)
  | 0, _ => .error .endInText
  | _ + 1, [] => .error .endInText
  | n + 1, c :: rest =>
    if c = '"' then .ok ((), rest)
    else if c = '\\' then do
      let ((), rest) ← skipEscape rest
      skipTextBody n rest
    else if c.toNat < 0x20 then .error .controlCharacter
    else skipTextBody n rest

/-- A string whose opening quote comes next. -/
def readText : Reader String := fun text => do
  let (body, rest) ← textBody text.length (text.drop 1)
  .ok (String.ofList body, rest)

/-- A string that is passed over and whose opening quote comes next. -/
def skipText : Reader Unit := fun text => skipTextBody text.length (text.drop 1)

/-! ### Numbers -/

/-- A number as its literal says it: without fraction and exponent it is an integer, if it fits into
sixty-four bits. -/
inductive Number where
  | natural (n : Nat)
  /-- The integer `-n`, for a positive `n`. -/
  | negative (n : Nat)
  | floating (x : Float)

/-- The number nearest to a double. -/
def Number.toFloat : Number → Float
  | natural n => Binary64.ofNat n
  | negative n => -Binary64.ofNat n
  | floating x => x

/-- How messages name a number. -/
def Number.found : Number → Found
  | natural n => .integer n
  | negative n => .integer (-n)
  | floating x => .floating x

/-- The double nearest to a decimal with a sign, if it is in range. That every literal is read as
the nearest double is what the round trip of numbers rests on. -/
def floatOf (negative : Bool) (d : Decimal) : Except Fault Number :=
  let magnitude := d.toFloat
  if magnitude.isInf then .error .numberOutOfRange
  else .ok (.floating (if negative then -magnitude else magnitude))

/-- An integer literal. One that needs more than sixty-four bits, the sign of a negative one
included, is a double, and so is `-0`. -/
def integerOf (negative : Bool) (n : Nat) : Except Fault Number :=
  if negative then
    if 0 < n && Int64.minValue.toInt ≤ -n then .ok (.negative n) else floatOf true ⟨n, 0⟩
  else
    if n < UInt64.size then .ok (.natural n) else floatOf false ⟨n, 0⟩

/-- The fault of digits that are due at `text` and missing. -/
def missingDigits : List Char → Fault
  | [] => .endInValue
  | _ => .invalidNumber

/-- The exponent that `text` may start with. -/
def exponentPart (text : List Char) : Except Fault (Option Int × List Char) :=
  match text with
  | c :: rest =>
    if c = 'e' || c = 'E' then
      let (negative, rest) := Decimal.splitSign rest
      let (digits, tail) := Decimal.splitDigits rest
      if digits.isEmpty then .error (missingDigits rest)
      else
        let e : Int := Decimal.naturalOf digits
        .ok (some (if negative then -e else e), tail)
    else
      .ok (none, text)
  | [] => .ok (none, [])

/-- The digits before the point: at least one, and no zero in front of others. -/
def wholePart (text : List Char) : Except Fault (List Char × List Char) :=
  let (digits, rest) := Decimal.splitDigits text
  if digits.isEmpty then .error (missingDigits text)
  else if digits.head? = some '0' && digits.length > 1 then .error .invalidNumber
  else .ok (digits, rest)

theorem wholePart_of_splitDigits {text digits rest : List Char}
    (h : Decimal.splitDigits text = (digits, rest)) :
    wholePart text =
      if digits.isEmpty then .error (missingDigits text)
      else if digits.head? = some '0' && digits.length > 1 then .error .invalidNumber
      else .ok (digits, rest) := by
  rw [wholePart, h]

/-- The point and the digits after it that `text` may start with. -/
def fractionPart : List Char → Except Fault (Option (List Char) × List Char)
  | '.' :: rest =>
    let (digits, tail) := Decimal.splitDigits rest
    if digits.isEmpty then .error (missingDigits rest) else .ok (some digits, tail)
  | text => .ok (none, text)

theorem fractionPart_of_splitDigits {text digits tail : List Char}
    (h : Decimal.splitDigits text = (digits, tail)) :
    fractionPart ('.' :: text) =
      if digits.isEmpty then .error (missingDigits text) else .ok (some digits, tail) := by
  rw [fractionPart, h]

/-- A number after its sign. -/
def unsignedNumber (negative : Bool) (text : List Char) : Except Fault (Number × List Char) := do
  let (whole, rest) ← wholePart text
  let (part?, rest) ← fractionPart rest
  let (power?, rest) ← exponentPart rest
  let number ←
    if part?.isNone && power?.isNone then integerOf negative (Decimal.naturalOf whole)
    else
      let part := part?.getD []
      floatOf negative ⟨Decimal.naturalOf (whole ++ part), power?.getD 0 - part.length⟩
  .ok (number, rest)

/-- A number is read part by part. -/
theorem unsignedNumber_of_parts {text whole middle behind rest : List Char}
    {part? : Option (List Char)} {power? : Option Int}
    (hwhole : wholePart text = .ok (whole, middle))
    (hpart : fractionPart middle = .ok (part?, behind))
    (hpower : exponentPart behind = .ok (power?, rest)) (negative : Bool) :
    unsignedNumber negative text =
      (if part?.isNone && power?.isNone then integerOf negative (Decimal.naturalOf whole)
        else floatOf negative ⟨Decimal.naturalOf (whole ++ part?.getD []),
          power?.getD 0 - (part?.getD []).length⟩).map (·, rest) := by
  simp only [unsignedNumber, hwhole, hpart, hpower, bind, Except.bind]
  split
  · cases integerOf negative (Decimal.naturalOf whole) with
    | error fault => rfl
    | ok number => rfl
  · cases floatOf negative ⟨Decimal.naturalOf (whole ++ part?.getD []),
      power?.getD 0 - (part?.getD []).length⟩ with
    | error fault => rfl
    | ok number => rfl

/-- A number whose sign or first digit comes next. -/
def readNumber : Reader Number := fun text =>
  match text with
  | '-' :: rest => unsignedNumber true rest
  | _ => unsignedNumber false text

/-- A number that is passed over. Its size does not matter, and whatever is missing makes it
invalid, also at the end of the text. -/
def skipNumber : Reader Unit := fun text => do
  let unsigned := match text with
    | '-' :: rest => rest
    | _ => text
  let outcome : Except Fault (Unit × List Char) := do
    let (_, rest) ← wholePart unsigned
    let (_, rest) ← fractionPart rest
    let (_, rest) ← exponentPart rest
    .ok ((), rest)
  match outcome with
  | .ok result => .ok result
  | .error _ => .error .invalidNumber

/-! ### Lists and objects -/

/-- Whether another item of a list follows. The closing bracket is left in place. -/
def nextItem (first : Bool) : Reader Bool := do
  match ← peek with
  | none => throw .endInList
  | some ']' => pure false
  | some c =>
    if first then pure true
    else if c = ',' then
      advance
      match ← peek with
      | none => throw .endInValue
      | some ']' => throw .trailingComma
      | some _ => pure true
    else throw .expectedCommaOrBracket

/-- The key of the next member of an object, unless the object is closed, whose brace is then
passed over. -/
def nextKey (first : Bool) : Reader (Option String) := do
  match ← peek with
  | none => throw .endInObject
  | some '}' => advance; pure none
  | some c =>
    if first then
      if c = '"' then some <$> readText else throw .keyNotText
    else if c = ',' then
      advance
      match ← peek with
      | none => throw .endInValue
      | some '"' => some <$> readText
      | some '}' => throw .trailingComma
      | some _ => throw .keyNotText
    else throw .expectedCommaOrBrace

/-- The colon between a key and its value. -/
def colon : Reader Unit := do
  match ← peek with
  | none => throw .endInObject
  | some ':' => advance
  | some _ => throw .expectedColon

/-! ### Values that are passed over -/

/-- A container that has been opened and not yet closed. -/
inductive Frame where
  | list
  | object
  deriving DecidableEq

/-- Where in a value being passed over the text stands. -/
inductive Place where
  /-- A value is due. -/
  | value
  /-- A container has just been opened. -/
  | opened
  /-- A member of an object is due. -/
  | member
  /-- A value has just ended. -/
  | ended

/-- A number, a word or a string that is passed over, given its first character. -/
def skipScalar (c : Char) : Reader Unit :=
  if c = 'n' then readWord "null"
  else if c = 't' then readWord "true"
  else if c = 'f' then readWord "false"
  else if c = '-' || c.isDigit then skipNumber
  else if c = '"' then skipText
  else throw .expectedValue

/-- Pass over what is left of a value, the innermost open container first. At most every other step
leaves the text as it is, so twice its length is enough. -/
def skipFrom : Nat → Place → List Frame → Reader Unit
  | 0, _, _ => throw .endInValue
  | n + 1, .value, frames => do
    match ← peek with
    | none => throw .endInValue
    | some '[' => advance; skipFrom n .opened (.list :: frames)
    | some '{' => advance; skipFrom n .opened (.object :: frames)
    | some c => skipScalar c; skipFrom n .ended frames
  | n + 1, .opened, frames => do
    match frames, ← peek with
    | .list :: _, none => throw .endInList
    | .list :: outer, some ']' => advance; skipFrom n .ended outer
    | .list :: _, some _ => skipFrom n .value frames
    | .object :: _, none => throw .endInObject
    | .object :: outer, some '}' => advance; skipFrom n .ended outer
    | .object :: _, some _ => skipFrom n .member frames
    | [], _ => pure ()
  | n + 1, .member, frames => do
    match ← peek with
    | none => throw .endInObject
    | some '"' => skipText; colon; skipFrom n .value frames
    | some _ => throw .keyNotText
  | n + 1, .ended, frames =>
    match frames with
    | [] => pure ()
    | .list :: outer => do
      match ← peek with
      | none => throw .endInList
      | some ',' => advance; skipFrom n .value frames
      | some ']' => advance; skipFrom n .ended outer
      | some _ => throw .expectedCommaOrBracket
    | .object :: outer => do
      match ← peek with
      | none => throw .endInObject
      | some ',' => advance; skipFrom n .member frames
      | some '}' => advance; skipFrom n .ended outer
      | some _ => throw .expectedCommaOrBrace

/-- Pass over one value of any kind, however deeply nested. -/
def skipValue : Reader Unit := fun text => skipFrom (2 * text.length + 3) .value [] text

/-! ### Whole texts -/

/-- What `read` makes of a text that holds one value and blanks around it. -/
def readWhole {α : Type} (read : Reader α) (text : String) : Except Fault α := do
  let (value, rest) ← read text.toList
  if (rest.dropWhile isSpace).isEmpty then .ok value else .error .trailingCharacters

section Whole

variable {α : Type} {read : Reader α} {text : String}

theorem readWhole_of_ok {value : α} {rest : List Char} (h : read text.toList = .ok (value, rest)) :
    readWhole read text =
      if (rest.dropWhile isSpace).isEmpty then .ok value else .error .trailingCharacters := by
  rw [readWhole, h]
  rfl

theorem readWhole_of_error {fault : Fault} (h : read text.toList = .error fault) :
    readWhole read text = .error fault := by
  rw [readWhole, h]
  rfl

end Whole

end OptModel.Json
