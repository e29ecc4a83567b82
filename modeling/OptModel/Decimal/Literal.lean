import OptModel.Decimal.Basic

/-!
# Number literals

A literal is an optional sign followed by one of

* digits, a point and digits, with digits on at least one side of the point, or digits alone; then
  optionally `e` or `E`, an optional sign and digits;
* `inf`, `infinity` or `nan`, in letters of either case.

It is read as the nearest double, and as infinity when it is too large.

## Main definitions

* `Decimal.splitDigits` — the digits a text starts with, and the rest
* `Decimal.naturalOf` — the value of a list of digits
* `readLiteral?` — the double that a literal stands for
-/

namespace OptModel

namespace Decimal

/-- The digits that `text` starts with, and what follows them. -/
def splitDigits (text : List Char) : List Char × List Char :=
  (text.takeWhile Char.isDigit, text.dropWhile Char.isDigit)

/-- The natural that a list of digits is the decimal form of. -/
def naturalOf (digits : List Char) : Nat :=
  digits.foldl (fun n c => 10 * n + (c.toNat - '0'.toNat)) 0

/-- An optional sign, as whether it was a minus, and what follows it. -/
def splitSign : List Char → Bool × List Char
  | '-' :: rest => (true, rest)
  | '+' :: rest => (false, rest)
  | text => (false, text)

/-- The exponent that `text` consists of: nothing, or `e`, an optional sign and digits. -/
def exponentPart? : List Char → Option Int
  | [] => some 0
  | c :: rest =>
    if c = 'e' || c = 'E' then
      let (negative, digits) := splitSign rest
      if digits.isEmpty || !digits.all Char.isDigit then none
      else some (if negative then -naturalOf digits else naturalOf digits)
    else
      none

/-- The decimal that an unsigned literal of digits stands for. -/
def unsigned? (text : List Char) : Option Decimal :=
  let (whole, rest) := splitDigits text
  let (part, tail) :=
    match rest with
    | '.' :: after => splitDigits after
    | _ => ([], rest)
  if whole.isEmpty && part.isEmpty then none
  else
    (exponentPart? tail).map fun e => ⟨naturalOf (whole ++ part), e - part.length⟩

end Decimal

/-- The double that `text` is a literal of. -/
def readLiteral? (text : List Char) : Option Float :=
  let (negative, body) := Decimal.splitSign text
  let word := body.map Char.toLower
  let magnitude? :=
    if word = "inf".toList || word = "infinity".toList then some Binary64.infinity
    else if word = "nan".toList then some (0.0 / 0.0)
    else (Decimal.unsigned? body).map Decimal.toFloat
  magnitude?.map fun magnitude => if negative then -magnitude else magnitude

end OptModel
