import OptModel.Decimal.Shortest

/-!
# Numbers as text

Two spellings of a double are in use. Both take the fewest digits that read back.

* The *plain* spelling stands in messages and in expressions: always positional, no point in a whole
  number, `NaN`, `inf` and `-inf` for the values that are no numbers.
* The *record* spelling stands in JSON: positional from `1e-5` up to `1e16` and always with a point,
  scientific outside.

## Main definitions

* `Decimal.Spelling` — the decisions in which spellings differ
* `Decimal.Spelling.write` — the text of a finite double
* `Decimal.plain`, `Decimal.record` — the two spellings
* `plainText` — any double in the plain spelling
-/

namespace OptModel

namespace Decimal

/-- The decisions of one spelling of finite doubles. -/
structure Spelling where
  /-- Which of two equally near shortest decimals is taken. -/
  tie : Tie
  /-- Whether a number whose leading digit has this exponent is written positionally. -/
  isPositional : Int → Bool
  /-- Whether a whole number ends in `.0`. -/
  pointZero : Bool

/-- A decimal as digits around a point. -/
def positional (pointZero : Bool) (d : Decimal) : List Char :=
  let digits := digitsOf d.digits
  if 0 ≤ d.exponent then
    digits ++ List.replicate d.exponent.toNat '0' ++ (if pointZero then ['.', '0'] else [])
  else
    let places := (-d.exponent).toNat
    let padded := List.replicate (places + 1 - digits.length) '0' ++ digits
    let whole := padded.length - places
    padded.take whole ++ '.' :: padded.drop whole

/-- A decimal as one digit, a point before the others if there are any, and a power of ten with its
sign. -/
def scientific (d : Decimal) : List Char :=
  let digits := digitsOf d.digits
  let power := d.exponent + (digits.length - 1 : Nat)
  let tail := if digits.length ≤ 1 then [] else '.' :: digits.drop 1
  digits.take 1 ++ tail ++ ['e', if power < 0 then '-' else '+'] ++ digitsOf power.natAbs

namespace Spelling

/-- The text of a decimal without its sign. -/
def writeDecimal (s : Spelling) (d : Decimal) : List Char :=
  if d.digits = 0 || s.isPositional (d.exponent + (digitCount d.digits - 1 : Nat)) then
    positional s.pointZero d
  else
    scientific d

/-- The text of a finite double. The sign of zero is kept. -/
def write (s : Spelling) (x : Float) : List Char :=
  let magnitude : Decimal :=
    if Binary64.significand x = 0 then ⟨0, 0⟩ else shortest s.tie x
  (if Binary64.isNegative x then ['-'] else []) ++ s.writeDecimal magnitude

end Spelling

/-- Always positional, whole numbers without a point; half way the larger decimal is taken. -/
def plain : Spelling where
  tie := .up
  isPositional := fun _ => true
  pointZero := false

/-- Positional from `1e-5` up to `1e16`, always with a point or an exponent; half way the decimal
with the even last digit is taken. -/
def record : Spelling where
  tie := .toEven
  isPositional := fun e => -5 ≤ e && e ≤ 15
  pointZero := true

end Decimal

/-- A double in the plain spelling, as it stands in messages and expressions. -/
def plainText (x : Float) : String :=
  if x.isNaN then "NaN"
  else if x.isInf then (if x < 0 then "-inf" else "inf")
  else String.ofList (Decimal.plain.write x)

end OptModel
