/-!
# Doubles as exact numbers

A finite double is `±m · 2 ^ q` for naturals `m < 2 ^ 53` and `-1074 ≤ q ≤ 971`. This module reads
that form off the bits of a `Float` and goes back: `ofRatio` gives the double nearest to a quotient
of naturals, ties to the even significand. Everything that has to be right to the last bit (decimal
texts, lengths, the exact solver) goes through these two directions.

## Main definitions

* `Binary64.significand`, `exponent`, `isNegative` — the parts of a finite double
* `Binary64.toRat?` — the exact value of a finite double
* `Binary64.ofRatio`, `ofNat`, `ofRat` — the nearest double, overflowing to infinity
-/

namespace OptModel.Binary64

/-! ### The parts of a double -/

/-- The weight of the leading bit of a significand, `2 ^ 52`. Below it are the bits that are
stored. -/
def leadingBit : Nat := 4503599627370496

/-- Whether the sign bit is set. `-0.0` is negative, and so may a NaN be. -/
def isNegative (x : Float) : Bool := x.toBits.toNat / leadingBit / 2048 == 1

/-- The eleven bits of the exponent. -/
def exponentField (x : Float) : Nat := x.toBits.toNat / leadingBit % 2048

/-- The fifty-two stored bits of the significand. -/
def fraction (x : Float) : Nat := x.toBits.toNat % leadingBit

/-- The natural `m` of `x = ±m · 2 ^ q`. The leading bit is implicit unless the exponent field is
zero. -/
def significand (x : Float) : Nat :=
  if exponentField x = 0 then fraction x else leadingBit + fraction x

/-- The integer `q` of `x = ±m · 2 ^ q`. -/
def exponent (x : Float) : Int := (max (exponentField x) 1 : Nat) - 1075

/-- The magnitude of a finite double as a quotient of naturals. -/
def ratio (x : Float) : Nat × Nat :=
  let q := exponent x
  if 0 ≤ q then (significand x * Nat.pow 2 q.toNat, 1) else (significand x, Nat.pow 2 (-q).toNat)

/-- The exact value of a double, when it is finite. -/
def toRat? (x : Float) : Option Rat :=
  if x.isFinite then
    let (num, den) := ratio x
    some (mkRat (if isNegative x then -num else num) den)
  else
    none

/-! ### The nearest double -/

/-- The bits of positive infinity. They are also where the finite magnitudes end. -/
def infinityBits : Nat := 2047 * leadingBit

/-- `num / den` rounded to the nearest natural, a half going to the even neighbour. -/
def roundEven (num den : Nat) : Nat :=
  let quotient := num / den
  let twice := 2 * (num % den)
  if twice < den || (twice == den && quotient % 2 == 0) then quotient else quotient + 1

/-- `num / (den · 2 ^ e)` as a quotient of naturals. -/
def scaled (num den : Nat) (e : Int) : Nat × Nat :=
  if 0 ≤ e then (num, den * Nat.pow 2 e.toNat) else (num * Nat.pow 2 (-e).toNat, den)

/-- The exponent of the last place of the double nearest to `num / den`: the one that leaves a
significand of fifty-three bits, but never below that of the subnormal numbers. -/
def lastPlace (num den : Nat) : Int :=
  let guess : Int := (num.log2 : Int) - den.log2 - 52
  let (n, d) := scaled num den guess
  max (if n < leadingBit * d then guess - 1 else guess) (-1074)

/-- The bits of the double nearest to `num / den`. Consecutive magnitudes have consecutive bits, so
a significand that rounds up to `2 ^ 53` carries into the exponent by itself. -/
def nearestBits (num den : Nat) : Nat :=
  if num = 0 then 0
  else
    let e := lastPlace num den
    let (n, d) := scaled num den e
    min ((e + 1074).toNat * leadingBit + roundEven n d) infinityBits

/-- The double nearest to `num / den`, ties to even, infinite when the magnitude is too large. -/
def ofRatio (num den : Nat) : Float := Float.ofBits (nearestBits num den).toUInt64

/-- The double nearest to a natural. -/
def ofNat (n : Nat) : Float := ofRatio n 1

/-- The double nearest to `q`. -/
def ofRat (q : Rat) : Float :=
  let magnitude := ofRatio q.num.natAbs q.den
  if q.num < 0 then -magnitude else magnitude

/-! ### Rules on doubles -/

/-- The positive infinity. -/
def infinity : Float := Float.ofBits infinityBits.toUInt64

/-- The larger of two doubles. A NaN gives way to the other operand, and of two zeros the second is
taken. -/
def larger (a b : Float) : Float :=
  if a.isNaN || a ≤ b then b else a

/-- The integer nearest to `q`, a half going away from zero. -/
def roundHalfAway (q : Rat) : Int :=
  if q < 0 then -((-q + 1 / 2).floor) else (q + 1 / 2).floor

/-- The nearest integer as a double, a half going away from zero. A double that is not finite is its
own nearest integer. -/
def nearestInteger (x : Float) : Float :=
  match toRat? x with
  | some q => ofRat (roundHalfAway q)
  | none => x

end OptModel.Binary64
