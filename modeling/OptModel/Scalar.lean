import OptModel.Decimal.Literal

/-!
# The numbers a model is written in

Models, linear forms and staged programs are stated over a type of scalars. `Float` is the one that
runs. The arithmetic of doubles rounds at every step, so what holds of a linear form *in exact
arithmetic* is said of the same definitions over another instance, one whose operations do not
round.

## Main definitions

* `Scalar` — arithmetic, the empty sum, infinity, order, rounding and literals
* the instance of `Scalar` for `Float`
-/

namespace OptModel

/-- A type of numbers in which bounds, coefficients and right-hand sides can be given. -/
class Scalar (R : Type) extends Add R, Sub R, Mul R, Neg R where
  zero : R
  one : R
  /-- What a sum of nothing is worth, and what every sum starts from. -/
  emptySum : R
  /-- Above every finite number. Its negative is below them. -/
  infinity : R
  isFinite : R → Bool
  /-- Whether a coefficient contributes nothing. -/
  isZero : R → Bool
  /-- Whether the first number is at most the second. -/
  atMost : R → R → Bool
  /-- The larger of two numbers. An operand that is no number gives way to the other. -/
  larger : R → R → R
  magnitude : R → R
  /-- The nearest integer, a half going away from zero. -/
  nearestInteger : R → R
  /-- The number that a literal stands for. -/
  readLiteral? : List Char → Option R

/-- Doubles. A sum starts from `-0.0`, which is the neutral element of their addition: starting from
`0.0` would lose the sign of a sum of negative zeros. -/
instance : Scalar Float where
  zero := 0.0
  one := 1.0
  emptySum := -0.0
  infinity := Binary64.infinity
  isFinite := Float.isFinite
  isZero x := x == 0.0
  atMost x y := decide (x ≤ y)
  larger := Binary64.larger
  magnitude := Float.abs
  nearestInteger := Binary64.nearestInteger
  readLiteral? := OptModel.readLiteral?

end OptModel
