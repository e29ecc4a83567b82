import OptModel.Binary64.Basic

/-!
# Decimal numbers

A decimal is `digits · 10 ^ exponent` with a natural `digits`. It is what a number in a text says
before it is rounded, and what a double is turned into before it is written. Signs are kept outside.

## Main definitions

* `Decimal` — a natural times a power of ten
* `Decimal.toFloat` — the nearest double
* `Decimal.ofFloat` — the exact decimal of a finite double
-/

namespace OptModel

/-- The number `digits · 10 ^ exponent`. -/
structure Decimal where
  digits : Nat
  exponent : Int
  deriving Repr, DecidableEq

namespace Decimal

/-- The decimal digits of a natural, most significant first. -/
def digitsOf (n : Nat) : List Char := Nat.toDigits 10 n

/-- How many digits a natural is written with. -/
def digitCount (n : Nat) : Nat := (digitsOf n).length

/-- `num / (den · 10 ^ e)` as a quotient of naturals. -/
def scaled (num den : Nat) (e : Int) : Nat × Nat :=
  if 0 ≤ e then (num, den * Nat.pow 10 e.toNat) else (num * Nat.pow 10 (-e).toNat, den)

/-- The double nearest to a decimal. A decimal of `10 ^ 310` or more overflows and one below
`10 ^ (-330)` vanishes; neither power is worked out. -/
def toFloat (d : Decimal) : Float :=
  let top := digitCount d.digits + d.exponent
  if d.digits = 0 || top < -330 then Binary64.ofRatio 0 1
  else if top > 310 then Binary64.infinity
  else
    let (num, den) := scaled d.digits 1 (-d.exponent)
    Binary64.ofRatio num den

theorem toFloat_of_vanishes {d : Decimal}
    (h : d.digits = 0 ∨ (digitCount d.digits : Int) + d.exponent < -330) :
    d.toFloat = Binary64.ofRatio 0 1 := by
  rw [toFloat, if_pos]
  simpa using h

theorem toFloat_of_overflows {d : Decimal} (hd : d.digits ≠ 0)
    (h : (digitCount d.digits : Int) + d.exponent > 310) : d.toFloat = Binary64.infinity := by
  rw [toFloat, if_neg, if_pos h]
  simp [hd]
  omega

theorem toFloat_of_inRange {d : Decimal} (hd : d.digits ≠ 0)
    (hlow : -330 ≤ (digitCount d.digits : Int) + d.exponent)
    (hhigh : (digitCount d.digits : Int) + d.exponent ≤ 310) :
    d.toFloat = Binary64.ofRatio (scaled d.digits 1 (-d.exponent)).1
      (scaled d.digits 1 (-d.exponent)).2 := by
  rw [toFloat, if_neg, if_neg (by omega)]
  simp [hd]
  omega

/-- The exact value of the magnitude of a finite double. It is a finite decimal, since
`2 ^ (-k) = 5 ^ k · 10 ^ (-k)`. -/
def ofFloat (x : Float) : Decimal :=
  let q := Binary64.exponent x
  if 0 ≤ q then ⟨Binary64.significand x * Nat.pow 2 q.toNat, 0⟩
  else ⟨Binary64.significand x * Nat.pow 5 (-q).toNat, q⟩

theorem ofFloat_of_nonneg {x : Float} (h : 0 ≤ Binary64.exponent x) :
    ofFloat x = ⟨Binary64.significand x * Nat.pow 2 (Binary64.exponent x).toNat, 0⟩ :=
  if_pos h

theorem ofFloat_of_neg {x : Float} (h : Binary64.exponent x < 0) :
    ofFloat x =
      ⟨Binary64.significand x * Nat.pow 5 (-Binary64.exponent x).toNat, Binary64.exponent x⟩ :=
  if_neg (Int.not_le.2 h)

end Decimal

end OptModel
