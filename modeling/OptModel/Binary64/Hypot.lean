import OptModel.Binary64.Basic

/-!
# The length of a plane vector

`hypot a b` is `√(a² + b²)`. The rounded root of the sum of squares is corrected once by what it has
too much, which leaves it wrong in the last place for a few vectors in a thousand. The squares do
not overflow or underflow on the way. An infinite coordinate makes the length infinite, whatever the
other one is; otherwise a NaN coordinate makes it NaN.

## Main definitions

* `Binary64.correctedRoot` — the length when the squares stay in range
* `Binary64.hypot` — the length
-/

namespace OptModel.Binary64

/-- The double `2 ^ e`, for `-1022 ≤ e ≤ 1023`. -/
def twoTo (e : Int) : Float := Float.ofBits ((e + 1023).toNat * leadingBit).toUInt64

/-- The length of `(a, b)` for `0 ≤ b ≤ a` whose squares stay in range. The rounded root `h` is too
large by `(h² - a² - b²) / 2h`. Its numerator is worked out from `d = h - b` when `b` is not much
shorter than `h`, and from `d = h - a` otherwise. -/
def correctedRoot (a b : Float) : Float :=
  let h := (a * a + b * b).sqrt
  let excess :=
    if h ≤ 2.0 * b then
      let d := h - b
      a * (2.0 * d - a) + (d - 2.0 * (a - b)) * d
    else
      let d := h - a
      2.0 * d * (a - 2.0 * b) + ((4.0 * d - b) * b + d * d)
  h - excess / (2.0 * h)

/-- The length of `(a, b)` for finite `0 ≤ b ≤ a`. A `b` that is shorter than the last place of `a`
is only added. A vector whose squares would leave the range is measured on another scale, a power of
two, so that scaling it loses nothing. -/
def orderedLength (a b : Float) : Float :=
  let scale := twoTo (-600)
  if b * twoTo 54 ≤ a then a + b
  else if twoTo 511 < a then correctedRoot (a * scale) (b * scale) / scale
  else if b < twoTo (-459) then correctedRoot (a / scale) (b / scale) * scale
  else correctedRoot a b

/-- The length of the vector `(a, b)`. It is taken without its sign, so that no rounding can make it
negative. -/
def hypot (a b : Float) : Float :=
  if a.isInf || b.isInf then infinity
  else if a.isNaN || b.isNaN then a + b
  else if a.abs < b.abs then (orderedLength b.abs a.abs).abs
  else (orderedLength a.abs b.abs).abs

end OptModel.Binary64
