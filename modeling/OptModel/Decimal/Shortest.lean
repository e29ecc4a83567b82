import OptModel.Decimal.Basic

/-!
# The fewest digits that read back

A double is written with as few significant digits as still determine it. For one, two, … seventeen
digits the two decimals around the value are tried; the first number of digits for which one of them
reads back as the double wins. Of two that both read back the nearer is taken, and when the value
lies half way between them a `Tie` decides.

Reading back is tested with `Decimal.toFloat` itself, so what is found reads back by construction.

## Main definitions

* `Decimal.Tie` — what happens half way
* `Decimal.onGrid?` — the decimal of so many digits that reads back
* `Decimal.shortest` — the decimal of fewest digits that reads back
-/

namespace OptModel.Decimal

/-- Which of two equally near decimals is taken. -/
inductive Tie where
  /-- The larger one. -/
  | up
  /-- The one whose last digit is even. -/
  | toEven
  deriving Repr, DecidableEq

/-- The exponent of the leading digit of `num / den`, that is the `e` with
`10 ^ e ≤ num / den < 10 ^ (e + 1)`. -/
def leadingExponent (num den : Nat) : Int :=
  let guess : Int := digitCount num - digitCount den
  let (n, d) := scaled num den guess
  if n < d then guess - 1 else guess

/-- Whether `d` reads back as the magnitude of `x`. -/
def readsBack (x : Float) (d : Decimal) : Bool := d.toFloat.toBits == x.abs.toBits

/-- The decimal of `n` significant digits that reads back as the magnitude of `x`, if one of the two
around it does. The one above may be a power of ten, which needs a single digit. -/
def onGrid? (tie : Tie) (x : Float) (n : Nat) : Option Decimal :=
  let (num, den) := Binary64.ratio x
  let place := leadingExponent num den - n + 1
  let (p, q) := scaled num den place
  let below : Decimal := ⟨p / q, place⟩
  let above : Decimal := if p / q + 1 = Nat.pow 10 n then ⟨1, place + n⟩ else ⟨p / q + 1, place⟩
  let twice := 2 * (p % q)
  let preferBelow :=
    twice < q || (twice == q && tie == .toEven && below.digits % 2 == 0)
  match readsBack x below, readsBack x above with
  | true, true => some (if preferBelow then below else above)
  | true, false => some below
  | false, true => some above
  | false, false => none

/-- The decimal of fewest digits that reads back as the magnitude of `x`. Seventeen digits determine
every double, so the exact decimal at the end is never needed. -/
def shortest (tie : Tie) (x : Float) : Decimal :=
  ((List.range 17).findSome? fun k => onGrid? tie x (k + 1)).getD (ofFloat x)

/-- What is found on a grid reads back. -/
theorem readsBack_of_onGrid? {tie : Tie} {x : Float} {n : Nat} {d : Decimal}
    (h : onGrid? tie x n = some d) : readsBack x d := by
  simp only [onGrid?] at h
  split at h
  · next hbelow habove =>
    rw [← Option.some.inj h]
    split
    · exact hbelow
    · exact habove
  · next hbelow _ => rwa [Option.some.inj h] at hbelow
  · next _ habove => rwa [Option.some.inj h] at habove
  · cases h

/-- What is written is on the first grid that has a decimal that reads back, or it is the exact
value when there is none. -/
theorem shortest_cases (tie : Tie) (x : Float) :
    (∃ n < 17, onGrid? tie x (n + 1) = some (shortest tie x) ∧
      ∀ k < n, onGrid? tie x (k + 1) = none) ∨
    (∀ n < 17, onGrid? tie x (n + 1) = none) ∧ shortest tie x = ofFloat x := by
  cases h : (List.range 17).findSome? fun k => onGrid? tie x (k + 1) with
  | none =>
    refine .inr ⟨fun n hn => List.findSome?_eq_none_iff.1 h n (List.mem_range.2 hn), ?_⟩
    simp [shortest, h]
  | some d =>
    obtain ⟨before, n, after, hsplit, hd, hbefore⟩ := List.findSome?_eq_some_iff.1 h
    have hlength : before.length < 17 := by
      have := congrArg List.length hsplit
      simp at this
      omega
    have hget (k : Nat) (hk : k < 17) : (List.range 17)[k]? = some k := by simp [hk]
    have hn : n = before.length := by
      have := hget before.length hlength
      rw [hsplit] at this
      simpa using this
    refine .inl ⟨before.length, hlength, ?_, fun k hk => ?_⟩
    · simp [shortest, h, ← hn, hd]
    · refine hbefore k ?_
      have hk17 := hget k (Nat.lt_trans hk hlength)
      rw [hsplit, List.getElem?_append_left hk] at hk17
      exact List.mem_of_getElem? hk17

end OptModel.Decimal
