import OptModel.Exact.Tableau
import OptModel.Solver.Basic

/-!
# Exact optimisation

The optimiser that the built-in engines use. It takes the doubles of a problem at their exact values
and works over the rationals, so its verdicts are those of the problem as it was given; only the
values of an optimum are rounded, once, at the end.

Integer columns range over the integers of thirty-two bits. Their bounds are first drawn in to
integers. Then the relaxation is solved, and as long as an integer column has a fractional value the
problem is split at it in two, whose ranges are smaller. A half whose relaxation does not beat the
best solution so far is dropped.

## Main definitions

* `Exact.Range` — the bounds of a column as rationals
* `Exact.Goal` — a problem over the rationals
* `Exact.search` — branch and bound
* `Exact.optimizer` — the optimiser
-/

namespace OptModel.Exact

/-! ### Ranges of columns -/

/-- The bounds of a column. -/
structure Range where
  lower : Option Rat
  upper : Option Rat

/-- Why no search is needed. -/
inductive Settled where
  | infeasible
  | failed

/-- The range of a real column. -/
def realRange (lower upper : Float) : Except Settled Range :=
  if lower.isNaN || upper.isNaN then .error .failed
  else
    match Binary64.toRat? lower, Binary64.toRat? upper with
    | some l, some u => if u < l then .error .infeasible else .ok ⟨some l, some u⟩
    | l, u =>
      if (l.isNone && 0.0 < lower) || (u.isNone && upper < 0.0) then .error .infeasible
      else .ok ⟨l, u⟩

/-- The least integer of thirty-two bits. -/
def least : Int := Int32.minValue.toInt

/-- The greatest integer of thirty-two bits. -/
def greatest : Int := Int32.maxValue.toInt

/-- Whether an integer has thirty-two bits. -/
def isWord (n : Int) : Bool := least ≤ n && n ≤ greatest

/-- The range of an integer column: its bounds drawn in to integers, which must not cross and must
have thirty-two bits. The limits of these stand in for missing bounds. -/
def integerRange (lower upper : Float) : Except Settled Range := do
  let range ← realRange lower upper
  let l? := range.lower.map Rat.ceil
  let u? := range.upper.map Rat.floor
  let l := l?.getD least
  let u := u?.getD greatest
  if l?.isSome && u?.isSome && u < l then .error .infeasible
  else if !isWord l || !isWord u then .error .failed
  else .ok ⟨some l, some u⟩

/-- The range of a column of a problem. -/
def columnRange (column : Problem.Column Float) : Except Settled Range :=
  if column.isInteger then integerRange column.lower column.upper
  else realRange column.lower column.upper

/-! ### Tableaux of problems -/

/-- The exact values of coefficients, if all are finite. -/
def exactTerms (terms : List (Nat × Float)) : Option (List (Nat × Rat)) :=
  terms.mapM fun t => (Binary64.toRat? t.2).map fun q => (t.1, q)

/-- The least common multiple of the denominators of coefficients. -/
def commonDenominator (terms : List (Nat × Rat)) : Nat :=
  terms.foldl (fun n t => n.lcm t.2.den) 1

/-- The coefficients of `n` columns. -/
def denseTerms (n : Nat) (terms : List (Nat × Rat)) : Array Rat :=
  terms.foldl (fun row t => row.modify t.1 (· + t.2)) (Array.replicate n 0)

/-- The bounds of a row's left side. -/
def rowRange (sense : RowSense) (rhs : Rat) : Range :=
  match sense with
  | .equal => ⟨some rhs, some rhs⟩
  | .atMost => ⟨none, some rhs⟩
  | .atLeast => ⟨some rhs, none⟩

/-- A row over the rationals, multiplied by the denominators of its coefficients. -/
def exactRow (n : Nat) (row : Problem.Row Float) : Option (Array Rat × Range) := do
  let terms ← exactTerms row.terms
  let rhs ← Binary64.toRat? row.rhs
  let scale : Rat := commonDenominator terms
  pure (denseTerms n (terms.map fun t => (t.1, scale * t.2)), rowRange row.sense (scale * rhs))

/-- The objective over the rationals, to be maximised, multiplied by its denominators. -/
def exactObjective (n : Nat) (problem : Problem Float) : Option (Array Rat) := do
  let terms ← exactTerms problem.objective
  let scale : Rat := commonDenominator terms
  let sign : Rat := if problem.direction = .maximize then scale else -scale
  pure (denseTerms n (terms.map fun t => (t.1, sign * t.2)))

/-- Where a column starts: at a bound, or at zero. -/
def Range.start (range : Range) : Rat := (range.lower <|> range.upper).getD 0

/-- A problem over the rationals: a tableau whose last row is the objective, and which of its first
variables are integers. -/
structure Goal where
  tableau : Tableau
  integers : List Nat
  columns : Nat

/-- The row of the objective. -/
def Goal.row (goal : Goal) : Nat := goal.tableau.basic.size - 1

/-- The tableau of ranges, rows and an objective. Columns come first, then a variable for every row
and one for the objective. -/
def tableauOf (ranges : List Range) (rows : List (Array Rat × Range)) (objective : Array Rat) :
    Tableau :=
  let n := ranges.length
  let starts := (ranges.map Range.start).toArray
  let forms := rows.map Prod.fst ++ [objective]
  let at? (row : Array Rat) : Rat := (row.zip starts).foldl (fun sum p => sum + p.1 * p.2) 0
  let free : Range := ⟨none, none⟩
  let all := ranges ++ rows.map Prod.snd ++ [free]
  { lower := (all.map Range.lower).toArray
    upper := (all.map Range.upper).toArray
    value := starts ++ (forms.map at?).toArray
    basic := ((List.range forms.length).map (n + ·)).toArray
    nonbasic := (List.range n).toArray
    entries := forms.toArray }

/-- The problem over the rationals, unless its columns settle it. -/
def goalOf (problem : Problem Float) : Except Settled Goal := do
  let ranges ← problem.columns.mapM columnRange
  let n := ranges.length
  let some rows := problem.rows.mapM (exactRow n) | .error .failed
  let some objective := exactObjective n problem | .error .failed
  let integers := (List.range n).filter fun i => (problem.columns[i]?).any (·.isInteger)
  pure ⟨tableauOf ranges rows objective, integers, n⟩

/-! ### Branch and bound -/

/-- The best solution so far: the value of the objective and the values of the variables. -/
abbrev Incumbent := Option (Rat × Array Rat)

/-- Draw in the range of a variable. If it is not basic, it is moved to where it is within the new
range. -/
def restrict (t : Tableau) (x : Nat) (range : Range) : Tableau :=
  let t := { t with lower := t.lower.setIfInBounds x range.lower
                    upper := t.upper.setIfInBounds x range.upper }
  match (List.range t.nonbasic.size).find? fun j => t.nonbasic.getD j 0 = x with
  | none => t
  | some j =>
    let v := t.valueOf x
    if let some l := range.lower.filter (v < ·) then t.move j (l - v)
    else if let some u := range.upper.filter (· < v) then t.move j (u - v)
    else t

/-- The first of the integers whose value is not an integer. -/
def fractional? (t : Tableau) (integers : List Nat) : Option Nat :=
  integers.find? fun x => (t.valueOf x).den ≠ 1

/-- Branch and bound from the tableau `t`, to so many splits below one another. Whether it was cut
short comes with the best solution. -/
def search (row : Nat) (integers : List Nat) :
    Nat → Tableau → Incumbent × Bool → Incumbent × Bool
  | 0, _, (best, _) => (best, true)
  | depth + 1, t, (best, cut) =>
    match t.maximize row with
    | .found t =>
      let bound := t.valueOf (t.basic.getD row 0)
      if best.any fun b => bound ≤ b.1 then (best, cut)
      else
        match fractional? t integers with
        | none => (some (bound, t.value), cut)
        | some x =>
          let v := t.valueOf x
          let below := restrict t x ⟨t.lowerOf x, some v.floor⟩
          let above := restrict t x ⟨some v.ceil, t.upperOf x⟩
          search row integers depth above (search row integers depth below (best, cut))
    | .infeasible => (best, cut)
    | .unbounded | .exhausted => (best, true)

/-- How many splits there can be below one another: each takes at least one integer from the range
of a column. -/
def Goal.depth (goal : Goal) : Nat :=
  goal.integers.foldl (fun sum x =>
    match goal.tableau.lowerOf x, goal.tableau.upperOf x with
    | some l, some u => sum + (u - l).ceil.toNat + 1
    | _, _ => sum) 1

/-- The verdict on a problem over the rationals. -/
def Goal.decide (goal : Goal) : Verdict Float :=
  match goal.tableau.maximize goal.row with
  | .infeasible => .infeasible
  | .unbounded => .unbounded
  | .exhausted => .failed
  | .found t =>
    match search goal.row goal.integers goal.depth t (none, false) with
    | (_, true) => .failed
    | (none, false) => .infeasible
    | (some (_, values), false) => .optimal fun i => Binary64.ofRat (values.getD i 0)

/-- The optimiser that decides problems exactly. -/
def optimizer : Optimizer := fun problem =>
  match goalOf problem with
  | .error .infeasible => .infeasible
  | .error .failed => .failed
  | .ok goal => goal.decide

end OptModel.Exact
