/-!
# Exact tableaux

Linear programs over the rationals, solved without rounding. Every variable of a tableau has an
optional lower and upper bound and a current value. Some are *basic*: each of them is given by a row
as a combination of the others, and its value follows from theirs. The others stand within their
bounds.

* *Repairing* makes the basic variables stand within their bounds too: as long as one does not, it
  is swapped with a variable of its row that can still move the right way. If there is none, the row
  proves that the bounds cannot all be met.
* *Improving* raises one basic variable, the goal, by moving the others along their coefficients
  until a bound is met.

Both choose the variable of lowest number wherever there is a choice (Bland's rule), so no state
recurs. A state is a choice, for every variable, of being basic or at one of two bounds, which
bounds the number of steps.

## Main definitions

* `Tableau` — bounds, values and rows
* `Tableau.pivot` — swapping a basic variable with another one
* `Tableau.repair`, `Tableau.improve` — the two searches
* `Tableau.maximize` — one after the other
-/

namespace OptModel.Exact

/-- Bounds, values and rows. Variables are numbered from zero. -/
structure Tableau where
  lower : Array (Option Rat)
  upper : Array (Option Rat)
  value : Array Rat
  /-- The basic variable of every row. -/
  basic : Array Nat
  /-- The variable of every column of the rows. -/
  nonbasic : Array Nat
  /-- The coefficients, row by row. -/
  entries : Array (Array Rat)
  deriving Inhabited

namespace Tableau

/-- The value of a variable. -/
def valueOf (t : Tableau) (x : Nat) : Rat := t.value.getD x 0

/-- The lower bound of a variable. -/
def lowerOf (t : Tableau) (x : Nat) : Option Rat := t.lower.getD x none

/-- The upper bound of a variable. -/
def upperOf (t : Tableau) (x : Nat) : Option Rat := t.upper.getD x none

/-- The coefficient in row `i` and column `j`. -/
def entry (t : Tableau) (i j : Nat) : Rat := (t.entries.getD i #[]).getD j 0

/-- Whether a variable can still grow. -/
def canGrow (t : Tableau) (x : Nat) : Bool := (t.upperOf x).all fun u => decide (t.valueOf x < u)

/-- Whether a variable can still shrink. -/
def canShrink (t : Tableau) (x : Nat) : Bool := (t.lowerOf x).all fun l => decide (l < t.valueOf x)

/-- More steps than a search by Bland's rule can take. -/
def stepLimit (t : Tableau) : Nat := Nat.pow 3 t.value.size + 1

/-! ### Moving and swapping -/

/-- Move the variable of column `j` by `amount`, and the basic variables with it. -/
def move (t : Tableau) (j : Nat) (amount : Rat) : Tableau :=
  let values := t.value.modify (t.nonbasic.getD j 0) (· + amount)
  { t with value := (List.range t.basic.size).foldl (fun values i =>
      let a := t.entry i j
      if a = 0 then values else values.modify (t.basic.getD i 0) (· + a * amount)) values }

/-- Solve row `i` for the variable of column `j`, whose coefficient must not be zero, and put the
solution into the other rows. -/
def pivot (t : Tableau) (i j : Nat) : Tableau :=
  let a := t.entry i j
  let solved := (t.entries.getD i #[]).mapIdx fun k c => if k = j then 1 / a else -c / a
  let entries := t.entries.mapIdx fun r row =>
    let b := row.getD j 0
    if r = i then solved
    else if b = 0 then row
    else row.mapIdx fun k c =>
      let s := solved.getD k 0
      if k = j then b * s else if s = 0 then c else c + b * s
  { t with
    entries := entries
    basic := t.basic.setIfInBounds i (t.nonbasic.getD j 0)
    nonbasic := t.nonbasic.setIfInBounds j (t.basic.getD i 0) }

/-- The position in `list`, among those that pass `test`, at which the lowest number stands. -/
def lowest? (list : Array Nat) (test : Nat → Nat → Bool) : Option Nat :=
  (List.range list.size).foldl (fun best i =>
    let x := list.getD i 0
    if test i x && best.all (fun b => x < list.getD b 0) then some i else best) none

/-! ### Repairing -/

/-- Whether a search came to its end. -/
inductive Search where
  | found (t : Tableau)
  /-- The bounds cannot all be met. -/
  | infeasible
  /-- The goal can be raised without end. -/
  | unbounded
  /-- The step limit was met. -/
  | exhausted

/-- Swap basic variable `i`, which has to grow or to shrink to `target`, with one of its row that
can still move it there. -/
def swapTowards (t : Tableau) (i : Nat) (grow : Bool) (target : Rat) : Option Tableau :=
  let column? := lowest? t.nonbasic fun j x =>
    let a := t.entry i j
    (0 < a && (if grow then t.canGrow x else t.canShrink x)) ||
      (a < 0 && (if grow then t.canShrink x else t.canGrow x))
  column?.map fun j =>
    let amount := (target - t.valueOf (t.basic.getD i 0)) / t.entry i j
    (t.move j amount).pivot i j

/-- Bring all basic variables within their bounds, in at most so many steps. -/
def repairWithin : Nat → Tableau → Search
  | 0, _ => .exhausted
  | steps + 1, t =>
    let broken? := lowest? t.basic fun _ x =>
      (t.lowerOf x).any (fun l => t.valueOf x < l) || (t.upperOf x).any fun u => u < t.valueOf x
    match broken? with
    | none => .found t
    | some i =>
      let x := t.basic.getD i 0
      let swapped :=
        match t.lowerOf x, t.upperOf x with
        | some l, some u =>
          if t.valueOf x < l then t.swapTowards i true l else t.swapTowards i false u
        | some l, none => t.swapTowards i true l
        | none, some u => t.swapTowards i false u
        | none, none => none
      match swapped with
      | none => .infeasible
      | some t => repairWithin steps t

/-- Bring all basic variables within their bounds. -/
def repair (t : Tableau) : Search := repairWithin t.stepLimit t

/-! ### Improving -/

/-- What stops a variable that moves: a distance, and the row of the basic variable that meets a
bound there, or none when the moving variable meets its own. -/
structure Stopper where
  distance : Rat
  mover : Nat
  row : Option Nat

/-- The nearer of two stoppers, of equally near ones that of the lower variable. -/
def Stopper.nearer (a b : Stopper) : Stopper :=
  if b.distance < a.distance || (b.distance = a.distance && b.mover < a.mover) then b else a

/-- What stops a variable whose value changes at `rate`. -/
def stopper? (t : Tableau) (x : Nat) (rate : Rat) (row : Option Nat) : Option Stopper :=
  if 0 < rate then (t.upperOf x).map fun u => ⟨(u - t.valueOf x) / rate, x, row⟩
  else if rate < 0 then (t.lowerOf x).map fun l => ⟨(l - t.valueOf x) / rate, x, row⟩
  else none

/-- What first stops the variable of column `j` when it grows or shrinks. -/
def firstStopper? (t : Tableau) (j : Nat) (grow : Bool) : Option Stopper :=
  let sign : Rat := if grow then 1 else -1
  let own := t.stopper? (t.nonbasic.getD j 0) sign none
  (List.range t.basic.size).foldl (fun best i =>
    match best, t.stopper? (t.basic.getD i 0) (sign * t.entry i j) (some i) with
    | none, other => other
    | some a, none => some a
    | some a, some b => some (a.nearer b)) own

/-- Raise the basic variable of row `goal`, in at most so many steps. -/
def improveWithin (goal : Nat) : Nat → Tableau → Search
  | 0, _ => .exhausted
  | steps + 1, t =>
    let entering? := lowest? t.nonbasic fun j x =>
      let a := t.entry goal j
      (0 < a && t.canGrow x) || (a < 0 && t.canShrink x)
    match entering? with
    | none => .found t
    | some j =>
      let grow := decide (0 < t.entry goal j)
      match t.firstStopper? j grow with
      | none => .unbounded
      | some s =>
        let moved := t.move j (if grow then s.distance else -s.distance)
        improveWithin goal steps (match s.row with
          | none => moved
          | some i => moved.pivot i j)

/-- Raise the basic variable of row `goal` as far as the bounds allow. -/
def improve (t : Tableau) (goal : Nat) : Search := improveWithin goal t.stepLimit t

/-- The state in which the basic variable of row `goal`, which must have no bounds, is as large as
the bounds of the others allow. -/
def maximize (t : Tableau) (goal : Nat) : Search :=
  match t.repair with
  | .found t => t.improve goal
  | other => other

end Tableau

end OptModel.Exact
