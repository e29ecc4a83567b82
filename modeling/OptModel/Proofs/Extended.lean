import OptModel.Model.Basic
import OptModel.Proofs.Binary64.Bits

/-!
# Numbers that are not rounded

The rationals with two infinities and one further element for the operations that have no result.
They are a second type of scalars, so every definition that is stated over scalars (linear forms,
expressions, what a family tells a solver, programs) can be run on them, and *in exact arithmetic*
means exactly that. Only reading a literal involves doubles: a literal stands for the double nearest
to it, and from there on nothing is rounded.

## Main definitions

* `Extended` — the numbers, with the operations of a `Scalar`
* `Extended.addCommMonoid`, `Extended.sum` — their addition, in any order
* `Extended.ofFloat` — the exact value of any double
* `Binary64.value` — the same for finite doubles, as a rational

## Main results

* `Extended.ofFloat_of_isFinite`, `isFinite_ofFloat` — finite doubles are rationals, and no others
* `Extended.atMost_rational`, `holds_rational` — on rationals, order and rows are the usual ones
* `Extended.add_mul_rational` — a rational factor distributes over every sum
-/

namespace OptModel

/-- The exact value of a finite double, zero for any other. -/
def Binary64.value (x : Float) : ℚ := (Binary64.toRat? x).getD 0

/-- A rational, an infinity, or the result of an operation that has none. -/
inductive Extended where
  | rational (q : ℚ)
  | top
  | bottom
  | undefined
  deriving DecidableEq

namespace Extended

/-! ### Operations -/

/-- Opposite infinities have no sum. -/
protected def add : Extended → Extended → Extended
  | rational a, rational b => rational (a + b)
  | undefined, _ | _, undefined | top, bottom | bottom, top => undefined
  | top, _ | _, top => top
  | bottom, _ | _, bottom => bottom

protected def neg : Extended → Extended
  | rational a => rational (-a)
  | top => bottom
  | bottom => top
  | undefined => undefined

/-- Which side of zero a number is on. -/
def side : Extended → ℤ
  | rational a => if a < 0 then -1 else if a = 0 then 0 else 1
  | top => 1
  | bottom => -1
  | undefined => 0

/-- Zero times an infinity has no result. -/
protected def mul (x y : Extended) : Extended :=
  match x, y with
  | rational a, rational b => rational (a * b)
  | undefined, _ | _, undefined => undefined
  | x, y => if side x * side y = 0 then undefined else if side x * side y < 0 then bottom else top

/-- The order. What has no value compares with nothing. -/
protected def le : Extended → Extended → Bool
  | rational a, rational b => a ≤ b
  | undefined, _ | _, undefined => false
  | bottom, _ | _, top => true
  | _, _ => false

/-- The exact value of a double. -/
def ofFloat (x : Float) : Extended :=
  match Binary64.toRat? x with
  | some q => rational q
  | none => if x.isNaN then undefined else if Binary64.isNegative x then bottom else top

theorem ofFloat_of_toRat? {x : Float} {q : ℚ} (h : Binary64.toRat? x = some q) :
    ofFloat x = rational q := by
  rw [ofFloat, h]

theorem ofFloat_of_toRat?_eq_none {x : Float} (h : Binary64.toRat? x = none) :
    ofFloat x = if x.isNaN then undefined else if Binary64.isNegative x then bottom else top := by
  rw [ofFloat, h]

instance : Scalar Extended where
  add := Extended.add
  sub x y := Extended.add x (Extended.neg y)
  mul := Extended.mul
  neg := Extended.neg
  zero := rational 0
  one := rational 1
  emptySum := rational 0
  infinity := top
  isFinite
    | rational _ => true
    | _ => false
  isZero x := x = rational 0
  atMost := Extended.le
  larger x y := if x = undefined ∨ Extended.le x y then y else x
  magnitude
    | rational a => rational |a|
    | top | bottom => top
    | undefined => undefined
  nearestInteger
    | rational a => rational (Binary64.roundHalfAway a)
    | x => x
  readLiteral? text := (OptModel.readLiteral? text).map ofFloat

/-! ### Rationals among themselves -/

@[simp] theorem rational_add (a b : ℚ) : rational a + rational b = rational (a + b) := rfl

@[simp] theorem rational_mul (a b : ℚ) : rational a * rational b = rational (a * b) := rfl

@[simp] theorem neg_rational (a : ℚ) : -rational a = rational (-a) := rfl

@[simp] theorem rational_sub (a b : ℚ) : rational a - rational b = rational (a - b) := by
  show rational (a + -b) = _
  rw [sub_eq_add_neg]

@[simp] theorem atMost_rational (a b : ℚ) :
    Scalar.atMost (rational a) (rational b) = decide (a ≤ b) := rfl

@[simp] theorem add_rational_zero (x : Extended) : x + rational 0 = x := by
  cases x with
  | rational a =>
    rw [rational_add, add_zero]
  | top => rfl
  | bottom => rfl
  | undefined => rfl

@[simp] theorem sub_rational_zero (x : Extended) : x - rational 0 = x := by
  show x + -rational 0 = x
  rw [neg_rational, neg_zero, add_rational_zero]

/-- Rows over rationals compare as they say, within the tolerance. -/
theorem holds_rational (sense : RowSense) (lhs rhs t : ℚ) :
    sense.holds (rational lhs) (rational rhs) (rational t) = true ↔
      match sense with
      | .equal => |lhs - rhs| ≤ t
      | .atMost => lhs ≤ rhs + t
      | .atLeast => rhs - t ≤ lhs := by
  cases sense
  · rw [RowSense.holds, rational_sub]
    show decide (|lhs - rhs| ≤ t) = true ↔ _
    rw [decide_eq_true_iff]
  · simp [RowSense.holds]
  · simp [RowSense.holds]

/-! ### Sums -/

protected theorem add_comm (x y : Extended) : x + y = y + x := by
  cases x with
  | rational a => cases y with
    | rational b => exact congrArg rational (add_comm a b)
    | _ => rfl
  | _ => cases y <;> rfl

protected theorem add_assoc (x y z : Extended) : x + y + z = x + (y + z) := by
  cases x with
  | rational a => cases y with
    | rational b => cases z with
      | rational c => exact congrArg rational (add_assoc a b c)
      | _ => rfl
    | _ => cases z <;> rfl
  | _ => cases y <;> cases z <;> rfl

/-- The unrounded numbers with their addition. What has no value takes a whole sum with it. -/
@[reducible] def addCommMonoid : AddCommMonoid Extended where
  add := (· + ·)
  zero := rational 0
  add_assoc := Extended.add_assoc
  add_comm := Extended.add_comm
  zero_add x := (Extended.add_comm _ x).trans (add_rational_zero x)
  add_zero := add_rational_zero
  nsmul := @nsmulRec _ ⟨rational 0⟩ ⟨(· + ·)⟩

/-- The sum of some numbers. -/
def sum (l : List Extended) : Extended := l.foldr (· + ·) (rational 0)

@[simp] theorem sum_cons (x : Extended) (l : List Extended) : sum (x :: l) = x + sum l := rfl

@[simp] theorem sum_append (l m : List Extended) : sum (l ++ m) = sum l + sum m := by
  let := addCommMonoid
  exact List.sum_append

theorem sum_map_add {α : Type} (l : List α) (f g : α → Extended) :
    sum (l.map fun a => f a + g a) = sum (l.map f) + sum (l.map g) := by
  let := addCommMonoid
  exact List.sum_map_add

/-- The sum of rationals is that of rationals. -/
theorem sum_map_rational (l : List ℚ) : sum (l.map rational) = rational l.sum := by
  induction l with
  | nil => rfl
  | cons a l ih => rw [List.map_cons, sum_cons, ih, rational_add, List.sum_cons]

/-- Adding up from the left, beginning anywhere. -/
theorem foldl_add (l : List Extended) (start : Extended) :
    l.foldl (· + ·) start = start + sum l := by
  induction l generalizing start with
  | nil => exact (add_rational_zero start).symm
  | cons x l ih => rw [List.foldl_cons, ih, sum_cons, Extended.add_assoc]

/-- A rational factor multiplies rationals. What is no rational it leaves alone, turns around or
voids, as it is positive, negative or zero. -/
theorem exists_mul_rational_eq (q : ℚ) :
    ∃ f : Extended → Extended, (f = id ∨ f = Extended.neg ∨ f = fun _ => undefined) ∧
      ∀ x, x * rational q = match x with
        | rational a => rational (a * q)
        | x => f x := by
  rcases lt_trichotomy q 0 with hq | rfl | hq
  · have hside : side (rational q) = -1 := if_pos hq
    refine ⟨Extended.neg, .inr (.inl rfl), fun x => ?_⟩
    cases x with
    | rational | undefined => rfl
    | top | bottom =>
      show (if _ * side (rational q) = 0 then _ else _) = _
      rw [hside]
      rfl
  · refine ⟨fun _ => undefined, .inr (.inr rfl), fun x => ?_⟩
    cases x <;> rfl
  · have hside : side (rational q) = 1 := (if_neg hq.not_gt).trans (if_neg hq.ne')
    refine ⟨id, .inl rfl, fun x => ?_⟩
    cases x with
    | rational | undefined => rfl
    | top | bottom =>
      show (if _ * side (rational q) = 0 then _ else _) = _
      rw [hside]
      rfl

/-- **A rational factor distributes over every sum**, infinities included. An infinite factor does
not: `2 - 1` is positive, but twice infinity less infinity has no value. -/
theorem add_mul_rational (x y : Extended) (q : ℚ) :
    (x + y) * rational q = x * rational q + y * rational q := by
  obtain ⟨f, hf, hmul⟩ := exists_mul_rational_eq q
  rw [hmul, hmul, hmul]
  cases x with
  | rational a => cases y with
    | rational b => exact congrArg rational (add_mul a b q)
    | _ => rcases hf with rfl | rfl | rfl <;> rfl
  | _ => cases y <;> rcases hf with rfl | rfl | rfl <;> rfl

/-! ### Doubles -/

theorem value_of_toRat? {x : Float} {q : ℚ} (h : Binary64.toRat? x = some q) :
    Binary64.value x = q := by
  rw [Binary64.value, h, Option.getD_some]

theorem toRat?_eq_value {x : Float} (h : x.isFinite) :
    Binary64.toRat? x = some (Binary64.value x) := by
  have hsome := Binary64.toRat?_of_isFinite h
  rw [hsome, value_of_toRat? hsome]

/-- **A finite double is a rational.** -/
theorem ofFloat_of_isFinite {x : Float} (h : x.isFinite) :
    ofFloat x = rational (Binary64.value x) :=
  ofFloat_of_toRat? (toRat?_eq_value h)

theorem toRat?_eq_none {x : Float} (h : x.isFinite = false) : Binary64.toRat? x = none := by
  rw [Binary64.toRat?, h]
  rfl

/-- The doubles that are rationals are the finite ones. -/
theorem isFinite_ofFloat (x : Float) : Scalar.isFinite (ofFloat x) = x.isFinite := by
  by_cases h : x.isFinite
  · rw [ofFloat_of_isFinite h, h]
    rfl
  · rw [Bool.not_eq_true] at h
    rw [ofFloat_of_toRat?_eq_none (toRat?_eq_none h), h]
    split
    · rfl
    · split <;> rfl

@[simp] theorem ofFloat_one : ofFloat 1.0 = rational 1 := ofFloat_of_toRat? Binary64.toRat?_one

@[simp] theorem ofFloat_zero : ofFloat 0.0 = rational 0 := ofFloat_of_toRat? Binary64.toRat?_zero

@[simp] theorem ofFloat_infinity : ofFloat Binary64.infinity = top := by decide

@[simp] theorem ofFloat_neg_infinity : ofFloat (-Binary64.infinity) = bottom := by decide

end Extended

end OptModel
