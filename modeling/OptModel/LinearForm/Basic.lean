import OptModel.Scalar

/-!
# Linear forms

A linear form is a weighted sum of handles, kept as a list of terms in which no handle occurs twice.
Adding a term for a handle that is already there adds to its coefficient and leaves the order of the
terms alone.

## Main definitions

* `LinearForm` — the list of terms
* `LinearForm.empty`, `LinearForm.add` — how forms are made
* `LinearForm.coefficient?`, `LinearForm.evaluate` — how they are read
* `LinearForm.mapHandles` — the form with its handles renamed, merging those that fall together
* `LinearForm.nonzero` — the terms whose coefficient is not zero
-/

namespace OptModel

/-- A weighted sum of handles of type `H` with coefficients in `R`. -/
structure LinearForm (H R : Type) where
  terms : List (H × R)
  deriving Repr, BEq

namespace LinearForm

variable {H K R : Type}

/-- The sum of nothing. -/
def empty : LinearForm H R := ⟨[]⟩

instance : Inhabited (LinearForm H R) := ⟨empty⟩

/-- How many handles occur. -/
def size (f : LinearForm H R) : Nat := f.terms.length

/-- Whether no handle occurs. -/
def isEmpty (f : LinearForm H R) : Bool := f.terms.isEmpty

/-- Add `c` to the coefficient of `h`, at the end of the list if `h` is new. -/
def accumulate [DecidableEq H] [Add R] (h : H) (c : R) : List (H × R) → List (H × R)
  | [] => [(h, c)]
  | (k, d) :: rest => if k = h then (k, d + c) :: rest else (k, d) :: accumulate h c rest

/-- The form `f + c · h`. -/
def add [DecidableEq H] [Add R] (f : LinearForm H R) (h : H) (c : R) : LinearForm H R :=
  ⟨accumulate h c f.terms⟩

/-- The form made of `terms`, added one by one. -/
def ofTerms [DecidableEq H] [Add R] (terms : List (H × R)) : LinearForm H R :=
  terms.foldl (fun f t => f.add t.1 t.2) empty

/-- The coefficient of `h`, unless `h` does not occur. -/
def coefficient? [DecidableEq H] (f : LinearForm H R) (h : H) : Option R :=
  (f.terms.find? fun t => t.1 = h).map Prod.snd

/-- The value of the form when `value` gives those of its handles. The products are added from the
left. -/
def evaluate [Scalar R] (f : LinearForm H R) (value : H → R) : R :=
  f.terms.foldl (fun sum t => sum + t.2 * value t.1) Scalar.emptySum

/-- The form over the handles `g h`. Handles that `g` brings together are merged. -/
def mapHandles [DecidableEq K] [Add R] (f : LinearForm H R) (g : H → K) : LinearForm K R :=
  f.terms.foldl (fun sum t => sum.add (g t.1) t.2) empty

/-- The terms that contribute something. -/
def nonzero [Scalar R] (f : LinearForm H R) : List (H × R) :=
  f.terms.filter fun t => !Scalar.isZero t.2

/-! ### What coefficients are -/

@[simp] theorem terms_empty : (empty : LinearForm H R).terms = [] := rfl

@[simp] theorem terms_add [DecidableEq H] [Add R] (f : LinearForm H R) (h : H) (c : R) :
    (f.add h c).terms = accumulate h c f.terms := rfl

@[simp] theorem coefficient?_empty [DecidableEq H] (h : H) :
    (empty : LinearForm H R).coefficient? h = none := rfl

/-- Adding a term adds to the coefficient of its handle and to no other. -/
@[simp] theorem coefficient?_add [DecidableEq H] [Add R] (f : LinearForm H R) (h : H) (c : R)
    (k : H) :
    (f.add h c).coefficient? k =
      if k = h then some (((f.coefficient? h).map (· + c)).getD c) else f.coefficient? k := by
  obtain ⟨terms⟩ := f
  simp only [coefficient?, add]
  induction terms with
  | nil =>
    by_cases hk : k = h
    · simp [accumulate, hk]
    · simp [accumulate, hk, Ne.symm hk]
  | cons t rest ih =>
    obtain ⟨i, d⟩ := t
    by_cases hi : i = h
    · subst hi
      by_cases hk : k = i
      · simp [accumulate, hk]
      · simp [accumulate, hk, Ne.symm hk]
    · by_cases hk : k = i
      · subst hk
        simp [accumulate, hi]
      · have hik : ¬ i = k := fun h => hk h.symm
        simp only [accumulate, hi, if_false, List.find?_cons, hik, decide_false]
        exact ih

end LinearForm

end OptModel
