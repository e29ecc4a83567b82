import OptModel.LinearForm.Basic
import OptModel.Decimal.Text
import OptModel.Text.Blank

/-!
# Expressions

Rows and objectives are written as sums of terms,

```
expression  =  piece { "+" piece }
piece       =  name  |  literal "*" name
```

with blanks allowed around every name and literal. A bare name has coefficient one, a repeated name
adds up, and an expression of blanks only is the empty sum. There is no subtraction: a term is taken
away by a negative coefficient, `x + -1*y`. A name is whatever stands between the signs, so names
with a `+`, a `*` or blanks at an end cannot be written.

## Main definitions

* `Expression.TermFlaw`, `Expression.Fault` — what can be wrong with an expression
* `Expression.readPiece` — coefficient and name of one piece
* `Expression.parse` — the linear form of an expression
* `Expression.term`, `Expression.sum` — writing expressions
-/

namespace OptModel.Expression

/-! ### Faults -/

/-- What keeps a piece from being a term. -/
inductive TermFlaw where
  | empty
  | severalStars
  | notANumber (literal : String)
  | notFinite (literal : String)
  | missingName
  deriving Repr, DecidableEq

/-- The reason given for a malformed term. -/
def TermFlaw.message : TermFlaw → String
  | empty => "empty term"
  | severalStars => "expected exactly one '*' between coefficient and variable"
  | notANumber literal => s!"coefficient '{literal}' is not a number"
  | notFinite literal => s!"coefficient '{literal}' is not finite"
  | missingName => "missing variable name"

/-- Why an expression cannot be read against the declared names. -/
inductive Fault where
  | malformed (term : String) (flaw : TermFlaw)
  | unknownName (name : String)
  deriving Repr, DecidableEq

/-- The text of a fault. -/
def Fault.message : Fault → String
  | malformed term flaw => s!"Malformed term '{term}': " ++ flaw.message
  | unknownName name => s!"Unknown variable '{name}'"

/-! ### Reading -/

variable {R H : Type} [Scalar R]

/-- The coefficient that a trimmed literal gives. -/
def readCoefficient (literal : List Char) : Except TermFlaw R :=
  match Scalar.readLiteral? literal with
  | none => .error (.notANumber (String.ofList literal))
  | some c =>
    if Scalar.isFinite c then .ok c else .error (.notFinite (String.ofList literal))

/-- Coefficient and name of a trimmed piece. -/
def readPiece (piece : List Char) : Except TermFlaw (R × String) :=
  match Text.pieces '*' piece with
  | [] | [_] =>
    if piece.isEmpty then .error .empty else .ok (Scalar.one, String.ofList piece)
  | [literal, name] =>
    match readCoefficient (Text.trim literal) with
    | .error flaw => .error flaw
    | .ok c =>
      let name := Text.trim name
      if name.isEmpty then .error .missingName else .ok (c, String.ofList name)
  | _ => .error .severalStars

/-- The term that a piece stands for, its name looked up in `handle?`. -/
def readTerm (handle? : String → Option H) (piece : List Char) : Except Fault (H × R) :=
  let trimmed := Text.trim piece
  match readPiece trimmed with
  | .error flaw => .error (.malformed (String.ofList trimmed) flaw)
  | .ok (c, name) =>
    match handle? name with
    | none => .error (.unknownName name)
    | some h => .ok (h, c)

/-- The linear form of `text`, its names looked up in `handle?`. Pieces are read from the left and
the first one at fault is reported. -/
def parse [DecidableEq H] (handle? : String → Option H) (text : String) :
    Except Fault (LinearForm H R) :=
  if Text.allBlank text.toList then .ok .empty
  else
    (Text.pieces '+' text.toList).foldlM (fun sum piece =>
      (readTerm handle? piece).map fun t => sum.add t.1 t.2) LinearForm.empty

/-! ### How a piece is read -/

theorem readCoefficient_of_none {literal : List Char}
    (h : Scalar.readLiteral? (R := R) literal = none) :
    readCoefficient (R := R) literal = .error (.notANumber (String.ofList literal)) := by
  simp only [readCoefficient, h]

theorem readCoefficient_of_some {literal : List Char} {c : R}
    (h : Scalar.readLiteral? literal = some c) :
    readCoefficient literal =
      if Scalar.isFinite c then .ok c else .error (.notFinite (String.ofList literal)) := by
  simp only [readCoefficient, h]

variable {handle? : String → Option H} {piece : List Char}

theorem readTerm_of_malformed {flaw : TermFlaw}
    (h : readPiece (R := R) (Text.trim piece) = .error flaw) :
    readTerm (R := R) handle? piece =
      .error (.malformed (String.ofList (Text.trim piece)) flaw) := by
  simp only [readTerm, h]

theorem readTerm_of_undeclared {c : R} {name : String}
    (h : readPiece (Text.trim piece) = .ok (c, name)) (hname : handle? name = none) :
    readTerm (R := R) handle? piece = .error (.unknownName name) := by
  simp only [readTerm, h, hname]

theorem readTerm_of_declared {c : R} {name : String} {k : H}
    (h : readPiece (Text.trim piece) = .ok (c, name)) (hname : handle? name = some k) :
    readTerm handle? piece = .ok (k, c) := by
  simp only [readTerm, h, hname]

/-! ### Writing -/

/-- The text of the term `c · name`. -/
def term (c : Float) (name : String) : String := plainText c ++ "*" ++ name

/-- The text of the sum of `terms`. -/
def sum (terms : List String) : String := " + ".intercalate terms

end OptModel.Expression
