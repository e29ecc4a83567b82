import OptModel.Expression
import OptModel.Proofs.Decimal.ReadBack
import OptModel.Proofs.Except
import OptModel.Proofs.LinearForm
import OptModel.Proofs.Lists
import OptModel.Proofs.Text.Pieces

/-!
# The terms of an expression

Reading an expression is reading its terms and then adding them up. The terms are where text becomes
data, and nothing is rounded before they are added: over the unrounded numbers a text has the same
terms as over the doubles, each coefficient with its exact value. What a term is, is said here
without the reader.

## Main definitions

* `IsTerm` — the coefficient and the name that a piece stands for
* `Spells` — the coefficients and names that a text stands for
* `readTerms` — the terms of a text, in order

## Main results

* `parse_eq` — parsing is reading the terms and adding them up
* `isTerm_iff`, `readTerms_eq_ok_iff` — the reader reads terms and nothing else
* `readTerms_unrounded` — the same terms over the unrounded numbers
-/

namespace OptModel.Expression

/-- The coefficient and the name that a piece stands for: a name alone, or a literal times a name.
-/
inductive IsTerm (piece : List Char) : Float → String → Prop where
  | bare (hname : Text.trim piece ≠ []) (hstar : '*' ∉ Text.trim piece) :
    IsTerm piece 1.0 (String.ofList (Text.trim piece))
  | scaled {literal name : List Char} {c : Float}
    (hpiece : Text.trim piece = literal ++ '*' :: name) (hliteral : '*' ∉ literal)
    (hstar : '*' ∉ name) (hread : readLiteral? (Text.trim literal) = some c) (hc : c.isFinite)
    (hname : Text.trim name ≠ []) : IsTerm piece c (String.ofList (Text.trim name))

/-- The coefficients and names that a text stands for, unless it is blank. -/
structure Spells (text : String) (named : List (Float × String)) : Prop where
  notBlank : ¬ Text.allBlank text.toList
  pieces : List.Forall₂ (fun piece n => IsTerm piece n.1 n.2) (Text.pieces '+' text.toList) named

section Reading

variable {R H : Type} [Scalar R] {handle? : String → Option H}

/-- The terms of `text`, their names looked up in `handle?`. -/
def readTerms (handle? : String → Option H) (text : String) : Except Fault (List (H × R)) :=
  if Text.allBlank text.toList then .ok []
  else (Text.pieces '+' text.toList).mapM (readTerm handle?)

/-- **Parsing is reading the terms and adding them up.** -/
theorem parse_eq [DecidableEq H] (text : String) :
    parse (R := R) handle? text = (readTerms handle? text).map LinearForm.ofTerms := by
  rw [parse, readTerms]
  split
  · rfl
  · exact Except.foldlM_map (f := readTerm handle?)
      (g := fun (sum : LinearForm H R) t => sum.add t.1 t.2) _ _

/-! ### Reading one piece -/

theorem readCoefficient_eq_ok_iff {literal : List Char} {c : R} :
    readCoefficient literal = .ok c ↔
      Scalar.readLiteral? literal = some c ∧ Scalar.isFinite c = true := by
  cases hread : Scalar.readLiteral? (R := R) literal with
  | none =>
    rw [readCoefficient_of_none hread]
    exact ⟨nofun, nofun⟩
  | some d =>
    rw [readCoefficient_of_some hread]
    split
    · next hd =>
      constructor
      · intro h
        rw [← Except.ok.inj h]
        exact ⟨rfl, hd⟩
      · rintro ⟨h, -⟩
        rw [Option.some.inj h]
    · next hd =>
      refine ⟨nofun, ?_⟩
      rintro ⟨h, hc⟩
      exact absurd (Option.some.inj h ▸ hc) hd

theorem readPiece_of_not_mem {piece : List Char} (hne : piece ≠ []) (h : '*' ∉ piece) :
    readPiece piece = .ok ((Scalar.one : R), String.ofList piece) := by
  have hsome : piece.isEmpty = false := List.isEmpty_eq_false_iff.2 hne
  simp only [readPiece, Text.pieces_of_not_mem h, hsome, Bool.false_eq_true, if_false]

theorem readPiece_of_star {literal name : List Char} (hliteral : '*' ∉ literal)
    (hstar : '*' ∉ name) :
    readPiece (R := R) (literal ++ '*' :: name) =
      (readCoefficient (Text.trim literal)).bind fun c =>
      if (Text.trim name).isEmpty then .error .missingName
      else .ok (c, String.ofList (Text.trim name)) := by
  simp only [readPiece, Text.pieces_pair hliteral hstar]
  cases readCoefficient (R := R) (Text.trim literal) <;> rfl

theorem readPiece_of_stars {piece : List Char} (h : 2 ≤ piece.count '*') :
    readPiece (R := R) piece = .error .severalStars := by
  have hlength := Text.length_pieces '*' piece
  rw [readPiece]
  split
  · next hnil => exact absurd hnil (Text.pieces_ne_nil '*' piece)
  · next hone =>
    rw [hone, List.length_singleton] at hlength
    omega
  · next htwo =>
    rw [htwo, List.length_cons, List.length_singleton] at hlength
    omega
  · rfl

/-- How a piece can have been read: it has no star, or one. -/
theorem readPiece_cases {piece : List Char} {c : R} {name : String}
    (h : readPiece piece = .ok (c, name)) :
    (piece ≠ [] ∧ '*' ∉ piece ∧ c = Scalar.one ∧ name = String.ofList piece) ∨
      ∃ literal rest, piece = literal ++ '*' :: rest ∧ '*' ∉ literal ∧ '*' ∉ rest ∧
        readCoefficient (Text.trim literal) = .ok c ∧ Text.trim rest ≠ [] ∧
        name = String.ofList (Text.trim rest) := by
  rcases Text.separator_cases '*' piece with hnone | ⟨literal, rest, rfl, hliteral, hrest⟩ | hstars
  · have hne : piece ≠ [] := by
      rintro rfl
      cases h
    rw [readPiece_of_not_mem hne hnone] at h
    obtain ⟨rfl, rfl⟩ := Prod.mk.inj (Except.ok.inj h)
    exact .inl ⟨hne, hnone, rfl, rfl⟩
  · rw [readPiece_of_star hliteral hrest] at h
    obtain ⟨d, hd, h⟩ := Except.bind_eq_ok_iff.1 h
    split at h
    · cases h
    · next hne =>
      obtain ⟨rfl, rfl⟩ := Prod.mk.inj (Except.ok.inj h)
      exact .inr ⟨literal, rest, rfl, hliteral, hrest, hd, mt List.isEmpty_iff.2 hne, rfl⟩
  · rw [readPiece_of_stars hstars] at h
    cases h

theorem readTerm_eq_ok_iff {piece : List Char} {h : H} {c : R} :
    readTerm handle? piece = .ok (h, c) ↔
      ∃ name, readPiece (Text.trim piece) = .ok (c, name) ∧ handle? name = some h := by
  constructor
  · intro hok
    cases hpiece : readPiece (R := R) (Text.trim piece) with
    | error flaw =>
      rw [readTerm_of_malformed hpiece] at hok
      exact nomatch hok
    | ok t =>
      obtain ⟨d, name⟩ := t
      cases hhandle : handle? name with
      | none =>
        rw [readTerm_of_undeclared hpiece hhandle] at hok
        exact nomatch hok
      | some k =>
        rw [readTerm_of_declared hpiece hhandle] at hok
        obtain ⟨rfl, rfl⟩ := Prod.mk.inj (Except.ok.inj hok)
        exact ⟨name, rfl, hhandle⟩
  · rintro ⟨name, hpiece, hhandle⟩
    exact readTerm_of_declared hpiece hhandle

end Reading

/-! ### Terms over the doubles -/

/-- **The reader reads terms and nothing else.** -/
theorem isTerm_iff {piece : List Char} {c : Float} {name : String} :
    IsTerm piece c name ↔ readPiece (Text.trim piece) = .ok (c, name) := by
  constructor
  · rintro (⟨hname, hstar⟩ | ⟨hpiece, hliteral, hstar, hread, hc, hname⟩)
    · exact readPiece_of_not_mem hname hstar
    · rw [hpiece, readPiece_of_star hliteral hstar, readCoefficient_eq_ok_iff.2 ⟨hread, hc⟩]
      exact if_neg (mt List.isEmpty_iff.1 hname)
  · intro h
    rcases readPiece_cases h with
      ⟨hname, hstar, rfl, rfl⟩ | ⟨literal, rest, hpiece, hliteral, hstar, hc, hname, rfl⟩
    · exact .bare hname hstar
    · obtain ⟨hread, hc⟩ := readCoefficient_eq_ok_iff.1 hc
      exact .scaled hpiece hliteral hstar hread hc hname

/-- A piece stands for one term at most. -/
theorem IsTerm.unique {piece : List Char} {c c' : Float} {name name' : String}
    (h : IsTerm piece c name) (h' : IsTerm piece c' name') : c = c' ∧ name = name' := by
  have heq := (isTerm_iff.1 h).symm.trans (isTerm_iff.1 h')
  exact Prod.mk.inj (Except.ok.inj heq)

theorem IsTerm.isFinite {piece : List Char} {c : Float} {name : String} (h : IsTerm piece c name) :
    c.isFinite := by
  cases h with
  | bare => decide
  | scaled _ _ _ _ hc _ => exact hc

/-- The coefficients that a text has are finite. -/
theorem Spells.isFinite {text : String} {named : List (Float × String)} (h : Spells text named) :
    ∀ n ∈ named, n.1.isFinite := by
  intro n hn
  obtain ⟨piece, -, hpiece⟩ := h.pieces.exists_of_mem_right hn
  exact hpiece.isFinite

/-- A text stands for one list of terms at most. -/
theorem Spells.unique {text : String} {named named' : List (Float × String)}
    (h : Spells text named) (h' : Spells text named') : named = named' := by
  have hunique : Relator.RightUnique
      fun (piece : List Char) (n : Float × String) => IsTerm piece n.1 n.2 :=
    fun _ _ _ hn hn' => Prod.ext_iff.2 (hn.unique hn')
  exact List.right_unique_forall₂' hunique h.pieces h'.pieces

/-- Reading pieces is finding their terms and looking the names up. -/
theorem forall₂_readTerm_iff {H : Type} {handle? : String → Option H} {pieces : List (List Char)}
    {terms : List (H × Float)} :
    List.Forall₂ (fun piece t => readTerm handle? piece = .ok t) pieces terms ↔
      ∃ named : List (Float × String),
        List.Forall₂ (fun piece n => IsTerm piece n.1 n.2) pieces named ∧
          List.Forall₂ (fun n t => handle? n.2 = some t.1 ∧ n.1 = t.2) named terms := by
  constructor
  · intro h
    induction h with
    | nil => exact ⟨[], .nil, .nil⟩
    | @cons piece t pieces terms hpiece _ ih =>
      obtain ⟨named, hnamed, hterms⟩ := ih
      obtain ⟨name, hread, hhandle⟩ := readTerm_eq_ok_iff.1 hpiece
      exact ⟨(t.2, name) :: named, .cons (isTerm_iff.2 hread) hnamed, .cons ⟨hhandle, rfl⟩ hterms⟩
  · rintro ⟨named, hnamed, hterms⟩
    induction hnamed generalizing terms with
    | nil =>
      rw [List.forall₂_nil_left_iff.1 hterms]
      exact .nil
    | @cons piece n pieces named hpiece _ ih =>
      obtain ⟨t, rest, ⟨hhandle, hc⟩, hrest, rfl⟩ := List.forall₂_cons_left_iff.1 hterms
      refine .cons (readTerm_eq_ok_iff.2 ⟨n.2, ?_, hhandle⟩) (ih hrest)
      rw [← hc]
      exact isTerm_iff.1 hpiece

/-- **What is read is what the text stands for**, its names looked up. -/
theorem readTerms_eq_ok_iff {H : Type} {handle? : String → Option H} {text : String}
    {terms : List (H × Float)} :
    readTerms handle? text = .ok terms ↔
      (Text.allBlank text.toList ∧ terms = []) ∨
        ∃ named, Spells text named ∧
          List.Forall₂ (fun n t => handle? n.2 = some t.1 ∧ n.1 = t.2) named terms := by
  rw [readTerms]
  split
  · next hblank =>
    constructor
    · intro h
      exact .inl ⟨hblank, (Except.ok.inj h).symm⟩
    · rintro (⟨-, rfl⟩ | ⟨named, hspells, -⟩)
      · rfl
      · exact absurd hblank hspells.notBlank
  · next hblank =>
    rw [Except.mapM_eq_ok_iff, forall₂_readTerm_iff]
    constructor
    · rintro ⟨named, hnamed, hterms⟩
      exact .inr ⟨named, ⟨hblank, hnamed⟩, hterms⟩
    · rintro (⟨hall, -⟩ | ⟨named, hspells, hterms⟩)
      · exact absurd hall hblank
      · exact ⟨named, hspells.pieces, hterms⟩

/-! ### Terms over the unrounded numbers -/

section Unrounded

variable {H : Type} (handle? : String → Option H)

theorem readLiteral?_unrounded (literal : List Char) :
    Scalar.readLiteral? (R := Extended) literal =
      (Scalar.readLiteral? literal).map Extended.ofFloat := rfl

theorem readCoefficient_unrounded (literal : List Char) :
    readCoefficient (R := Extended) literal = (readCoefficient literal).map Extended.ofFloat := by
  rw [readCoefficient, readCoefficient, readLiteral?_unrounded]
  cases Scalar.readLiteral? (R := Float) literal with
  | none => rfl
  | some c =>
    simp only [Option.map_some, Extended.isFinite_ofFloat]
    show _ = Except.map _ (if c.isFinite = true then _ else _)
    split <;> rfl

theorem readPiece_unrounded (piece : List Char) :
    readPiece (R := Extended) piece =
      (readPiece piece).map fun t => (Extended.ofFloat t.1, t.2) := by
  have hone : (Scalar.one : Extended) = Extended.ofFloat Scalar.one := Extended.ofFloat_one.symm
  rw [readPiece, readPiece]
  split
  · rw [hone]
    split <;> rfl
  · rw [hone]
    split <;> rfl
  · next literal name _ =>
    rw [readCoefficient_unrounded]
    cases readCoefficient (R := Float) (Text.trim literal) with
    | error flaw => rfl
    | ok c =>
      show (if _ then _ else _) = Except.map _ (if _ then _ else _)
      split <;> rfl
  · rfl

theorem readTerm_unrounded (piece : List Char) :
    readTerm (R := Extended) handle? piece =
      (readTerm handle? piece).map fun t => (t.1, Extended.ofFloat t.2) := by
  have hunrounded := readPiece_unrounded (Text.trim piece)
  cases hpiece : readPiece (R := Float) (Text.trim piece) with
  | error flaw =>
    rw [hpiece] at hunrounded
    rw [readTerm_of_malformed hpiece, readTerm_of_malformed hunrounded]
    rfl
  | ok t =>
    obtain ⟨c, name⟩ := t
    rw [hpiece] at hunrounded
    cases hname : handle? name with
    | none =>
      rw [readTerm_of_undeclared hpiece hname, readTerm_of_undeclared hunrounded hname]
      rfl
    | some h =>
      rw [readTerm_of_declared hpiece hname, readTerm_of_declared hunrounded hname]
      rfl

/-- **A text has the same terms over the unrounded numbers**, each coefficient with its exact
value. -/
theorem readTerms_unrounded (text : String) :
    readTerms (R := Extended) handle? text =
      (readTerms handle? text).map (List.map fun t => (t.1, Extended.ofFloat t.2)) := by
  rw [readTerms, readTerms]
  split
  · rfl
  · rw [← Except.mapM_map_right, funext (readTerm_unrounded handle?)]

/-- The terms that are read have finite coefficients. -/
theorem isFinite_of_mem_readTerms {handle? : String → Option H} {text : String}
    {terms : List (H × Float)} (h : readTerms handle? text = .ok terms) :
    ∀ t ∈ terms, t.2.isFinite := by
  intro t ht
  rcases readTerms_eq_ok_iff.1 h with ⟨-, rfl⟩ | ⟨named, hspells, hterms⟩
  · exact absurd ht List.not_mem_nil
  · obtain ⟨n, hn, -, hc⟩ := hterms.exists_of_mem_right ht
    exact hc ▸ hspells.isFinite n hn

end Unrounded

end OptModel.Expression
