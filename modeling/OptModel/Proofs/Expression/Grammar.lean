import OptModel.Proofs.Expression.Terms
import Mathlib.Data.List.Basic

/-!
# What the parser accepts

A text is accepted when it is blank or when every piece between its plus signs is a term whose name
is declared. The form that comes out lists the handles in the order in which they appear first, each
with its coefficients added up from the left. Addition rounds, so the order is part of the result.

A text that is not accepted has a first piece that is no such term, and that piece is the one that
is reported, with the first check that it fails. The checks are made in the order in which the rules
of `IsFlawed` stand: each rule says that the earlier checks are passed.

Names are looked up in a function that may be undefined anywhere, the empty name included. A piece
without any character stands for no name, so the empty name cannot be written, even if declared.

## Main definitions

* `Declares` — what a piece stands for
* `IsFlawed`, `Offends` — what is wrong with pieces that stand for nothing
* `LinearForm.addedUp` — the terms of a form, from those it is made of

## Main results

* `LinearForm.terms_ofTerms_eq` — order and coefficients of the form
* `readPiece_eq_error_iff`, `readTerm_eq_error_iff` — what is reported of one piece
* `parse_grammar` — what is accepted, what comes out, and what is reported
* `parse_empty_name` — the empty name is never read
-/

namespace OptModel

/-! ### Adding up terms -/

namespace LinearForm

variable {R H : Type} [Scalar R] [DecidableEq H]

/-- The handles of `terms`, in the order in which they appear first. -/
def handlesOf (terms : List (H × R)) : List H := (terms.map Prod.fst).eraseDups

/-- The coefficients with which `h` appears, in order. -/
def coefficientsOf (h : H) (terms : List (H × R)) : List R :=
  (terms.filter fun t => t.1 = h).map Prod.snd

/-- The sum of some numbers, added up from the left and beginning with the first. -/
def addUp : List R → R
  | [] => Scalar.zero
  | c :: rest => rest.foldl (· + ·) c

/-- The terms that are left when those of one handle are added up. -/
def addedUp (terms : List (H × R)) : List (H × R) :=
  (handlesOf terms).map fun h => (h, addUp (coefficientsOf h terms))

omit [Scalar R] in
theorem handlesOf_append (terms : List (H × R)) (h : H) (c : R) :
    handlesOf (terms ++ [(h, c)]) =
      if h ∈ handlesOf terms then handlesOf terms else handlesOf terms ++ [h] := by
  have hiff : h ∈ handlesOf terms ↔ h ∈ terms.map Prod.fst := List.mem_eraseDups
  have hsplit : handlesOf (terms ++ [(h, c)]) =
      handlesOf terms ++ ([h].removeAll (terms.map Prod.fst)).eraseDups := by
    rw [handlesOf, List.map_append, List.eraseDups_append]
    rfl
  rw [hsplit]
  by_cases hmem : h ∈ terms.map Prod.fst
  · rw [if_pos (hiff.2 hmem)]
    simp only [List.mem_map] at hmem
    simp [List.removeAll, hmem]
  · rw [if_neg (mt hiff.1 hmem)]
    simp only [List.mem_map] at hmem
    simp [List.removeAll, hmem, List.eraseDups_cons]

omit [Scalar R] in
theorem nodup_handlesOf (terms : List (H × R)) : (handlesOf terms).Nodup := by
  induction terms using List.reverseRecOn with
  | nil => exact List.nodup_nil
  | append_singleton terms t ih =>
    rw [handlesOf_append]
    split
    · exact ih
    · next hmem =>
      refine List.nodup_append.2 ⟨ih, List.nodup_singleton _, fun k hk j hj => ?_⟩
      rw [List.mem_singleton] at hj
      rintro rfl
      exact hmem (hj ▸ hk)

omit [Scalar R] in
theorem mem_handlesOf {terms : List (H × R)} {h : H} :
    h ∈ handlesOf terms ↔ coefficientsOf h terms ≠ [] := by
  simp [handlesOf, coefficientsOf, List.mem_eraseDups]

omit [Scalar R] in
theorem coefficientsOf_append (k : H) (terms : List (H × R)) (h : H) (c : R) :
    coefficientsOf k (terms ++ [(h, c)]) =
      if h = k then coefficientsOf k terms ++ [c] else coefficientsOf k terms := by
  by_cases hk : h = k
  · simp [coefficientsOf, hk]
  · simp [coefficientsOf, hk]

/-- One number more is added to what there is. -/
theorem addUp_append {cs : List R} (hcs : cs ≠ []) (c : R) : addUp (cs ++ [c]) = addUp cs + c := by
  cases cs with
  | nil => exact absurd rfl hcs
  | cons d rest => simp [addUp]

/-- Adding a term changes the coefficient of its handle where it stands, or comes last. -/
theorem accumulate_map {hs : List H} (hnodup : hs.Nodup) (f : H → R) (h : H) (c : R) :
    accumulate h c (hs.map fun k => (k, f k)) =
      if h ∈ hs then hs.map fun k => (k, if h = k then f k + c else f k)
      else (hs.map fun k => (k, f k)) ++ [(h, c)] := by
  induction hs with
  | nil => rfl
  | cons k hs ih =>
    obtain ⟨hk, hnodup⟩ := List.nodup_cons.1 hnodup
    rw [List.map_cons, accumulate]
    by_cases heq : k = h
    · subst heq
      have hsame : ∀ j ∈ hs, (j, f j) = (j, if k = j then f j + c else f j) := by
        intro j hj
        rw [if_neg]
        rintro rfl
        exact hk hj
      rw [if_pos rfl, if_pos List.mem_cons_self, List.map_cons, if_pos rfl,
        List.map_congr_left hsame]
    · rw [if_neg heq, ih hnodup]
      by_cases hmem : h ∈ hs
      · rw [if_pos hmem, if_pos (List.mem_cons_of_mem k hmem), List.map_cons,
          if_neg (Ne.symm heq)]
      · rw [if_neg hmem, if_neg (by simp [Ne.symm heq, hmem]), List.cons_append]

/-- **The terms of a form** are those of its handles in the order of their first appearance, with
their coefficients added up from the left. -/
theorem terms_ofTerms_eq (terms : List (H × R)) : (ofTerms terms).terms = addedUp terms := by
  induction terms using List.reverseRecOn with
  | nil => rfl
  | append_singleton terms t ih =>
    -- the last term either adds to a coefficient or brings a new handle, on both sides
    obtain ⟨h, c⟩ := t
    rw [ofTerms_append, terms_add, ih, addedUp, accumulate_map (nodup_handlesOf terms), addedUp,
      handlesOf_append]
    split
    · next hmem =>
      refine List.map_congr_left fun k _ => ?_
      rw [coefficientsOf_append]
      split
      · next heq =>
        subst heq
        rw [addUp_append (mem_handlesOf.1 hmem)]
      · rfl
    · next hmem =>
      have hnone : coefficientsOf h terms = [] := not_ne_iff.1 (mt mem_handlesOf.2 hmem)
      have hrest : ∀ k ∈ handlesOf terms,
          (k, addUp (coefficientsOf k terms)) =
            (k, addUp (coefficientsOf k (terms ++ [(h, c)]))) := by
        intro k hk
        rw [coefficientsOf_append, if_neg]
        rintro rfl
        exact hmem hk
      rw [List.map_append, List.map_congr_left hrest, List.map_singleton, coefficientsOf_append,
        if_pos rfl, hnone]
      rfl

end LinearForm

namespace Expression

/-! ### One piece -/

/-- What is wrong with a trimmed piece that is no term. -/
inductive IsFlawed : List Char → TermFlaw → Prop where
  | empty : IsFlawed [] .empty
  | severalStars {piece : List Char} (hstars : 2 ≤ piece.count '*') : IsFlawed piece .severalStars
  | notANumber {literal name : List Char} (hliteral : '*' ∉ literal) (hstar : '*' ∉ name)
    (hread : readLiteral? (Text.trim literal) = none) :
    IsFlawed (literal ++ '*' :: name) (.notANumber (String.ofList (Text.trim literal)))
  | notFinite {literal name : List Char} {c : Float} (hliteral : '*' ∉ literal)
    (hstar : '*' ∉ name) (hread : readLiteral? (Text.trim literal) = some c)
    (hc : c.isFinite = false) :
    IsFlawed (literal ++ '*' :: name) (.notFinite (String.ofList (Text.trim literal)))
  | missingName {literal name : List Char} {c : Float} (hliteral : '*' ∉ literal)
    (hstar : '*' ∉ name) (hread : readLiteral? (Text.trim literal) = some c) (hc : c.isFinite)
    (hname : Text.trim name = []) : IsFlawed (literal ++ '*' :: name) .missingName

/-- What is reported of a piece that stands for nothing: its flaw with the trimmed piece, or else
the name that is not declared. -/
inductive Offends {H : Type} (handle? : String → Option H) (piece : List Char) : Fault → Prop where
  | malformed {flaw : TermFlaw} (hflaw : IsFlawed (Text.trim piece) flaw) :
    Offends handle? piece (.malformed (String.ofList (Text.trim piece)) flaw)
  | unknownName {c : Float} {name : String} (hterm : IsTerm piece c name)
    (hname : handle? name = none) : Offends handle? piece (.unknownName name)

/-- The handle and the coefficient that a piece stands for: it is a term of a declared name. -/
def Declares {H : Type} (handle? : String → Option H) (piece : List Char) (t : H × Float) : Prop :=
  ∃ name, IsTerm piece t.2 name ∧ handle? name = some t.1

theorem readCoefficient_eq_error_iff {literal : List Char} {flaw : TermFlaw} :
    readCoefficient (R := Float) literal = .error flaw ↔
      (readLiteral? literal = none ∧ flaw = .notANumber (String.ofList literal)) ∨
        ∃ c, readLiteral? literal = some c ∧ c.isFinite = false ∧
          flaw = .notFinite (String.ofList literal) := by
  cases hliteral : readLiteral? literal with
  | none =>
    rw [readCoefficient_of_none hliteral]
    constructor
    · intro h
      exact .inl ⟨rfl, (Except.error.inj h).symm⟩
    · rintro (⟨-, rfl⟩ | ⟨c, hread, -⟩)
      · rfl
      · cases hread
  | some c =>
    rw [readCoefficient_of_some hliteral]
    split
    · next hfinite =>
      constructor
      · intro h
        cases h
      · rintro (⟨hread, -⟩ | ⟨d, hread, hc, -⟩)
        · cases hread
        · obtain rfl := Option.some.inj hread
          exact absurd (hc.symm.trans hfinite) Bool.false_ne_true
    · next hc =>
      constructor
      · intro h
        exact .inr ⟨c, rfl, Bool.eq_false_iff.2 hc, (Except.error.inj h).symm⟩
      · rintro (⟨hread, -⟩ | ⟨d, -, -, rfl⟩)
        · cases hread
        · rfl

variable {piece : List Char}

/-- **What is wrong with a piece is found**, and nothing else is. -/
theorem readPiece_eq_error_iff {flaw : TermFlaw} :
    readPiece (R := Float) piece = .error flaw ↔ IsFlawed piece flaw := by
  constructor
  · intro h
    rcases Text.separator_cases '*' piece with
      hnone | ⟨literal, name, rfl, hliteral, hstar⟩ | hstars
    · by_cases hne : piece = []
      · subst hne
        obtain rfl := Except.error.inj h
        exact .empty
      · rw [readPiece_of_not_mem hne hnone] at h
        cases h
    · rw [readPiece_of_star hliteral hstar] at h
      cases hc : readCoefficient (R := Float) (Text.trim literal) with
      | error flaw' =>
        rw [hc] at h
        obtain rfl := Except.error.inj h
        rcases readCoefficient_eq_error_iff.1 hc with ⟨hread, rfl⟩ | ⟨c, hread, hfinite, rfl⟩
        · exact .notANumber hliteral hstar hread
        · exact .notFinite hliteral hstar hread hfinite
      | ok c =>
        obtain ⟨hread, hfinite⟩ := readCoefficient_eq_ok_iff.1 hc
        rw [hc, Except.bind] at h
        split at h
        · next hname =>
          obtain rfl := Except.error.inj h
          exact .missingName hliteral hstar hread hfinite (List.isEmpty_iff.1 hname)
        · cases h
    · rw [readPiece_of_stars hstars] at h
      obtain rfl := Except.error.inj h
      exact .severalStars hstars
  · intro h
    cases h with
    | empty => rfl
    | severalStars hstars => exact readPiece_of_stars hstars
    | notANumber hliteral hstar hread =>
      rw [readPiece_of_star hliteral hstar, readCoefficient_eq_error_iff.2 (.inl ⟨hread, rfl⟩)]
      rfl
    | notFinite hliteral hstar hread hc =>
      rw [readPiece_of_star hliteral hstar,
        readCoefficient_eq_error_iff.2 (.inr ⟨_, hread, hc, rfl⟩)]
      rfl
    | missingName hliteral hstar hread hc hname =>
      rw [readPiece_of_star hliteral hstar, readCoefficient_eq_ok_iff.2 ⟨hread, hc⟩]
      exact if_pos (List.isEmpty_iff.2 hname)

section Names

variable {H : Type} {handle? : String → Option H}

theorem declares_iff {t : H × Float} :
    Declares handle? piece t ↔ readTerm handle? piece = .ok t := by
  rw [readTerm_eq_ok_iff]
  exact exists_congr fun name => and_congr_left fun _ => isTerm_iff

/-- **What is reported of a piece.** -/
theorem readTerm_eq_error_iff {fault : Fault} :
    readTerm (R := Float) handle? piece = .error fault ↔ Offends handle? piece fault := by
  constructor
  · intro h
    cases hpiece : readPiece (R := Float) (Text.trim piece) with
    | error flaw =>
      rw [readTerm_of_malformed hpiece] at h
      obtain rfl := Except.error.inj h
      exact .malformed (readPiece_eq_error_iff.1 hpiece)
    | ok t =>
      obtain ⟨c, name⟩ := t
      cases hname : handle? name with
      | some k =>
        rw [readTerm_of_declared hpiece hname] at h
        cases h
      | none =>
        rw [readTerm_of_undeclared hpiece hname] at h
        obtain rfl := Except.error.inj h
        exact .unknownName (isTerm_iff.2 hpiece) hname
  · intro h
    cases h with
    | malformed hflaw => exact readTerm_of_malformed (readPiece_eq_error_iff.2 hflaw)
    | unknownName hterm hname => exact readTerm_of_undeclared (isTerm_iff.1 hterm) hname

/-! ### Whole texts -/

variable [DecidableEq H] {text : String}

theorem parse_eq_ok_iff {form : LinearForm H Float} :
    parse handle? text = .ok form ↔
      (Text.allBlank text.toList ∧ form.terms = []) ∨
        ¬ Text.allBlank text.toList ∧ ∃ terms,
          List.Forall₂ (Declares handle?) (Text.pieces '+' text.toList) terms ∧
            form.terms = LinearForm.addedUp terms := by
  have hform : ∀ terms, LinearForm.ofTerms terms = form ↔
      form.terms = LinearForm.addedUp terms := by
    intro terms
    rw [← LinearForm.terms_ofTerms_eq]
    constructor
    · intro h
      rw [h]
    · intro h
      exact congrArg LinearForm.mk h.symm
  rw [parse_eq, Except.map_eq_ok_iff, readTerms]
  simp only [hform]
  split
  · next hblank =>
    simp only [hblank, true_and, not_true_eq_false, false_and, or_false]
    constructor
    · rintro ⟨terms, hterms, h⟩
      obtain rfl := Except.ok.inj hterms
      exact h
    · intro h
      exact ⟨[], rfl, h⟩
  · next hblank =>
    simp only [hblank, Except.mapM_eq_ok_iff, ← declares_iff]
    simp

/-- **A text is accepted** when it is blank or made of declared terms. -/
theorem exists_parse_eq_ok_iff :
    (∃ form : LinearForm H Float, parse handle? text = .ok form) ↔
      Text.allBlank text.toList ∨
        ∀ piece ∈ Text.pieces '+' text.toList, ∃ t, Declares handle? piece t := by
  simp only [parse_eq_ok_iff]
  constructor
  · rintro ⟨form, ⟨hblank, -⟩ | ⟨-, terms, hterms, -⟩⟩
    · exact .inl hblank
    · refine .inr fun piece hpiece => ?_
      obtain ⟨t, -, hdeclares⟩ := hterms.flip.exists_of_mem_right hpiece
      exact ⟨t, hdeclares⟩
  · intro h
    by_cases hblank : Text.allBlank text.toList
    · exact ⟨⟨[]⟩, .inl ⟨hblank, rfl⟩⟩
    · obtain ⟨terms, hterms⟩ := List.exists_forall₂ (h.resolve_left hblank)
      exact ⟨⟨LinearForm.addedUp terms⟩, .inr ⟨hblank, terms, hterms, rfl⟩⟩

/-- **A text is refused** for its first piece that is no declared term. -/
theorem parse_eq_error_iff {fault : Fault} :
    parse (R := Float) handle? text = .error fault ↔
      ¬ Text.allBlank text.toList ∧ ∃ before piece behind,
        Text.pieces '+' text.toList = before ++ piece :: behind ∧
          (∀ p ∈ before, ∃ t, Declares handle? p t) ∧ Offends handle? piece fault := by
  rw [parse_eq, Except.map_eq_error_iff, readTerms]
  split
  · next hblank => simp [hblank]
  · next hblank =>
    rw [Except.mapM_eq_error_iff]
    simp only [hblank, declares_iff, readTerm_eq_error_iff]
    simp

end Names

/-- **The parser accepts its grammar and nothing else**, whatever names are declared. What comes out
has the handles in the order in which they appear first, and what is refused is refused for its
first piece that is no declared term, with the first check that this piece fails. -/
theorem parse_grammar {H : Type} [DecidableEq H] (handle? : String → Option H) (text : String) :
    ((∃ form : LinearForm H Float, parse handle? text = .ok form) ↔
        Text.allBlank text.toList ∨
          ∀ piece ∈ Text.pieces '+' text.toList, ∃ t, Declares handle? piece t) ∧
      (∀ form : LinearForm H Float, parse handle? text = .ok form ↔
        (Text.allBlank text.toList ∧ form.terms = []) ∨
          ¬ Text.allBlank text.toList ∧ ∃ terms,
            List.Forall₂ (Declares handle?) (Text.pieces '+' text.toList) terms ∧
              form.terms = LinearForm.addedUp terms) ∧
      ∀ fault, parse (R := Float) handle? text = .error fault ↔
        ¬ Text.allBlank text.toList ∧ ∃ before piece behind,
          Text.pieces '+' text.toList = before ++ piece :: behind ∧
            (∀ p ∈ before, ∃ t, Declares handle? p t) ∧ Offends handle? piece fault :=
  ⟨exists_parse_eq_ok_iff, fun _ => parse_eq_ok_iff, fun _ => parse_eq_error_iff⟩

/-- The names `x` and the empty one, declared in this order. -/
def withEmptyName (name : String) : Option ℕ :=
  if name = "x" then some 0 else if name = "" then some 1 else none

theorem withEmptyName_eq_some {name : String} {k : ℕ} (h : withEmptyName name = some k) :
    name = "x" ∧ k = 0 ∨ name = "" ∧ k = 1 := by
  rw [withEmptyName] at h
  split at h
  · next hx => exact .inl ⟨hx, (Option.some.inj h).symm⟩
  · split at h
    · next hempty => exact .inr ⟨hempty, (Option.some.inj h).symm⟩
    · cases h

/-- The two names have different handles. -/
theorem withEmptyName_inj {a b : String} {k : ℕ} (ha : withEmptyName a = some k)
    (hb : withEmptyName b = some k) : a = b := by
  rcases withEmptyName_eq_some ha with ⟨rfl, rfl⟩ | ⟨rfl, rfl⟩
  · rcases withEmptyName_eq_some hb with ⟨rfl, -⟩ | ⟨-, hk⟩
    · rfl
    · cases hk
  · rcases withEmptyName_eq_some hb with ⟨-, hk⟩ | ⟨rfl, -⟩
    · cases hk
    · rfl

/-- **The empty name is never read.** Both pieces of `x+` are declared names without a star, and yet
the second one is refused. -/
theorem parse_empty_name :
    (∀ a b k, withEmptyName a = some k → withEmptyName b = some k → a = b) ∧
      Text.allBlank "x+".toList = false ∧
      (∀ piece ∈ Text.pieces '+' "x+".toList, '*' ∉ Text.trim piece ∧
        (withEmptyName (String.ofList (Text.trim piece))).isSome) ∧
      parse (R := Float) withEmptyName "x+" = .error (.malformed "" .empty) := by
  refine ⟨fun _ _ _ => withEmptyName_inj, by decide, by decide, ?_⟩
  rfl

end Expression

end OptModel
