import OptModel.Proofs.Expression.Grammar

/-!
# Written expressions

The terms of a text that was put together from terms are those terms. A name can be mentioned when
it survives trimming and holds neither of the two signs; a coefficient is written by a literal
without signs and blanks, and the plain spelling of a finite double is one that is read back as that
double.

## Main definitions

* `IsMentionable` — the names that an expression can mention
* `IsWritten` — the texts that are put together from terms
* `Yields` — the form of a text, by names

## Main results

* `isTerm_name`, `isTerm_scaled`, `isTerm_term` — what one written term stands for
* `readTerms_sum` — a sum is read text by text
* `IsWritten.spells`, `IsWritten.readTerms_eq`, `IsWritten.yields` — what is written is read
-/

namespace OptModel.Expression

/-- The names that an expression can mention. -/
structure IsMentionable (name : String) : Prop where
  nonempty : name.toList ≠ []
  trimmed : Text.trim name.toList = name.toList
  noPlus : '+' ∉ name.toList
  noStar : '*' ∉ name.toList

/-- Names without blanks and signs. -/
theorem IsMentionable.of_forall {name : String} (hne : name.toList ≠ [])
    (h : ∀ c ∈ name.toList, Text.isBlank c = false ∧ c ≠ '+' ∧ c ≠ '*') : IsMentionable name where
  nonempty := hne
  trimmed := Text.trim_eq_self fun c hc => (h c hc).1
  noPlus hc := (h _ hc).2.1 rfl
  noStar hc := (h _ hc).2.2 rfl

/-- The literals that a coefficient can be written by: without blanks and signs. -/
def IsLiteral (literal : List Char) : Prop :=
  ∀ c ∈ literal, Text.isBlank c = false ∧ c ≠ '+' ∧ c ≠ '*'

instance (literal : List Char) : Decidable (IsLiteral literal) := List.decidableBAll _ literal

theorem isBlank_of_isDigit {c : Char} (h : c.isDigit) : Text.isBlank c = false := by
  have hrange : 48 ≤ c.toNat ∧ c.toNat ≤ 57 := by
    simp only [Char.isDigit, Bool.and_eq_true, decide_eq_true_eq] at h
    exact ⟨UInt32.le_iff_toNat_le.1 h.1, UInt32.le_iff_toNat_le.1 h.2⟩
  simp only [Text.isBlank, Bool.or_eq_false_iff, Bool.and_eq_false_iff, decide_eq_false_iff_not,
    beq_eq_false_iff_ne]
  omega

theorem not_sign_of_isDigit {c : Char} (h : c.isDigit) : c ≠ '+' ∧ c ≠ '*' := by
  constructor <;> (rintro rfl; exact absurd h (by decide))

theorem isInf_of_not_isFinite {x : Float} (h : x.isFinite = false) (hnan : x.isNaN = false) :
    x.isInf := by
  have hfinite : x.toModel.unpack.isFinite = false := h
  have hnan : x.toModel.unpack.isNaN = false := hnan
  show x.toModel.unpack.isInf = true
  cases hu : x.toModel.unpack with
  | infinity s => rfl
  | notANumber =>
    rw [hu] at hnan
    exact nomatch hnan
  | zero s | finite s =>
    rw [hu] at hfinite
    exact nomatch hfinite

/-- How a double that is not finite is written. -/
theorem plainText_of_not_isFinite {x : Float} (h : x.isFinite = false) :
    plainText x ∈ ["NaN", "inf", "-inf"] := by
  rw [plainText]
  split
  · exact List.mem_cons_self
  · next hnan =>
    rw [if_pos (isInf_of_not_isFinite h (Bool.eq_false_iff.2 hnan))]
    split
    · simp
    · simp

/-- Every double is written by a literal. -/
theorem isLiteral_plainText (x : Float) : IsLiteral (plainText x).toList := by
  intro c hc
  cases h : x.isFinite with
  | true =>
    rcases isPlainChar_of_mem_plainText h hc with hdigit | rfl | rfl
    · exact ⟨isBlank_of_isDigit hdigit, not_sign_of_isDigit hdigit⟩
    · decide
    · decide
  | false =>
    have hwords : ∀ text ∈ ["NaN", "inf", "-inf"], IsLiteral text.toList := by decide
    exact hwords _ (plainText_of_not_isFinite h) c hc

/-- A double that is not finite is read back as one that is not finite. -/
theorem readLiteral?_plainText_of_not_isFinite {x : Float} (h : x.isFinite = false) :
    ∃ c, readLiteral? (plainText x).toList = some c ∧ c.isFinite = false := by
  have hword := plainText_of_not_isFinite h
  simp only [List.mem_cons, List.not_mem_nil, or_false] at hword
  rcases hword with hword | hword | hword
  · exact ⟨0.0 / 0.0, by rw [hword]; rfl, by decide⟩
  · exact ⟨Binary64.infinity, by rw [hword]; rfl, by decide⟩
  · exact ⟨-Binary64.infinity, by rw [hword]; rfl, by decide⟩

section Terms

variable {name : String}

/-- A name stands for itself, with coefficient one. -/
theorem isTerm_name (h : IsMentionable name) : IsTerm name.toList 1.0 name := by
  have hbare : IsTerm name.toList 1.0 (String.ofList (Text.trim name.toList)) :=
    .bare (h.trimmed.symm ▸ h.nonempty) (h.trimmed.symm ▸ h.noStar)
  rwa [h.trimmed, String.ofList_toList] at hbare

theorem toList_scaled (literal name : String) :
    (literal ++ "*" ++ name).toList = literal.toList ++ '*' :: name.toList := by
  simp [String.toList_append]

theorem trim_literal {literal : List Char} (h : IsLiteral literal) : Text.trim literal = literal :=
  Text.trim_eq_self fun c hc => (h c hc).1

/-- A literal times a name has no blanks at its ends. -/
theorem trim_scaled {literal : String} (hliteral : IsLiteral literal.toList)
    (h : IsMentionable name) :
    Text.trim (literal ++ "*" ++ name).toList = literal.toList ++ '*' :: name.toList := by
  rw [toList_scaled, Text.trim_append_cons (by decide),
    Text.trimStart_of_trim (trim_literal hliteral),
    Text.trimEnd_of_trim h.trimmed]

/-- A literal times a name. -/
theorem isTerm_scaled {literal : String} {c : Float} (hliteral : IsLiteral literal.toList)
    (hread : readLiteral? literal.toList = some c) (hc : c.isFinite) (h : IsMentionable name) :
    IsTerm (literal ++ "*" ++ name).toList c name := by
  have hscaled :=
    IsTerm.scaled (trim_scaled hliteral h) (fun hd => (hliteral _ hd).2.2 rfl) h.noStar
    ((trim_literal hliteral).symm ▸ hread) hc (h.trimmed.symm ▸ h.nonempty)
  rwa [h.trimmed, String.ofList_toList] at hscaled

/-- **A written term stands for itself**, with the same double. -/
theorem isTerm_term {c : Float} (hc : c.isFinite) (h : IsMentionable name) :
    IsTerm (term c name).toList c name :=
  isTerm_scaled (isLiteral_plainText c) (readLiteral?_plainText hc) hc h

theorem noPlus_scaled {literal : String} (hliteral : IsLiteral literal.toList)
    (h : IsMentionable name) : '+' ∉ (literal ++ "*" ++ name).toList := by
  rw [String.toList_append, String.toList_append, List.mem_append, List.mem_append]
  rintro ((hmem | hmem) | hmem)
  · exact (hliteral _ hmem).2.1 rfl
  · exact absurd hmem (by decide)
  · exact h.noPlus hmem

theorem noPlus_term (c : Float) (h : IsMentionable name) : '+' ∉ (term c name).toList :=
  noPlus_scaled (isLiteral_plainText c) h

/-- **A written term that is not finite is refused**, whatever its name stands for. -/
theorem readTerm_term_of_not_isFinite {H : Type} {handle? : String → Option H} {c : Float}
    (hc : c.isFinite = false) (h : IsMentionable name) :
    readTerm (R := Float) handle? (term c name).toList =
      .error (.malformed (term c name) (.notFinite (plainText c))) := by
  have hliteral := isLiteral_plainText c
  have htrim : Text.trim (term c name).toList = (plainText c).toList ++ '*' :: name.toList :=
    trim_scaled hliteral h
  obtain ⟨d, hread, hd⟩ := readLiteral?_plainText_of_not_isFinite hc
  have hflaw := IsFlawed.notFinite (fun hmem => (hliteral _ hmem).2.2 rfl) h.noStar
    ((trim_literal hliteral).symm ▸ hread) hd
  have hoffends : Offends handle? (term c name).toList _ := .malformed (htrim.symm ▸ hflaw)
  have herror := readTerm_eq_error_iff.2 hoffends
  rwa [htrim, trim_literal hliteral, ← toList_scaled, String.ofList_toList,
    String.ofList_toList] at herror

/-- A written term is no blank. -/
theorem not_allBlank_term (c : Float) (name : String) : ¬ Text.allBlank (term c name).toList := by
  have hstar : '*' ∈ (term c name).toList := by
    rw [term, toList_scaled]
    exact List.mem_append_right _ List.mem_cons_self
  rw [Text.allBlank, List.all_eq_true]
  exact fun hall => absurd (hall _ hstar) (by decide)

/-- A term is no blank. -/
theorem IsTerm.notBlank {text : List Char} {c : Float} (h : IsTerm text c name) :
    ¬ Text.allBlank text := by
  intro hblank
  have hstart : Text.trimStart text = [] := by
    rw [Text.allBlank, List.all_eq_true] at hblank
    have happend := @List.dropWhile_append_of_pos _ Text.isBlank text [] hblank
    rwa [List.append_nil] at happend
  have htrim : Text.trim text = [] := by rw [Text.trim, hstart]; rfl
  cases h with
  | bare hname => exact hname htrim
  | scaled hpiece =>
    rw [htrim] at hpiece
    exact absurd hpiece.symm (by simp)

/-- What a piece stands for is settled once it is trimmed. -/
theorem IsTerm.congr {text other : List Char} {c : Float} (h : IsTerm text c name)
    (htrim : Text.trim other = Text.trim text) : IsTerm other c name := by
  rw [isTerm_iff] at h ⊢
  rwa [htrim]

end Terms

/-! ### Sums -/

section Sums

variable {texts : List String}

theorem toList_sum (text : String) (texts : List String) :
    (sum (text :: texts)).toList =
      [' ', '+', ' '].intercalate (text.toList :: texts.map String.toList) := by
  rw [sum, String.toList_intercalate]
  rfl

/-- Cutting a sum gives back what it was made of, up to blanks. -/
theorem map_trim_pieces_sum (hne : texts ≠ []) (hplus : ∀ text ∈ texts, '+' ∉ text.toList) :
    (Text.pieces '+' (sum texts).toList).map Text.trim =
      texts.map fun text => Text.trim text.toList := by
  obtain ⟨text, texts, rfl⟩ := List.exists_cons_of_ne_nil hne
  have hparts : ∀ p ∈ text.toList :: texts.map String.toList, '+' ∉ p := by
    rw [← List.map_cons, List.forall_mem_map]
    exact hplus
  rw [toList_sum, Text.map_trim_pieces_spaced hparts, ← List.map_cons, List.map_map]
  rfl

/-- A sum that starts with more than blanks is more than blanks. -/
theorem not_allBlank_sum {text : String} (h : ¬ Text.allBlank text.toList) :
    ¬ Text.allBlank (sum (text :: texts)).toList := by
  intro hall
  refine h ?_
  rw [toList_sum, Text.allBlank, List.all_eq_true] at hall
  rw [Text.allBlank, List.all_eq_true]
  intro c hc
  refine hall c ?_
  cases texts with
  | nil => simpa using hc
  | cons next texts =>
    rw [List.map_cons, List.intercalate_cons_cons]
    simp [hc]

variable {H : Type} {handle? : String → Option H}

/-- What a piece is read as is settled once it is trimmed. -/
theorem readTerm_congr {text other : List Char} (htrim : Text.trim other = Text.trim text) :
    readTerm (R := Float) handle? other = readTerm handle? text := by
  rw [readTerm, readTerm, htrim]

/-- **Reading a sum is reading what it was made of**, text by text. -/
theorem readTerms_sum (h : ∀ text ∈ texts, '+' ∉ text.toList ∧ ¬ Text.allBlank text.toList) :
    readTerms (R := Float) handle? (sum texts) =
      texts.mapM fun text => readTerm handle? text.toList := by
  cases texts with
  | nil => rfl
  | cons text texts =>
    rw [readTerms, if_neg (not_allBlank_sum (h text List.mem_cons_self).2)]
    have hpieces := map_trim_pieces_sum (List.cons_ne_nil text texts) fun t ht => (h t ht).1
    have hpaired : List.Forall₂ (fun piece (t : String) => Text.trim piece = Text.trim t.toList)
        (Text.pieces '+' (sum (text :: texts)).toList) (text :: texts) := by
      rw [← List.forall₂_eq_eq_eq, List.forall₂_map_left_iff, List.forall₂_map_right_iff] at hpieces
      exact hpieces
    exact Except.mapM_congr (hpaired.imp fun _ _ htrim => readTerm_congr htrim)

/-- A text that was put together from texts without a plus, each of them a term. -/
def IsWritten (text : String) (named : List (Float × String)) : Prop :=
  ∃ texts, text = sum texts ∧
    List.Forall₂ (fun text n => '+' ∉ text.toList ∧ IsTerm text.toList n.1 n.2) texts named

variable {text : String} {named : List (Float × String)}

/-- **A sum stands for its terms**, unless it is empty and therefore blank. -/
theorem IsWritten.spells (h : IsWritten text named) (hne : named ≠ []) : Spells text named := by
  obtain ⟨texts, rfl, hterms⟩ := h
  constructor
  · cases hterms with
    | nil => exact absurd rfl hne
    | cons hterm _ => exact not_allBlank_sum hterm.2.notBlank
  · have hplus : ∀ text ∈ texts, '+' ∉ text.toList := by
      intro text htext
      obtain ⟨n, -, hn⟩ := hterms.flip.exists_of_mem_right htext
      exact hn.1
    have htexts : texts ≠ [] := by
      rintro rfl
      exact hne (List.forall₂_nil_left_iff.1 hterms)
    have hpieces : List.Forall₂ (fun piece n => IsTerm piece n.1 n.2)
        (texts.map String.toList) named :=
      List.forall₂_map_left_iff.2 (hterms.imp fun _ _ hterm => hterm.2)
    refine hpieces.of_map_left_eq ?_ fun _ _ _ hterm htrim => hterm.congr htrim
    rw [map_trim_pieces_sum htexts hplus, List.map_map]
    rfl

/-- **What is written is read**, with every name looked up. -/
theorem IsWritten.readTerms_eq (h : IsWritten text named) {terms : List (H × Float)}
    (hterms : List.Forall₂ (fun n t => handle? n.2 = some t.1 ∧ n.1 = t.2) named terms) :
    readTerms handle? text = .ok terms := by
  rw [readTerms_eq_ok_iff]
  cases named with
  | nil =>
    obtain ⟨texts, rfl, htexts⟩ := h
    rw [List.forall₂_nil_right_iff] at htexts
    subst htexts
    exact .inl ⟨rfl, List.forall₂_nil_left_iff.1 hterms⟩
  | cons n named => exact .inr ⟨_, h.spells (List.cons_ne_nil n named), hterms⟩

/-- Reading `text` gives a form with these coefficients and names, term by term. -/
def Yields [DecidableEq H] (handle? : String → Option H) (text : String)
    (named : List (Float × String)) : Prop :=
  ∃ form, parse handle? text = .ok form ∧
    List.Forall₂ (fun n t => handle? n.2 = some t.1 ∧ n.1 = t.2) named form.terms

/-- **The form of a text that repeats no name** has the terms that were written. -/
theorem IsWritten.yields [DecidableEq H] (h : IsWritten text named)
    (hdeclared : ∀ n ∈ named, ∃ k, handle? n.2 = some k)
    (hdistinct : (named.map fun n => handle? n.2).Nodup) : Yields handle? text named := by
  have hpartner : ∀ n ∈ named, ∃ t : H × Float, handle? n.2 = some t.1 ∧ n.1 = t.2 := by
    intro n hn
    obtain ⟨k, hk⟩ := hdeclared n hn
    exact ⟨(k, n.1), hk, rfl⟩
  obtain ⟨terms, hterms⟩ := List.exists_forall₂ hpartner
  have hhandles : named.map (fun n => handle? n.2) = (terms.map Prod.fst).map some := by
    rw [List.map_map, ← List.forall₂_eq_eq_eq, List.forall₂_map_left_iff,
      List.forall₂_map_right_iff]
    exact hterms.imp fun _ _ ht => ht.1
  rw [hhandles] at hdistinct
  refine ⟨.ofTerms terms, ?_, ?_⟩
  · rw [parse_eq, h.readTerms_eq hterms]
    rfl
  · rwa [LinearForm.terms_ofTerms hdistinct.of_map]

end Sums

end OptModel.Expression
