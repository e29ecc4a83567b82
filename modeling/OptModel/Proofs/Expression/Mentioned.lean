import OptModel.Proofs.Expression.Written

/-!
# The names that can be mentioned

A name is found in a text by cutting at the signs and trimming what is left, so no text has a term
for a name with a sign in it, with blanks at an end or without any character, however it is spelled.
Every other declared name is a text that mentions it. A model may declare a name of the first kind;
no row can make use of it.

Sums of terms over names of the second kind are read back as they were written: the same handles in
the same order, with the same doubles. Nothing has to be assumed of the spelling of doubles, since
the plain spelling of a finite one is known to be a literal that reads back (`isLiteral_plainText`,
`readLiteral?_plainText`).

## Main results

* `IsTerm.isMentionable` — pieces stand for names that can be mentioned
* `exists_parse_mentions_iff` — the handles that occur in some expression
* `parse_mentions` — these handles, and sums of terms that are read back
-/

namespace OptModel.Expression

/-! ### What a piece can stand for -/

/-- What is left of a text without signs can be mentioned. -/
theorem isMentionable_trim {text : List Char} (hne : Text.trim text ≠ []) (hplus : '+' ∉ text)
    (hstar : '*' ∉ text) : IsMentionable (String.ofList (Text.trim text)) where
  nonempty := by rwa [String.toList_ofList]
  trimmed := by rw [String.toList_ofList, Text.trim_trim]
  noPlus := by
    rw [String.toList_ofList]
    exact mt Text.mem_of_mem_trim hplus
  noStar := by
    rw [String.toList_ofList]
    exact mt Text.mem_of_mem_trim hstar

/-- **A piece stands for a name that can be mentioned.** -/
theorem IsTerm.isMentionable {piece : List Char} {c : Float} {name : String}
    (h : IsTerm piece c name) (hplus : '+' ∉ piece) : IsMentionable name := by
  have htrimmed : '+' ∉ Text.trim piece := mt Text.mem_of_mem_trim hplus
  cases h with
  | bare hname hstar =>
    have hmentionable := isMentionable_trim ((Text.trim_trim piece).symm ▸ hname) htrimmed hstar
    rwa [Text.trim_trim] at hmentionable
  | @scaled literal name c hpiece hliteral hstar hread hc hname =>
    refine isMentionable_trim hname (fun hmem => htrimmed ?_) hstar
    rw [hpiece]
    exact List.mem_append_right _ (List.mem_cons_of_mem _ hmem)

/-- The names that a text stands for can be mentioned. -/
theorem Spells.isMentionable {text : String} {named : List (Float × String)}
    (h : Spells text named) : ∀ n ∈ named, IsMentionable n.2 := by
  intro n hn
  obtain ⟨piece, hpiece, hterm⟩ := h.pieces.exists_of_mem_right hn
  exact hterm.isMentionable (Text.not_mem_of_mem_pieces hpiece)

/-! ### What an expression can contain -/

section Handles

variable {H : Type} [DecidableEq H] {handle? : String → Option H}

/-- The handles of a form that was read are those of the names that its text stands for. -/
theorem exists_named_of_parse {text : String} {form : LinearForm H Float} {k : H}
    (h : parse handle? text = .ok form) (hk : k ∈ form.terms.map Prod.fst) :
    ∃ named, Spells text named ∧ ∃ n ∈ named, handle? n.2 = some k := by
  rw [parse_eq, Except.map_eq_ok_iff] at h
  obtain ⟨terms, hread, rfl⟩ := h
  have hmem : k ∈ terms.map Prod.fst := by
    have hhandles : (LinearForm.ofTerms terms).terms.map Prod.fst = LinearForm.handlesOf terms := by
      rw [LinearForm.terms_ofTerms_eq, LinearForm.addedUp, List.map_map]
      exact List.map_id _
    rw [hhandles] at hk
    exact List.mem_eraseDups.1 hk
  rcases readTerms_eq_ok_iff.1 hread with ⟨-, rfl⟩ | ⟨named, hspells, hterms⟩
  · exact absurd hmem List.not_mem_nil
  · obtain ⟨t, ht, rfl⟩ := List.mem_map.1 hmem
    obtain ⟨n, hn, hname, -⟩ := hterms.exists_of_mem_right ht
    exact ⟨named, hspells, n, hn, hname⟩

/-- **The handles that occur in some expression** are those of the names that can be mentioned, if
no two names share a handle. -/
theorem exists_parse_mentions_iff
    (hinj : ∀ a b k, handle? a = some k → handle? b = some k → a = b) {name : String} {k : H}
    (hname : handle? name = some k) :
    (∃ (text : String) (form : LinearForm H Float), parse handle? text = .ok form ∧
        k ∈ form.terms.map Prod.fst) ↔ IsMentionable name := by
  constructor
  · rintro ⟨text, form, hparse, hk⟩
    obtain ⟨named, hspells, n, hn, hhandle⟩ := exists_named_of_parse hparse hk
    exact hinj _ _ _ hhandle hname ▸ hspells.isMentionable n hn
  · intro h
    have hwritten : IsWritten name [(1.0, name)] :=
      ⟨[name], by simp [sum], .cons ⟨h.noPlus, isTerm_name h⟩ .nil⟩
    have hterms : readTerms handle? name = .ok [(k, 1.0)] :=
      hwritten.readTerms_eq (.cons ⟨hname, rfl⟩ .nil)
    refine ⟨name, .ofTerms [(k, 1.0)], ?_, List.mem_singleton_self k⟩
    rw [parse_eq, hterms]
    rfl

end Handles

/-! ### Reading back -/

/-- A coefficient, the name it stands with, and the handle of that name. -/
structure Entry (H : Type) where
  coefficient : Float
  name : String
  handle : H

/-- Whether an entry can be written: its coefficient is finite and its name, which stands for its
handle, can be mentioned. -/
structure Entry.IsWritable {H : Type} (handle? : String → Option H) (entry : Entry H) : Prop where
  finite : entry.coefficient.isFinite
  mentionable : IsMentionable entry.name
  declared : handle? entry.name = some entry.handle

/-- The text of entries, term by term. -/
def render {H : Type} (entries : List (Entry H)) : String :=
  sum (entries.map fun e => term e.coefficient e.name)

/-- The form of entries, term by term. -/
def formOf {H : Type} (entries : List (Entry H)) : LinearForm H Float :=
  ⟨entries.map fun e => (e.handle, e.coefficient)⟩

section Render

variable {H : Type} {handle? : String → Option H} {entries : List (Entry H)}

/-- Entries that can be written have been written as terms. -/
theorem isWritten_render (h : ∀ e ∈ entries, e.IsWritable handle?) :
    IsWritten (render entries) (entries.map fun e => (e.coefficient, e.name)) :=
  ⟨_, rfl, List.forall₂_map_same fun e he =>
    ⟨noPlus_term e.coefficient (h e he).mentionable,
      isTerm_term (h e he).finite (h e he).mentionable⟩⟩

/-- Names that differ have handles that differ. -/
theorem nodup_handles (hinj : ∀ a b k, handle? a = some k → handle? b = some k → a = b)
    (h : ∀ e ∈ entries, e.IsWritable handle?) (hdistinct : (entries.map (·.name)).Nodup) :
    (entries.map (·.handle)).Nodup := by
  rw [List.Nodup, List.pairwise_map] at hdistinct ⊢
  refine hdistinct.imp_of_mem fun {a b} ha hb hne heq => hne ?_
  exact hinj _ _ _ (heq ▸ (h a ha).declared) (h b hb).declared

/-- **Entries are read back** as they were written. -/
theorem parse_render [DecidableEq H]
    (hinj : ∀ a b k, handle? a = some k → handle? b = some k → a = b)
    (h : ∀ e ∈ entries, e.IsWritable handle?) (hdistinct : (entries.map (·.name)).Nodup) :
    parse handle? (render entries) = .ok (formOf entries) := by
  have hread : readTerms handle? (render entries) =
      .ok (entries.map fun e => (e.handle, e.coefficient)) :=
    (isWritten_render h).readTerms_eq
      (List.forall₂_map_same fun e he => ⟨(h e he).declared, rfl⟩)
  have hnodup : ((entries.map fun e => (e.handle, e.coefficient)).map Prod.fst).Nodup := by
    rw [List.map_map]
    exact nodup_handles hinj h hdistinct
  rw [parse_eq, hread]
  exact congrArg (fun terms => Except.ok (LinearForm.mk terms)) (LinearForm.terms_ofTerms hnodup)

end Render

/-- **What expressions can mention, and what is read back.** Whatever names are declared with
handles that differ: a handle occurs in some expression just when its name has a character, is its
own trim and holds neither sign; and a sum of finite coefficients times different names of this
kind is read as that sum, in the same order and with the same doubles. -/
theorem parse_mentions {H : Type} [DecidableEq H] (handle? : String → Option H)
    (hinj : ∀ a b k, handle? a = some k → handle? b = some k → a = b) :
    (∀ name k, handle? name = some k →
      ((∃ (text : String) (form : LinearForm H Float), parse handle? text = .ok form ∧
          k ∈ form.terms.map Prod.fst) ↔
        name.toList ≠ [] ∧ Text.trim name.toList = name.toList ∧ '+' ∉ name.toList ∧
          '*' ∉ name.toList)) ∧
      ∀ entries : List (Entry H), (∀ e ∈ entries, e.IsWritable handle?) →
        (entries.map (·.name)).Nodup → parse handle? (render entries) = .ok (formOf entries) := by
  refine ⟨fun name k hname => ?_, fun entries => parse_render hinj⟩
  rw [exists_parse_mentions_iff hinj hname]
  constructor
  · rintro ⟨hne, htrimmed, hplus, hstar⟩
    exact ⟨hne, htrimmed, hplus, hstar⟩
  · rintro ⟨hne, htrimmed, hplus, hstar⟩
    exact ⟨hne, htrimmed, hplus, hstar⟩

/-- Three declared names, one of them with a plus. -/
def flows (name : String) : Option ℕ := List.idxOf? name ["x", "net flow", "a+b"]

theorem flows_inj (a b : String) (k : ℕ) (ha : flows a = some k) (hb : flows b = some k) :
    a = b := by
  obtain ⟨_, ha, -⟩ := List.idxOf?_eq_some_iff.1 ha
  obtain ⟨_, hb, -⟩ := List.idxOf?_eq_some_iff.1 hb
  exact ha.symm.trans hb

/-- Two terms over names that can be mentioned, one of which has a blank inside. -/
def flowEntries : List (Entry ℕ) := [⟨2.5, "net flow", 1⟩, ⟨-0.0, "x", 0⟩]

/-- No text mentions `a+b`, and `2.5*net flow + -0*x` is read back, with the sign of its zero. -/
theorem parse_mentions_flows :
    (∀ a b k, flows a = some k → flows b = some k → a = b) ∧ flows "a+b" = some 2 ∧
      (¬ ∃ (text : String) (form : LinearForm ℕ Float), parse flows text = .ok form ∧
        2 ∈ form.terms.map Prod.fst) ∧
      (∀ e ∈ flowEntries, e.IsWritable flows) ∧ (flowEntries.map (·.name)).Nodup ∧
      render flowEntries = "2.5*net flow + -0*x" ∧
      parse flows "2.5*net flow + -0*x" = .ok ⟨[(1, (2.5 : Float)), (0, -0.0)]⟩ := by
  have hrender : render flowEntries = "2.5*net flow + -0*x" := by rfl
  have hnodup : (flowEntries.map (·.name)).Nodup := by decide
  have hwritable : ∀ e ∈ flowEntries, e.IsWritable flows := by
    refine List.forall_mem_cons.2 ⟨?_, List.forall_mem_singleton.2 ?_⟩
    · exact ⟨by decide, ⟨by decide, by decide, by decide, by decide⟩, by decide⟩
    · exact ⟨by decide, ⟨by decide, by decide, by decide, by decide⟩, by decide⟩
  obtain ⟨hmentions, hread⟩ := parse_mentions flows flows_inj
  refine ⟨flows_inj, by decide, fun h => ?_, hwritable, hnodup, hrender, ?_⟩
  · exact absurd ((hmentions "a+b" 2 (by decide)).1 h).2.2.1 (by decide)
  · exact hrender ▸ hread flowEntries hwritable hnodup

end OptModel.Expression
