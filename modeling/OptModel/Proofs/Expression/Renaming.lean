import OptModel.Proofs.Expression.Terms
import Mathlib.Data.Set.Function

/-!
# Other handles for the same names

An expression is read into a linear form over whatever handles its names stand for. Handles that
tell the same names apart make the same form: the same terms in the same order with the same
coefficients, to the last bit, because the same coefficients are added up in the same order. So an
objective that was read over the columns of a program can be read again over the names.

## Main definitions

* `LinearForm.rename` — a form with its handles replaced

## Main results

* `LinearForm.ofTerms_rename` — replacing handles before or after the terms are added up
* `Expression.parse_rename` — reading over other handles
* `Expression.exists_name_of_parse` — the handles that occur are those of names
-/

namespace OptModel

variable {H K R : Type} {g : H → K}

namespace LinearForm

/-- The form with every handle replaced. Handles that are brought together are not merged. -/
def rename (g : H → K) (form : LinearForm H R) : LinearForm K R :=
  ⟨form.terms.map fun t => (g t.1, t.2)⟩

/-- Replacing the handles is replacing the way in which they are given values. -/
theorem evaluate_rename [Scalar R] (g : H → K) (form : LinearForm H R) (value : K → R) :
    (form.rename g).evaluate value = form.evaluate fun h => value (g h) :=
  List.foldl_map

/-- Only the values of the handles that occur matter. -/
theorem evaluate_congr [Scalar R] {form : LinearForm H R} {value other : H → R}
    (h : ∀ t ∈ form.terms, value t.1 = other t.1) : form.evaluate value = form.evaluate other :=
  List.foldl_ext _ _ _ fun sum t ht => by rw [h t ht]

variable [DecidableEq H] [DecidableEq K] [Add R]

theorem fst_mem_accumulate {h : H} {c : R} {terms : List (H × R)} {t : H × R}
    (ht : t ∈ accumulate h c terms) : t.1 = h ∨ ∃ s ∈ terms, s.1 = t.1 := by
  have hfst := List.mem_map_of_mem (f := Prod.fst) ht
  rw [map_fst_accumulate] at hfst
  split at hfst
  · exact .inr (List.mem_map.1 hfst)
  · rcases List.mem_append.1 hfst with hmem | heq
    · exact .inr (List.mem_map.1 hmem)
    · exact .inl (List.mem_singleton.1 heq)

/-- No handle occurs in a form that does not occur in the terms it is made of. -/
theorem fst_mem_ofTerms {terms : List (H × R)} {t : H × R} (ht : t ∈ (ofTerms terms).terms) :
    ∃ s ∈ terms, s.1 = t.1 := by
  induction terms using List.reverseRecOn generalizing t with
  | nil => exact absurd ht List.not_mem_nil
  | append_singleton terms last ih =>
    rw [ofTerms_append, terms_add] at ht
    rcases fst_mem_accumulate ht with heq | ⟨s, hs, heq⟩
    · exact ⟨last, List.mem_append_right _ List.mem_cons_self, heq.symm⟩
    · obtain ⟨s', hs', heq'⟩ := ih hs
      exact ⟨s', List.mem_append_left _ hs', heq'.trans heq⟩

/-- Adding to the same coefficient, whether handles are replaced before or after. -/
theorem accumulate_rename {handles : Set H} (hg : Set.InjOn g handles) {h : H} (hh : h ∈ handles)
    (c : R) {terms : List (H × R)} (hterms : ∀ t ∈ terms, t.1 ∈ handles) :
    accumulate (g h) c (terms.map fun t => (g t.1, t.2)) =
      (accumulate h c terms).map fun t => (g t.1, t.2) := by
  induction terms with
  | nil => rfl
  | cons t rest ih =>
    obtain ⟨k, d⟩ := t
    obtain ⟨hk, hrest⟩ := List.forall_mem_cons.1 hterms
    rw [List.map_cons, accumulate, accumulate, ih hrest]
    by_cases heq : k = h
    · rw [if_pos heq, if_pos (congrArg g heq), List.map_cons]
    · rw [if_neg heq, if_neg fun hgk => heq (hg hk hh hgk), List.map_cons]

/-- **Replacing handles commutes with adding terms up**, as long as no two are brought together. -/
theorem ofTerms_rename {handles : Set H} (hg : Set.InjOn g handles) {terms : List (H × R)}
    (hterms : ∀ t ∈ terms, t.1 ∈ handles) :
    ofTerms (terms.map fun t => (g t.1, t.2)) = (ofTerms terms).rename g := by
  induction terms using List.reverseRecOn with
  | nil => rfl
  | append_singleton terms t ih =>
    rw [List.forall_mem_append, List.forall_mem_singleton] at hterms
    obtain ⟨hterms, ht⟩ := hterms
    have hinside : ∀ s ∈ (ofTerms terms).terms, s.1 ∈ handles := by
      intro s hs
      obtain ⟨s', hs', heq⟩ := fst_mem_ofTerms hs
      exact heq ▸ hterms s' hs'
    rw [List.map_append, List.map_singleton, ofTerms_append, ofTerms_append, ih hterms]
    exact congrArg LinearForm.mk (accumulate_rename hg ht t.2 hinside)

end LinearForm

namespace Expression

variable [Scalar R] {handle? : String → Option H}

theorem readTerm_rename (g : H → K) (piece : List Char) :
    readTerm (R := R) (fun name => (handle? name).map g) piece =
      (readTerm handle? piece).map fun t => (g t.1, t.2) := by
  cases hpiece : readPiece (R := R) (Text.trim piece) with
  | error flaw =>
    rw [readTerm_of_malformed hpiece, readTerm_of_malformed hpiece]
    rfl
  | ok t =>
    obtain ⟨c, name⟩ := t
    cases hname : handle? name with
    | none =>
      rw [readTerm_of_undeclared hpiece hname,
        readTerm_of_undeclared hpiece (Option.map_eq_none_iff.2 hname)]
      rfl
    | some h =>
      rw [readTerm_of_declared hpiece hname,
        readTerm_of_declared hpiece (Option.map_eq_some_iff.2 ⟨h, hname, rfl⟩)]
      rfl

theorem readTerms_rename (g : H → K) (text : String) :
    readTerms (R := R) (fun name => (handle? name).map g) text =
      (readTerms handle? text).map (List.map fun t => (g t.1, t.2)) := by
  rw [readTerms, readTerms]
  split
  · rfl
  · rw [← Except.mapM_map_right, funext (readTerm_rename g)]

/-- The handles of the terms that are read are those of names. -/
theorem exists_name_of_readTerms {text : String} {terms : List (H × R)}
    (h : readTerms handle? text = .ok terms) : ∀ t ∈ terms, ∃ name, handle? name = some t.1 := by
  intro t ht
  rw [readTerms] at h
  split at h
  · rw [← Except.ok.inj h] at ht
    exact absurd ht List.not_mem_nil
  · obtain ⟨piece, -, hread⟩ := (Except.mapM_eq_ok_iff.1 h).exists_of_mem_right ht
    obtain ⟨name, -, hname⟩ := readTerm_eq_ok_iff.1 hread
    exact ⟨name, hname⟩

variable [DecidableEq H] [DecidableEq K]

/-- The handles that occur in a form that is read are those of names. -/
theorem exists_name_of_parse {text : String} {form : LinearForm H R}
    (h : parse handle? text = .ok form) : ∀ t ∈ form.terms, ∃ name, handle? name = some t.1 := by
  intro t ht
  rw [parse_eq, Except.map_eq_ok_iff] at h
  obtain ⟨terms, hterms, rfl⟩ := h
  obtain ⟨s, hs, heq⟩ := LinearForm.fst_mem_ofTerms ht
  exact heq ▸ exists_name_of_readTerms hterms s hs

/-- **Reading over other handles** gives the same form with its handles replaced, as long as the new
handles tell the same names apart. -/
theorem parse_rename (hg : Set.InjOn g {h | ∃ name, handle? name = some h}) (text : String) :
    parse (R := R) (fun name => (handle? name).map g) text =
      (parse handle? text).map (LinearForm.rename g) := by
  rw [parse_eq, parse_eq, readTerms_rename]
  cases hterms : readTerms (R := R) handle? text with
  | error fault => rfl
  | ok terms =>
    exact congrArg Except.ok (LinearForm.ofTerms_rename hg (exists_name_of_readTerms hterms))

end Expression

end OptModel
