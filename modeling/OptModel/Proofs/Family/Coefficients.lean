import OptModel.Proofs.Binary64.Sums
import OptModel.Proofs.Expression.Grammar
import OptModel.Proofs.Expression.Written
import OptModel.Proofs.Family.Bounds

/-!
# The coefficients of rows and objectives

Every coefficient that a text mentions is checked to be finite. What an engine is told is the sum of
those that stand with one name, and that sum is not checked. It is never a NaN, and it is finite
just when no partial sum overflows; an expression that mentions every name once has nothing to add
up, and its coefficients are the checked ones. But two coefficients close to the largest double,
with the same name, make an infinite one, which is told to the engine like any other.

## Main definitions

* `Expression.AddsUp` — what finite coefficients come to, and when it is finite
* `Directive.form?` — the form that a solver is told for a row or the objective

## Main results

* `Expression.addsUp_of_parse` — the coefficients of a form that was read
* `Family.build_coefficients` — the coefficients that every engine is told
* `Family.build_overflow` — an infinite one that is told
-/

namespace OptModel

/-! ### Adding up coefficients -/

namespace Expression

/-- What the finite coefficients `cs`, at least one of them, come to when they are added up from the
left: a number or an infinity, and an infinity just when some of them, from the first on, come to
one already. -/
structure AddsUp (cs : List Float) (c : Float) : Prop where
  nonempty : cs ≠ []
  summands : ∀ d ∈ cs, d.isFinite
  sum : LinearForm.addUp cs = c
  number : c.isNaN = false
  finite_iff : c.isFinite ↔ ∀ before, before <+: cs → (LinearForm.addUp before).isFinite

theorem addsUp_addUp {cs : List Float} (hne : cs ≠ []) (hcs : ∀ d ∈ cs, d.isFinite) :
    AddsUp cs (LinearForm.addUp cs) := by
  obtain ⟨first, rest, rfl⟩ := List.exists_cons_of_ne_nil hne
  obtain ⟨hfirst, hrest⟩ := List.forall_mem_cons.1 hcs
  refine ⟨hne, hcs, rfl, ?_, ?_⟩
  · exact Binary64.isNaN_foldl_add (isNaN_of_isFinite hfirst) hrest
  · refine (Binary64.isFinite_foldl_add_iff hrest).trans ?_
    constructor
    · intro h before hbefore
      rcases List.prefix_cons_iff.1 hbefore with rfl | ⟨before, rfl, hprefix⟩
      · exact (by decide : (0.0 : Float).isFinite)
      · exact h before hprefix
    · intro h before hbefore
      exact h (first :: before) ((List.prefix_cons_inj first).2 hbefore)

section Forms

variable {H : Type} [DecidableEq H] {terms : List (H × Float)}

/-- The coefficients of a form are sums of those of its terms. -/
theorem addsUp_of_mem_ofTerms (hfinite : ∀ t ∈ terms, t.2.isFinite) :
    ∀ t ∈ (LinearForm.ofTerms terms).terms, AddsUp (LinearForm.coefficientsOf t.1 terms) t.2 := by
  rw [LinearForm.terms_ofTerms_eq, LinearForm.addedUp, List.forall_mem_map]
  intro h hmem
  refine addsUp_addUp (LinearForm.mem_handlesOf.1 hmem) ?_
  rw [LinearForm.coefficientsOf, List.forall_mem_map]
  exact fun t ht => hfinite t (List.mem_filter.1 ht).1

/-- Where no handle is repeated there is nothing to add up. -/
theorem isFinite_of_mem_ofTerms (hfinite : ∀ t ∈ terms, t.2.isFinite)
    (hnodup : (terms.map Prod.fst).Nodup) :
    ∀ t ∈ (LinearForm.ofTerms terms).terms, t.2.isFinite := by
  rw [LinearForm.terms_ofTerms hnodup]
  exact hfinite

/-- **The coefficients of a form that was read** are sums of the finite coefficients that its text
mentions. -/
theorem addsUp_of_parse {handle? : String → Option H} {text : String} {form : LinearForm H Float}
    (h : parse handle? text = .ok form) :
    ∃ terms, readTerms handle? text = .ok terms ∧
      (∀ t ∈ form.terms, AddsUp (LinearForm.coefficientsOf t.1 terms) t.2) ∧
      ((terms.map Prod.fst).Nodup → ∀ t ∈ form.terms, t.2.isFinite) := by
  rw [parse_eq, Except.map_eq_ok_iff] at h
  obtain ⟨terms, hread, rfl⟩ := h
  have hfinite := isFinite_of_mem_readTerms hread
  exact ⟨terms, hread, addsUp_of_mem_ofTerms hfinite, isFinite_of_mem_ofTerms hfinite⟩

end Forms

end Expression

/-! ### What is told -/

/-- The form that a directive gives to a row or to the objective. -/
def Directive.form? {R : Type} : Directive R → Option (LinearForm ℕ R)
  | row form _ _ | objective form _ => some form
  | _ => none

/-- The texts of the rows and of the objective. -/
def Model.expressions {R : Type} (model : Model R) : List String :=
  model.rows.map (·.expression) ++ [model.objective.expression]

namespace Family

section Directives

variable {R : Type} [Scalar R]

/-- The form that is told for a row or the objective is that of its text. -/
theorem exists_expression_of_form? {handle? : String → Option ℕ} {objective : Objective}
    {form : LinearForm ℕ R} (rows : List (Row R)) :
    ∀ d ∈ (rowsAndObjective handle? objective rows).1, d.form? = some form →
      ∃ text ∈ rows.map (·.expression) ++ [objective.expression],
        Expression.parse handle? text = .ok form := by
  induction rows with
  | nil =>
    rw [rowsAndObjective_nil]
    cases hobjective : Expression.parse (R := R) handle? objective.expression with
    | error fault => exact List.forall_mem_nil _
    | ok told =>
      refine List.forall_mem_singleton.2 fun hform => ?_
      exact ⟨_, List.mem_singleton_self _, hobjective.trans (congrArg _ (Option.some.inj hform))⟩
  | cons row rows ih =>
    cases hrow : Expression.parse (R := R) handle? row.expression with
    | error fault =>
      rw [rowsAndObjective_cons_of_error hrow]
      exact List.forall_mem_nil _
    | ok told =>
      rw [rowsAndObjective_cons_of_ok hrow]
      refine List.forall_mem_cons.2 ⟨fun hform => ?_, fun d hd hform => ?_⟩
      · exact ⟨_, List.mem_cons_self, hrow.trans (congrArg _ (Option.some.inj hform))⟩
      · obtain ⟨text, htext, hparse⟩ := ih d hd hform
        exact ⟨text, List.mem_cons_of_mem _ htext, hparse⟩

theorem form?_column {family : Family} {infinity : R} (v : Variable R) :
    (family.column infinity v).form? = none := by
  rcases v with ⟨name, kind, lower, upper, start⟩
  cases family <;> cases kind <;> rfl

end Directives

variable {family : Family} {engine : Engine} {config : Config} {model : Model Float}

/-- **The form that an engine is told** is that of a text of the model that is built. -/
theorem exists_parse_of_told {d : Directive Float} {form : LinearForm ℕ Float}
    (htold : .tell d ∈ (family.build engine config model).1) (hform : d.form? = some form) :
    ∃ built plan, family.formulate model = .ok (built, plan) ∧
      ∃ text ∈ built.expressions, Expression.parse (columnOf? built) text = .ok form := by
  cases hformulate : family.formulate model with
  | error fault =>
    rw [build_of_fault hformulate] at htold
    exact absurd htold List.not_mem_nil
  | ok formulated =>
    obtain ⟨built, plan⟩ := formulated
    refine ⟨built, plan, rfl, ?_⟩
    rcases List.mem_append.1 (mem_directives_of_told hformulate htold) with hcolumn | hrest
    · obtain ⟨v, -, rfl⟩ := List.mem_map.1 hcolumn
      rw [form?_column] at hform
      cases hform
    · exact exists_expression_of_form? _ _ hrest hform

/-- **The coefficients of forms.** Whatever text is read, against whatever names, the coefficients
of its form are sums of finite ones. So are those that any engine is told when any model is built,
and where a text mentions no name twice they are finite themselves. -/
theorem build_coefficients (family : Family) (engine : Engine) (config : Config)
    (model : Model Float) :
    (∀ (H : Type) [DecidableEq H] (handle? : String → Option H) (text : String)
        (form : LinearForm H Float), Expression.parse handle? text = .ok form →
      ∃ terms, Expression.readTerms handle? text = .ok terms ∧
        (∀ t ∈ form.terms, Expression.AddsUp (LinearForm.coefficientsOf t.1 terms) t.2) ∧
        ((terms.map Prod.fst).Nodup → ∀ t ∈ form.terms, t.2.isFinite)) ∧
      ∀ (d : Directive Float) (form : LinearForm ℕ Float),
        .tell d ∈ (family.build engine config model).1 → d.form? = some form →
      ∃ built plan, family.formulate model = .ok (built, plan) ∧
        ∃ text ∈ built.expressions, Expression.parse (columnOf? built) text = .ok form ∧
          ∃ terms, Expression.readTerms (columnOf? built) text = .ok terms ∧
            (∀ t ∈ form.terms, Expression.AddsUp (LinearForm.coefficientsOf t.1 terms) t.2) ∧
            (Expression.MentionsOnce text → ∀ t ∈ form.terms, t.2.isFinite) := by
  refine ⟨fun H _ handle? text form h => Expression.addsUp_of_parse h, ?_⟩
  intro d form htold hform
  obtain ⟨built, plan, hformulate, text, htext, hparse⟩ := exists_parse_of_told htold hform
  obtain ⟨terms, hread, hsums, hnodup⟩ := Expression.addsUp_of_parse hparse
  refine ⟨built, plan, hformulate, text, htext, hparse, terms, hread, hsums, fun honce => ?_⟩
  exact hnodup (nodup_of_mentionsOnce honce hread)

/-- A linear problem with one variable `x` that minimises `text`. -/
def minimizing (text : String) : Model Float where
  type := .linearProgramming
  vars := [⟨"x", .continuous, some 0.0, none, none⟩]
  objective := { expression := text }

/-- The objective of a problem in `x` is told as it is read. -/
theorem mem_build_minimizing {text : String} {form : LinearForm ℕ Float}
    (h : Expression.parse (columnOf? (minimizing text)) text = .ok form) :
    .tell (.objective form .minimize) ∈
      (linear.build (Engine.scripted {}) {} (minimizing text)).1 := by
  have hreads : Reads (columnOf? (minimizing text)) (minimizing text).objective
      (minimizing text).rows [.objective form .minimize] none := .complete .nil h
  rw [build_of_told rfl rfl (directives_of_reads hreads)]
  exact List.mem_cons_of_mem _ (List.mem_cons_of_mem _ List.mem_cons_self)

/-- The coefficients of `2*x + 3*x` come to five. -/
theorem build_coefficients_five :
    Expression.parse (columnOf? (minimizing "2*x + 3*x")) "2*x + 3*x" = .ok ⟨[(0, (5.0 : Float))]⟩ ∧
      .tell (.objective ⟨[(0, 5.0)]⟩ .minimize) ∈
        (linear.build (Engine.scripted {}) {} (minimizing "2*x + 3*x")).1 ∧
      (5.0 : Float).isNaN = false := by
  have hparse : Expression.parse (columnOf? (minimizing "2*x + 3*x")) "2*x + 3*x" =
      .ok ⟨[(0, (5.0 : Float))]⟩ := rfl
  have htold := mem_build_minimizing hparse
  refine ⟨hparse, htold, ?_⟩
  obtain ⟨_, _, -, _, -, -, _, -, hsums, -⟩ := (build_coefficients _ _ _ _).2 _ _ htold rfl
  exact (hsums (0, 5.0) List.mem_cons_self).number

/-! ### A sum that overflows -/

/-- The double nearest to `10 ^ 308`. -/
def huge : Float := Decimal.toFloat ⟨1, 308⟩

theorem readLiteral?_huge : readLiteral? "1e308".toList = some huge := by
  have hsign : Decimal.splitSign "1e308".toList = (false, "1e308".toList) := by decide
  have hdecimal : Decimal.unsigned? "1e308".toList = some ⟨1, 308⟩ := by decide
  simp only [readLiteral?, hsign]
  rw [if_neg (by decide), if_neg (by decide), hdecimal]
  simp only [Option.map_some, Bool.false_eq_true, if_false, huge]

theorem isFinite_huge : huge.isFinite := by decide +kernel

theorem huge_add_huge : huge + huge = Binary64.infinity :=
  Binary64.eq_of_toBits_eq (by decide +kernel)

theorem isTerm_huge : Expression.IsTerm "1e308*x".toList huge "x" := by
  have hliteral : Expression.IsLiteral "1e308".toList := by decide
  have hletter : Expression.IsLiteral "x".toList := by decide
  have hname : Expression.IsMentionable "x" := .of_forall (by decide) hletter
  exact Expression.isTerm_scaled hliteral readLiteral?_huge isFinite_huge hname

theorem parse_huge_add_huge {handle? : String → Option ℕ} (h : handle? "x" = some 0) :
    Expression.parse handle? "1e308*x + 1e308*x" = .ok ⟨[(0, Binary64.infinity)]⟩ := by
  have hplus : '+' ∉ "1e308*x".toList := by decide
  have hwritten : Expression.IsWritten "1e308*x + 1e308*x" [(huge, "x"), (huge, "x")] :=
    ⟨["1e308*x", "1e308*x"], by decide,
      .cons ⟨hplus, isTerm_huge⟩ (.cons ⟨hplus, isTerm_huge⟩ .nil)⟩
  have hterms : Expression.readTerms handle? "1e308*x + 1e308*x" = .ok [(0, huge), (0, huge)] :=
    hwritten.readTerms_eq (.cons ⟨h, rfl⟩ (.cons ⟨h, rfl⟩ .nil))
  rw [Expression.parse_eq, hterms, ← huge_add_huge]
  rfl

/-- **An infinite coefficient that is told.** The model is well formed and its text is read, since
it mentions finite coefficients only; their sum overflows, and the engine is told infinity. -/
theorem build_overflow :
    (minimizing "1e308*x + 1e308*x").isWellFormed = true ∧
      Expression.parse (columnOf? (minimizing "1e308*x + 1e308*x")) "1e308*x + 1e308*x" =
        .ok ⟨[(0, Binary64.infinity)]⟩ ∧
      .tell (.objective ⟨[(0, Binary64.infinity)]⟩ .minimize) ∈
        (linear.build (Engine.scripted {}) {} (minimizing "1e308*x + 1e308*x")).1 ∧
      Binary64.infinity.isFinite = false := by
  have hparse : Expression.parse (columnOf? (minimizing "1e308*x + 1e308*x")) "1e308*x + 1e308*x" =
      .ok ⟨[(0, Binary64.infinity)]⟩ := parse_huge_add_huge (by decide)
  exact ⟨by decide, hparse, mem_build_minimizing hparse, by decide⟩

end Family

end OptModel
