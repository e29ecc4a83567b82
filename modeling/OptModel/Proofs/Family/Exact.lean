import OptModel.Proofs.Expression.Grammar
import OptModel.Proofs.Expression.Worth
import OptModel.Proofs.Family.Stage

/-!
# Models and programs in exact arithmetic

A model of doubles is a model of unrounded numbers, and its program over them has the same columns,
and rows and an objective made of the same terms. The one thing that rounds when a program is made
is the merging of a name that is repeated within an expression. An expression whose coefficients add
up without rounding, one that repeats no name among them, has the same form over the unrounded
numbers as over the doubles.

## Main definitions

* `Model.exact` — a model of doubles, its numbers taken at their exact values
* `exactTerms` — terms of doubles, likewise
* `Expression.MergesExactly` — coefficients of one name add up without rounding
* `Expression.MentionsOnce` — no name is repeated

## Main results

* `Family.stage_exact` — the program over the unrounded numbers has the same terms
* `Family.satisfied_assemble_iff`, `Family.objectiveAt_assemble` — the program over the unrounded
  numbers means what the texts mean
* `Family.satisfied_exact_iff`, `Family.objectiveAt_exact` — so does the program of doubles, if
  nothing is rounded
-/

namespace OptModel

section Map

variable {R S : Type}

/-- The variable with its numbers replaced. -/
def Variable.map (f : R → S) (v : Variable R) : Variable S :=
  ⟨v.name, v.kind, v.lowerBound.map f, v.upperBound.map f, v.initialValue.map f⟩

/-- The row with its number replaced. -/
def Row.map (f : R → S) (row : Row R) : Row S := ⟨row.name, row.expression, row.sense, f row.rhs⟩

/-- The model with its numbers replaced. -/
def Model.map (f : R → S) (model : Model R) : Model S where
  name := model.name
  type := model.type
  vars := model.vars.map (·.map f)
  rows := model.rows.map (·.map f)
  objective := model.objective
  locations := model.locations
  vehicles := model.vehicles
  depot := model.depot
  distances := model.distances

end Map

/-- A model of doubles, its numbers taken at their exact values. -/
def Model.exact (model : Model Float) : Model Extended := model.map Extended.ofFloat

/-- Terms of doubles, their coefficients taken at their exact values. -/
def exactTerms {H : Type} (terms : List (H × Float)) : List (H × Extended) :=
  terms.map fun t => (t.1, Extended.ofFloat t.2)

/-- What terms of doubles are worth. -/
def worthOf {H : Type} (terms : List (H × Float)) (v : H → ℚ) : ℚ :=
  (terms.map fun t => Binary64.value t.2 * v t.1).sum

/-- Doubles that come to their exact sum when they are added up from the left. -/
def AddsExactly (cs : List Float) : Prop :=
  Binary64.toRat? (LinearForm.addUp cs) = some (cs.map Binary64.value).sum

instance (cs : List Float) : Decidable (AddsExactly cs) :=
  inferInstanceAs (Decidable (_ = _))

/-- The coefficients that a text has for one and the same name add up without rounding. -/
def Expression.MergesExactly (text : String) : Prop :=
  ∀ named, Spells text named → ∀ name : String,
    AddsExactly ((named.filter fun n => n.2 = name).map Prod.fst)

/-- No name stands in two pieces of a text. -/
def Expression.MentionsOnce (text : String) : Prop :=
  ∀ named, Spells text named → (named.map Prod.snd).Nodup

/-! ### Adding up -/

@[simp] theorem addsExactly_nil : AddsExactly [] := Binary64.toRat?_zero

theorem addsExactly_singleton {c : Float} (hc : c.isFinite) : AddsExactly [c] := by
  rw [AddsExactly, List.map_singleton, List.sum_singleton]
  exact Extended.toRat?_eq_value hc

/-- Finite doubles add up to their sum when nothing is rounded. -/
theorem addUp_map_ofFloat {cs : List Float} (hcs : ∀ c ∈ cs, c.isFinite) :
    LinearForm.addUp (cs.map Extended.ofFloat) = .rational (cs.map Binary64.value).sum := by
  have hrational : cs.map Extended.ofFloat = (cs.map Binary64.value).map .rational := by
    rw [List.map_map]
    exact List.map_congr_left fun c hc => Extended.ofFloat_of_isFinite (hcs c hc)
  have hsum : LinearForm.addUp (cs.map Extended.ofFloat) =
      Extended.sum (cs.map Extended.ofFloat) := by
    cases cs with
    | nil => rfl
    | cons c rest => exact Extended.foldl_add (rest.map Extended.ofFloat) (Extended.ofFloat c)
  rw [hsum, hrational, Extended.sum_map_rational]

/-- Only the names that a text has have coefficients to add up. -/
theorem Expression.Spells.mergesExactly {text : String} {named : List (Float × String)}
    (h : Expression.Spells text named)
    (hnames : ∀ n ∈ named, AddsExactly ((named.filter fun m => m.2 = n.2).map Prod.fst)) :
    Expression.MergesExactly text := by
  intro named' hspells name
  rw [← h.unique hspells]
  by_cases hname : ∃ n ∈ named, n.2 = name
  · obtain ⟨n, hn, rfl⟩ := hname
    exact hnames n hn
  · have hnone : named.filter (fun n => n.2 = name) = [] := by
      rw [List.filter_eq_nil_iff]
      intro n hn
      rw [decide_eq_true_iff]
      exact fun h => hname ⟨n, hn, h⟩
    rw [hnone]
    exact addsExactly_nil

/-- **A text that repeats no name has nothing to add up.** -/
theorem Expression.MentionsOnce.mergesExactly {text : String} (h : Expression.MentionsOnce text) :
    Expression.MergesExactly text := by
  intro named hspells name
  have hfinite : ∀ n ∈ named.filter (fun n => n.2 = name), n.1.isFinite := fun n hn =>
    hspells.isFinite n (List.mem_of_mem_filter hn)
  have hname : ∀ n ∈ named.filter (fun n => n.2 = name), n.2 = name := fun n hn =>
    of_decide_eq_true (List.mem_filter.1 hn).2
  have hnodup : ((named.filter fun n => n.2 = name).map Prod.snd).Nodup :=
    (h named hspells).sublist (List.filter_sublist.map _)
  -- all of these terms have one name, which stands once
  generalize named.filter (fun n => n.2 = name) = entries at *
  rcases entries with _ | ⟨n, _ | ⟨m, rest⟩⟩
  · exact addsExactly_nil
  · exact addsExactly_singleton (hfinite n (List.mem_singleton_self n))
  · have hmem : n.2 ∈ ((m :: rest).map Prod.snd) := by
      rw [hname n List.mem_cons_self, ← hname m (List.mem_cons_of_mem n List.mem_cons_self)]
      exact List.mem_cons_self
    exact absurd hmem (List.nodup_cons.1 hnodup).1

/-! ### Forms -/

namespace LinearForm

variable {H : Type} [DecidableEq H]

theorem evaluate_exactTerms {terms : List (H × Float)} (h : ∀ t ∈ terms, t.2.isFinite)
    (v : H → ℚ) :
    (ofTerms (exactTerms terms)).evaluate (fun i => .rational (v i)) =
      .rational (worthOf terms v) := by
  have hterms : exactTerms terms =
      (terms.map fun t => (t.1, Binary64.value t.2)).map
        fun t => (t.1, Extended.rational t.2) := by
    rw [List.map_map]
    exact List.map_congr_left fun t ht => Prod.ext rfl (Extended.ofFloat_of_isFinite (h t ht))
  rw [hterms, evaluate_ofTerms, List.map_map]
  rfl

/-- **Where coefficients add up exactly**, a form of doubles is the form of its unrounded terms. -/
theorem map_ofTerms_of_addsExactly {terms : List (H × Float)} (hfinite : ∀ t ∈ terms, t.2.isFinite)
    (h : ∀ k, AddsExactly (coefficientsOf k terms)) :
    (ofTerms terms).map Extended.ofFloat = ofTerms (exactTerms terms) := by
  have hhandles : handlesOf (exactTerms terms) = handlesOf terms := by
    rw [handlesOf, exactTerms, List.map_map]
    rfl
  have hcoefficients : ∀ k, coefficientsOf k (exactTerms terms) =
      (coefficientsOf k terms).map Extended.ofFloat := by
    intro k
    rw [coefficientsOf, exactTerms, List.filter_map, List.map_map, coefficientsOf, List.map_map]
    rfl
  have hsum : ∀ k, Extended.ofFloat (addUp (coefficientsOf k terms)) =
      addUp (coefficientsOf k (exactTerms terms)) := by
    intro k
    have hcs : ∀ c ∈ coefficientsOf k terms, c.isFinite := by
      rw [coefficientsOf, List.forall_mem_map]
      exact fun t ht => hfinite t (List.mem_of_mem_filter ht)
    rw [hcoefficients, addUp_map_ofFloat hcs, Extended.ofFloat_of_toRat? (h k)]
  have hterms :
      ((ofTerms terms).map Extended.ofFloat).terms = (ofTerms (exactTerms terms)).terms := by
    rw [map, terms_ofTerms_eq, terms_ofTerms_eq, addedUp, addedUp, hhandles, List.map_map]
    exact List.map_congr_left fun k _ => Prod.ext rfl (hsum k)
  exact congrArg LinearForm.mk hterms

end LinearForm

/-! ### Staging -/

namespace Family

theorem columnOf?_exact (model : Model Float) : columnOf? model.exact = columnOf? model := by
  funext name
  rw [columnOf?, columnOf?, Model.exact, Model.map, List.map_map]
  rfl

/-- The bounds of a column are the exact ones of its variable. -/
theorem columnFor_exact (family : Family) (v : Variable Float) :
    family.columnFor Scalar.infinity (v.map Extended.ofFloat) =
      (family.columnFor Binary64.infinity v).map Extended.ofFloat := by
  have hlower : (v.lowerBound.map Extended.ofFloat).getD (-Scalar.infinity) =
      Extended.ofFloat (v.lowerBound.getD (-Binary64.infinity)) := by
    have hmap := Option.getD_map Extended.ofFloat (-Binary64.infinity) v.lowerBound
    rwa [Extended.ofFloat_neg_infinity] at hmap
  have hupper : (v.upperBound.map Extended.ofFloat).getD Scalar.infinity =
      Extended.ofFloat (v.upperBound.getD Binary64.infinity) := by
    have hmap := Option.getD_map Extended.ofFloat Binary64.infinity v.upperBound
    rwa [Extended.ofFloat_infinity] at hmap
  have hzero : (Scalar.zero : Extended) = Extended.ofFloat Scalar.zero :=
    Extended.ofFloat_zero.symm
  have hone : (Scalar.one : Extended) = Extended.ofFloat Scalar.one := Extended.ofFloat_one.symm
  rcases v with ⟨name, kind, lowerBound, upperBound, initialValue⟩
  cases family <;> cases kind <;>
    simp only [columnFor, Variable.map, Variable.lower, Variable.upper, Column.map] at * <;>
    simp only [hlower, hupper, hzero, hone] <;> rfl

theorem HasTerms.exact {model : Model Float} {rows : List (List (ℕ × Float))}
    {objective : List (ℕ × Float)} (h : HasTerms model rows objective) :
    HasTerms model.exact (rows.map exactTerms) (exactTerms objective) where
  rows := by
    rw [columnOf?_exact]
    refine List.forall₂_map_left_iff.2 (List.forall₂_map_right_iff.2 (h.rows.imp ?_))
    intro row terms hterms
    show Expression.readTerms _ row.expression = _
    rw [Expression.readTerms_unrounded, hterms]
    rfl
  objective := by
    rw [columnOf?_exact]
    show Expression.readTerms _ model.objective.expression = _
    rw [Expression.readTerms_unrounded, h.objective]
    rfl

/-- **The program over the unrounded numbers** is made of the same terms. -/
theorem stage_exact {family : Family} {model : Model Float} {program : Program Float}
    (h : family.stage Binary64.infinity model = .ok program) :
    ∃ rows objective, HasTerms model rows objective ∧
      program = family.assemble Binary64.infinity model rows objective ∧
      family.stage Scalar.infinity model.exact =
        .ok (family.assemble Scalar.infinity model.exact (rows.map exactTerms)
          (exactTerms objective)) := by
  obtain ⟨rows, objective, hterms, hprogram⟩ := stage_eq_ok_iff.1 h
  exact ⟨rows, objective, hterms, hprogram, stage_eq_ok_iff.2 ⟨_, _, hterms.exact, rfl⟩⟩

theorem columns_exact (family : Family) (model : Model Float) :
    model.exact.vars.map (family.columnFor Scalar.infinity ·) =
      (model.vars.map (family.columnFor Binary64.infinity ·)).map (·.map Extended.ofFloat) := by
  rw [Model.exact, Model.map, List.map_map, List.map_map]
  exact List.map_congr_left fun v _ => columnFor_exact family v

/-! ### Named values -/

theorem getElem?_of_lastIndex? {name : String} {names : List String} {i : ℕ}
    (h : lastIndex? name names = some i) : names[i]? = some name := by
  induction names generalizing i with
  | nil => exact nomatch h
  | cons n names ih =>
    rw [lastIndex?] at h
    split at h
    · next k hk =>
      rw [← Option.some.inj h, List.getElem?_cons_succ]
      exact ih hk
    · split at h
      · next hn =>
        rw [← Option.some.inj h, hn]
        rfl
      · exact nomatch h

theorem exists_lastIndex? {name : String} {names : List String} (h : name ∈ names) :
    ∃ i, lastIndex? name names = some i := by
  induction names with
  | nil => exact absurd h List.not_mem_nil
  | cons n names ih =>
    rw [lastIndex?]
    cases hlast : lastIndex? name names with
    | some i => exact ⟨i + 1, rfl⟩
    | none =>
      rcases List.mem_cons.1 h with rfl | h
      · exact ⟨0, if_pos rfl⟩
      · obtain ⟨i, hi⟩ := ih h
        rw [hlast] at hi
        exact nomatch hi

/-- Where no name is repeated, a name stands for the one place that it has. -/
theorem lastIndex?_of_getElem? {name : String} {names : List String} (hnames : names.Nodup) {i : ℕ}
    (h : names[i]? = some name) : lastIndex? name names = some i := by
  obtain ⟨k, hk⟩ := exists_lastIndex? (List.mem_of_getElem? h)
  have heq := (getElem?_of_lastIndex? hk).trans h.symm
  rw [hk, (List.getElem?_inj (List.getElem?_eq_some_iff.1 h).1 hnames).1 heq.symm]

/-- The column that a name stands for has the value of that name. -/
theorem getD_of_columnOf? {R : Type} {model : Model R} {name : String} {i : ℕ}
    (h : columnOf? model name = some i) (value : String → ℚ) :
    (model.vars.map fun v => value v.name).getD i 0 = value name := by
  have hname := getElem?_of_lastIndex? h
  rw [List.getElem?_map, Option.map_eq_some_iff] at hname
  obtain ⟨v, hv, rfl⟩ := hname
  rw [List.getD_eq_getElem?_getD, List.getElem?_map, hv]
  rfl

/-- Different names stand for different columns. -/
theorem nodup_of_columnOf? {R : Type} {model : Model R} {names : List String} {columns : List ℕ}
    (h : List.Forall₂ (fun name i => columnOf? model name = some i) names columns)
    (hnames : names.Nodup) : columns.Nodup := by
  induction h with
  | nil => exact List.nodup_nil
  | @cons name i names columns hi hrest ih =>
    rw [List.nodup_cons] at hnames ⊢
    refine ⟨fun hmem => hnames.1 ?_, ih hnames.2⟩
    obtain ⟨other, hother, hcolumn⟩ := hrest.exists_of_mem_right hmem
    have heq := (getElem?_of_lastIndex? hi).symm.trans (getElem?_of_lastIndex? hcolumn)
    rwa [Option.some.inj heq]

theorem byName_assemble {R : Type} [Scalar R] {family : Family} {infinity : R} {model : Model R}
    {rows : List (List (ℕ × R))} {objective : List (ℕ × R)} (value : String → ℚ) :
    (family.assemble infinity model rows objective).byName value =
      model.vars.map fun v => value v.name := by
  rw [Program.byName, assemble, List.map_map]
  exact List.map_congr_left fun v _ => congrArg value (name_columnFor infinity v family)

/-- What a text is worth is what its terms are worth at the columns of their names. -/
theorem worth_worthOf {model : Model Float} {text : String} {terms : List (ℕ × Float)}
    (h : Expression.readTerms (columnOf? model) text = .ok terms) (value : String → ℚ) :
    Expression.Worth value text
      (worthOf terms fun i => (model.vars.map fun v => value v.name).getD i 0) :=
  Expression.worth_of_readTerms (fun _ _ hi => getD_of_columnOf? hi value) h

/-- **When named values satisfy the program of a model**: each variable its column, and each row
what its expression is worth. -/
theorem satisfied_assemble_iff {family : Family} {model : Model Float}
    {rows : List (List (ℕ × Float))} {objective : List (ℕ × Float)}
    (h : HasTerms model rows objective) {t : ℚ} {value : String → ℚ} :
    (family.assemble Scalar.infinity model.exact (rows.map exactTerms)
        (exactTerms objective)).Satisfied t (model.vars.map fun v => value v.name) ↔
      (∀ v ∈ model.vars,
        ((family.columnFor Binary64.infinity v).map Extended.ofFloat).Takes t (value v.name)) ∧
      ∀ row ∈ model.rows, ∃ total, Expression.Worth value row.expression total ∧
        row.sense.holds (.rational total) (Extended.ofFloat row.rhs) (.rational t) = true := by
  have hnamed : (family.assemble Scalar.infinity model.exact (rows.map exactTerms)
      (exactTerms objective)).byName value = model.vars.map fun v => value v.name := by
    rw [byName_assemble, Model.exact, Model.map, List.map_map]
    rfl
  rw [← hnamed, Program.satisfied_byName_iff, hnamed]
  refine and_congr ?_ ?_
  · rw [assemble, Model.exact, Model.map, List.map_map, List.forall_mem_map]
    refine forall₂_congr fun v _ => ?_
    rw [Function.comp_apply, columnFor_exact]
    have hname : ((family.columnFor Binary64.infinity v).map Extended.ofFloat).name = v.name :=
      name_columnFor Binary64.infinity v family
    rw [hname]
  · have hpaired : List.Forall₂ (fun _ _ => True) (model.rows.map (·.map Extended.ofFloat))
        ((rows.map exactTerms).map LinearForm.ofTerms) := by
      rw [List.map_map, List.forall₂_map_left_iff, List.forall₂_map_right_iff]
      exact h.rows.imp fun _ _ _ => trivial
    show (∀ row ∈ List.zipWith rowOf _ _, _) ↔ _
    refine (List.forall_mem_zipWith_iff hpaired).trans ?_
    rw [List.map_map, List.forall₂_map_left_iff, List.forall₂_map_right_iff]
    refine h.rows.iff_forall_left fun row _ terms hread => ?_
    have hvalue := LinearForm.evaluate_exactTerms (Expression.isFinite_of_mem_readTerms hread)
      fun i => (model.vars.map fun v => value v.name).getD i 0
    have hworth := worth_worthOf hread value
    show row.sense.holds ((LinearForm.ofTerms (exactTerms terms)).evaluate _) _ _ = true ↔ _
    rw [hvalue]
    constructor
    · intro hholds
      exact ⟨_, hworth, hholds⟩
    · rintro ⟨total, htotal, hholds⟩
      rwa [hworth.unique htotal]

/-- **What the objective is worth.** -/
theorem objectiveAt_assemble {family : Family} {model : Model Float}
    {rows : List (List (ℕ × Float))} {objective : List (ℕ × Float)}
    (h : HasTerms model rows objective) (value : String → ℚ) :
    ∃ total, Expression.Worth value model.objective.expression total ∧
      (family.assemble Scalar.infinity model.exact (rows.map exactTerms)
          (exactTerms objective)).objectiveAt
        ((model.vars.map fun v => value v.name).map .rational) = .rational total := by
  refine ⟨_, worth_worthOf h.objective value, ?_⟩
  rw [Program.objectiveAt, Program.valueOf_map_rational, assemble,
    LinearForm.evaluate_exactTerms (Expression.isFinite_of_mem_readTerms h.objective)]
  exact Extended.add_rational_zero _

/-! ### Expressions that are not rounded -/

/-- The coefficients of a column are those of the name that stands for it. -/
theorem coefficientsOf_eq {model : Model Float} {named : List (Float × String)}
    {terms : List (ℕ × Float)}
    (h : List.Forall₂ (fun n t => columnOf? model n.2 = some t.1 ∧ n.1 = t.2) named terms)
    {name : String} {i : ℕ} (hname : columnOf? model name = some i) :
    LinearForm.coefficientsOf i terms = (named.filter fun n => n.2 = name).map Prod.fst := by
  induction h with
  | nil => rfl
  | @cons n t named terms hterm _ ih =>
    have hsame : t.1 = i ↔ n.2 = name := by
      constructor
      · intro hi
        have hdeclared := getElem?_of_lastIndex? hterm.1
        rw [hi, getElem?_of_lastIndex? hname] at hdeclared
        exact (Option.some.inj hdeclared).symm
      · intro hn
        exact Option.some.inj (hterm.1.symm.trans (hn ▸ hname))
    rw [LinearForm.coefficientsOf] at ih ⊢
    by_cases hi : t.1 = i
    · rw [List.filter_cons_of_pos (by simpa using hi), List.map_cons, ih, ← hterm.2,
        List.filter_cons_of_pos (by simpa using hsame.1 hi), List.map_cons]
    · rw [List.filter_cons_of_neg (by simpa using hi), ih,
        List.filter_cons_of_neg (by simpa using mt hsame.2 hi)]

/-- Where no name is repeated within an expression, no column is. -/
theorem nodup_of_mentionsOnce {model : Model Float} {text : String}
    (h : Expression.MentionsOnce text) {terms : List (ℕ × Float)}
    (hread : Expression.readTerms (columnOf? model) text = .ok terms) :
    (terms.map Prod.fst).Nodup := by
  rcases Expression.readTerms_eq_ok_iff.1 hread with ⟨-, rfl⟩ | ⟨named, hspells, hterms⟩
  · exact List.nodup_nil
  · have hcolumns : List.Forall₂ (fun name i => columnOf? model name = some i)
        (named.map Prod.snd) (terms.map Prod.fst) := by
      rw [List.forall₂_map_left_iff, List.forall₂_map_right_iff]
      exact hterms.imp fun _ _ hterm => hterm.1
    exact nodup_of_columnOf? hcolumns (h named hspells)

theorem addsExactly_of_mergesExactly {model : Model Float} {text : String}
    (h : Expression.MergesExactly text) {terms : List (ℕ × Float)}
    (hread : Expression.readTerms (columnOf? model) text = .ok terms) :
    ∀ i, AddsExactly (LinearForm.coefficientsOf i terms) := by
  intro i
  rcases Expression.readTerms_eq_ok_iff.1 hread with ⟨-, rfl⟩ | ⟨named, hspells, hterms⟩
  · exact addsExactly_nil
  · by_cases hnil : LinearForm.coefficientsOf i terms = []
    · exact hnil ▸ addsExactly_nil
    · obtain ⟨t, ht, rfl⟩ := List.mem_map.1
        (List.mem_eraseDups.1 (LinearForm.mem_handlesOf.2 hnil))
      obtain ⟨n, -, hcolumn, -⟩ := hterms.exists_of_mem_right ht
      rw [coefficientsOf_eq hterms hcolumn]
      exact h named hspells n.2

/-- A text whose coefficients add up exactly has the same form over the unrounded numbers. -/
theorem map_ofTerms_of_mergesExactly {model : Model Float} {text : String}
    (h : Expression.MergesExactly text) {terms : List (ℕ × Float)}
    (hread : Expression.readTerms (columnOf? model) text = .ok terms) :
    (LinearForm.ofTerms terms).map Extended.ofFloat = .ofTerms (exactTerms terms) :=
  LinearForm.map_ofTerms_of_addsExactly (Expression.isFinite_of_mem_readTerms hread)
    (addsExactly_of_mergesExactly h hread)

/-- **When named values satisfy the program of doubles**, if no row is rounded: each variable its
column, and each row what its expression is worth. -/
theorem satisfied_exact_iff {family : Family} {model : Model Float}
    {rows : List (List (ℕ × Float))} {objective : List (ℕ × Float)}
    (h : HasTerms model rows objective)
    (hrows : ∀ row ∈ model.rows, Expression.MergesExactly row.expression) {t : ℚ}
    {value : String → ℚ} :
    (family.assemble Binary64.infinity model rows objective).exact.Satisfied t
        (model.vars.map fun v => value v.name) ↔
      (∀ v ∈ model.vars,
        ((family.columnFor Binary64.infinity v).map Extended.ofFloat).Takes t (value v.name)) ∧
      ∀ row ∈ model.rows, ∃ total, Expression.Worth value row.expression total ∧
        row.sense.holds (.rational total) (Extended.ofFloat row.rhs) (.rational t) = true := by
  have hforms : (rows.map LinearForm.ofTerms).map (·.map Extended.ofFloat) =
      (rows.map exactTerms).map LinearForm.ofTerms := by
    rw [List.map_map, List.map_map]
    refine List.map_congr_left fun terms hterms => ?_
    obtain ⟨row, hrow, hread⟩ := h.rows.exists_of_mem_right hterms
    exact map_ofTerms_of_mergesExactly (hrows row hrow) hread
  have hsame : (family.assemble Binary64.infinity model rows objective).exact.rows =
      (family.assemble Scalar.infinity model.exact (rows.map exactTerms)
        (exactTerms objective)).rows := by
    show (List.zipWith rowOf model.rows (rows.map LinearForm.ofTerms)).map
        (·.map Extended.ofFloat) = List.zipWith rowOf (model.rows.map (·.map Extended.ofFloat))
          ((rows.map exactTerms).map LinearForm.ofTerms)
    rw [List.map_zipWith, ← hforms, List.zipWith_map]
    rfl
  rw [← satisfied_assemble_iff h]
  exact Program.satisfied_congr (columns_exact family model).symm hsame

/-- **What the objective of the program of doubles is worth**, if it is not rounded. -/
theorem objectiveAt_exact {family : Family} {model : Model Float}
    {rows : List (List (ℕ × Float))} {objective : List (ℕ × Float)}
    (h : HasTerms model rows objective)
    (hobjective : Expression.MergesExactly model.objective.expression) (value : String → ℚ) :
    ∃ total, Expression.Worth value model.objective.expression total ∧
      (family.assemble Binary64.infinity model rows objective).exact.objectiveAt
        ((model.vars.map fun v => value v.name).map .rational) = .rational total := by
  have hsame : (family.assemble Binary64.infinity model rows objective).exact.objective =
      (family.assemble Scalar.infinity model.exact (rows.map exactTerms)
        (exactTerms objective)).objective :=
    map_ofTerms_of_mergesExactly hobjective h.objective
  rw [Program.objectiveAt, hsame]
  exact objectiveAt_assemble h value

/-- A text that mentions declared names, each once. -/
def Declared (model : Model Float) (text : String) : Prop :=
  ∃ named, Expression.Spells text named ∧ (named.map Prod.snd).Nodup ∧
    ∀ n ∈ named, n.2 ∈ model.vars.map (·.name)

theorem Declared.mentionsOnce {model : Model Float} {text : String} (h : Declared model text) :
    Expression.MentionsOnce text := by
  obtain ⟨named, hspells, hnodup, -⟩ := h
  intro named' hspells'
  rwa [← hspells.unique hspells']

theorem Declared.exists_readTerms {model : Model Float} {text : String}
    (h : Declared model text) :
    ∃ terms : List (ℕ × Float), Expression.readTerms (columnOf? model) text = .ok terms := by
  obtain ⟨named, hspells, -, hnames⟩ := h
  have hpartner : ∀ n ∈ named, ∃ t : ℕ × Float, columnOf? model n.2 = some t.1 ∧ n.1 = t.2 := by
    intro n hn
    obtain ⟨i, hi⟩ := exists_lastIndex? (hnames n hn)
    exact ⟨(i, n.1), hi, rfl⟩
  obtain ⟨terms, hterms⟩ := List.exists_forall₂ hpartner
  exact ⟨terms, Expression.readTerms_eq_ok_iff.2 (.inr ⟨named, hspells, hterms⟩)⟩

/-- **The program of a model whose expressions mention declared names, each once**: there is one,
and it means what the texts mean. -/
theorem exists_stage_of_declared {family : Family} {model : Model Float}
    (hrows : ∀ row ∈ model.rows, Declared model row.expression)
    (hobjective : Declared model model.objective.expression) :
    ∃ program, family.stage Binary64.infinity model = .ok program ∧
      ∀ value : String → ℚ,
        (∀ t, program.exact.Satisfied t (model.vars.map fun v => value v.name) ↔
          (∀ v ∈ model.vars,
            ((family.columnFor Binary64.infinity v).map Extended.ofFloat).Takes t
              (value v.name)) ∧
          ∀ row ∈ model.rows, ∃ total, Expression.Worth value row.expression total ∧
            row.sense.holds (.rational total) (Extended.ofFloat row.rhs) (.rational t) = true) ∧
        ∃ total, Expression.Worth value model.objective.expression total ∧
          program.exact.objectiveAt ((model.vars.map fun v => value v.name).map .rational) =
            .rational total := by
  obtain ⟨rows, hread⟩ := List.exists_forall₂ fun row hrow => (hrows row hrow).exists_readTerms
  obtain ⟨objective, hobjectiveRead⟩ := hobjective.exists_readTerms
  have hterms : HasTerms model rows objective := ⟨hread, hobjectiveRead⟩
  refine ⟨_, stage_eq_ok_iff.2 ⟨rows, objective, hterms, rfl⟩, fun value => ⟨fun t => ?_, ?_⟩⟩
  · exact satisfied_exact_iff hterms fun row hrow => (hrows row hrow).mentionsOnce.mergesExactly
  · exact objectiveAt_exact hterms hobjective.mentionsOnce.mergesExactly value

end Family

end OptModel
