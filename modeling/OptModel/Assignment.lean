/-!
# Assignments

The values of variables by name. An assignment lists its names in increasing order of their code
points, each once, so that two assignments with the same values are the same list. Giving a value to
a name that has one replaces it.

## Main definitions

* `Assignment` — names with values, in order
* `Assignment.insert`, `Assignment.ofList` — giving values
* `Assignment.value?` — looking a value up
-/

namespace OptModel

/-- Values by variable name, in increasing order of the names. -/
structure Assignment where
  entries : List (String × Float)
  increasing : entries.Pairwise fun a b => a.1 < b.1

namespace Assignment

/-- The assignment without names. -/
def empty : Assignment := ⟨[], .nil⟩

instance : Inhabited Assignment := ⟨empty⟩

/-- Give `name` the value `x` in a list of names in increasing order. -/
def place (name : String) (x : Float) : List (String × Float) → List (String × Float)
  | [] => [(name, x)]
  | (n, y) :: rest =>
    if name < n then (name, x) :: (n, y) :: rest
    else if name = n then (n, x) :: rest
    else (n, y) :: place name x rest

/-- Placing a name adds that name with that value and nothing else. -/
theorem mem_place {name : String} {x : Float} {entries : List (String × Float)}
    {e : String × Float} (h : e ∈ place name x entries) : e = (name, x) ∨ e ∈ entries := by
  induction entries with
  | nil => exact .inl (List.mem_singleton.1 h)
  | cons head rest ih =>
    obtain ⟨n, y⟩ := head
    simp only [place] at h
    split at h
    · exact List.mem_cons.1 h
    · split at h
      · next heq =>
        rcases List.mem_cons.1 h with rfl | h
        · exact .inl (by rw [heq])
        · exact .inr (List.mem_cons_of_mem _ h)
      · rcases List.mem_cons.1 h with rfl | h
        · exact .inr List.mem_cons_self
        · exact (ih h).imp id (List.mem_cons_of_mem _)

/-- Placing keeps the order. -/
theorem increasing_place (name : String) (x : Float) {entries : List (String × Float)}
    (h : entries.Pairwise fun a b => a.1 < b.1) :
    (place name x entries).Pairwise fun a b => a.1 < b.1 := by
  induction entries with
  | nil => simp [place]
  | cons head rest ih =>
    obtain ⟨n, y⟩ := head
    obtain ⟨hhead, hrest⟩ := List.pairwise_cons.1 h
    simp only [place]
    split
    · next hlt =>
      refine List.pairwise_cons.2 ⟨fun e he => ?_, h⟩
      rcases List.mem_cons.1 he with rfl | he
      · exact hlt
      · exact String.lt_trans hlt (hhead e he)
    · split
      · exact List.pairwise_cons.2 ⟨hhead, hrest⟩
      · next hlt hne =>
        refine List.pairwise_cons.2 ⟨fun e he => ?_, ih hrest⟩
        rcases mem_place he with rfl | he
        · exact ((Std.lt_trichotomy name n).resolve_left hlt).resolve_left hne
        · exact hhead e he

/-- `a` with the value `x` for `name`. -/
def insert (a : Assignment) (name : String) (x : Float) : Assignment :=
  ⟨place name x a.entries, increasing_place name x a.increasing⟩

/-- The assignment that gives every name the last of its values. -/
def ofList (values : List (String × Float)) : Assignment :=
  values.foldl (fun a e => a.insert e.1 e.2) empty

/-- The value of `name`. -/
def value? (a : Assignment) (name : String) : Option Float :=
  (a.entries.find? fun e => e.1 == name).map Prod.snd

/-- The names that have values, in order. -/
def names (a : Assignment) : List String := a.entries.map Prod.fst

@[simp] theorem value?_empty (name : String) : empty.value? name = none := rfl

/-- Giving a value to a name changes the value of that name and of no other. -/
@[simp] theorem value?_insert (a : Assignment) (name : String) (x : Float) (other : String) :
    (a.insert name x).value? other = if other = name then some x else a.value? other := by
  obtain ⟨entries, increasing⟩ := a
  simp only [value?, insert]
  clear increasing
  induction entries with
  | nil =>
    by_cases h : other = name
    · simp [place, h]
    · simp [place, h, Ne.symm h]
  | cons e rest ih =>
    obtain ⟨n, y⟩ := e
    simp only [place]
    split
    · by_cases h : other = name
      · simp [h]
      · simp [h, Ne.symm h]
    · split
      · next heq =>
        subst heq
        by_cases h : other = name
        · simp [h]
        · simp [h, Ne.symm h]
      · next hne =>
        by_cases hn : n = other
        · subst hn
          simp [Ne.symm hne]
        · simpa [List.find?_cons, beq_false_of_ne hn] using ih

end Assignment

end OptModel
