import OptModel.Routing.Compile
import OptModel.Proofs.Expression.Written

/-!
# The names of arcs and places

A compiled plan speaks of its arcs and places by name, and everything that is said about it rests on
two facts: different arcs have different names, and an expression can mention them all.

## Main results

* `Plan.arcName_inj`, `Plan.orderName_inj`, `Plan.arcName_ne_orderName` — the names are different
* `Plan.isMentionable_arcName`, `Plan.isMentionable_orderName` — they can be mentioned
-/

namespace OptModel.Plan

theorem toList_arcName (i j : ℕ) :
    (arcName i j).toList = 'x' :: '_' :: (Nat.toDigits 10 i ++ '_' :: Nat.toDigits 10 j) := by
  have hname : arcName i j = "x_" ++ Nat.repr i ++ "_" ++ Nat.repr j := rfl
  rw [hname]
  simp [String.toList_append]

theorem toList_orderName (i : ℕ) : (orderName i).toList = 'u' :: '_' :: Nat.toDigits 10 i := by
  have hname : orderName i = "u_" ++ Nat.repr i := rfl
  rw [hname]
  simp [String.toList_append]

/-- Digits are no underscore. -/
theorem underscore_notMem_toDigits (n : ℕ) : '_' ∉ Nat.toDigits 10 n := by
  intro h
  exact absurd (Nat.isDigit_of_mem_toDigits (by norm_num) (by norm_num) h) (by decide)

theorem toDigits_inj {m n : ℕ} : Nat.toDigits 10 m = Nat.toDigits 10 n ↔ m = n := by
  constructor
  · intro h
    have hm := @Nat.ofDigitChars_ten_toDigits m
    rw [h, Nat.ofDigitChars_ten_toDigits] at hm
    exact hm.symm
  · rintro rfl
    rfl

/-- **Different arcs have different names.** -/
theorem arcName_inj {i j k l : ℕ} : arcName i j = arcName k l ↔ i = k ∧ j = l := by
  constructor
  · intro h
    have hlist := congrArg String.toList h
    rw [toList_arcName, toList_arcName, List.cons.injEq, List.cons.injEq] at hlist
    have hpieces := congrArg (Text.pieces '_') hlist.2.2
    rw [Text.pieces_append_cons (underscore_notMem_toDigits i),
      Text.pieces_append_cons (underscore_notMem_toDigits k),
      Text.pieces_of_not_mem (underscore_notMem_toDigits j),
      Text.pieces_of_not_mem (underscore_notMem_toDigits l), List.cons.injEq,
      List.cons.injEq] at hpieces
    exact ⟨toDigits_inj.1 hpieces.1, toDigits_inj.1 hpieces.2.1⟩
  · rintro ⟨rfl, rfl⟩
    rfl

theorem orderName_inj {i j : ℕ} : orderName i = orderName j ↔ i = j := by
  constructor
  · intro h
    have hlist := congrArg String.toList h
    rw [toList_orderName, toList_orderName, List.cons.injEq, List.cons.injEq] at hlist
    exact toDigits_inj.1 hlist.2.2
  · rintro rfl
    rfl

theorem arcName_ne_orderName (i j k : ℕ) : arcName i j ≠ orderName k := by
  intro h
  have hlist := congrArg String.toList h
  rw [toList_arcName, toList_orderName, List.cons.injEq] at hlist
  exact absurd hlist.1 (by decide)

/-! ### Mentioning -/

theorem plain_of_mem_toDigits {n : ℕ} {c : Char} (h : c ∈ Nat.toDigits 10 n) :
    Text.isBlank c = false ∧ c ≠ '+' ∧ c ≠ '*' := by
  have hdigit := Nat.isDigit_of_mem_toDigits (by norm_num) (by norm_num) h
  exact ⟨Expression.isBlank_of_isDigit hdigit, Expression.not_sign_of_isDigit hdigit⟩

theorem isMentionable_arcName (i j : ℕ) : Expression.IsMentionable (arcName i j) := by
  refine .of_forall (by simp [toList_arcName]) fun c hc => ?_
  rw [toList_arcName, List.mem_cons, List.mem_cons, List.mem_append, List.mem_cons] at hc
  rcases hc with rfl | rfl | hc | rfl | hc
  · decide
  · decide
  · exact plain_of_mem_toDigits hc
  · decide
  · exact plain_of_mem_toDigits hc

theorem isMentionable_orderName (i : ℕ) : Expression.IsMentionable (orderName i) := by
  refine .of_forall (by simp [toList_orderName]) fun c hc => ?_
  rw [toList_orderName, List.mem_cons, List.mem_cons] at hc
  rcases hc with rfl | rfl | hc
  · decide
  · decide
  · exact plain_of_mem_toDigits hc

end OptModel.Plan
