import OptModel.Json.Codec

/-!
# Strings read back

A string is written character by character, and read back character by character: what `escaped`
makes of a character is undone by one step of `textBody` (`textBody_escaped`). Controls without a
letter of their own are the one case with something to compute, two hexadecimal digits.

## Main definitions

* `Json.lettered` — the characters that have an escape of one letter

## Main results

* `Json.textBody_escaped` — one character
* `Json.readText_writeText` — a string, whatever comes after it
-/

namespace OptModel.Json

theorem hexValue?_hexDigit : ∀ n < 16, hexValue? (hexDigit n) = some n := by decide

theorem hexUnit_hexDigits {n : Nat} (hn : n < 256) (rest : List Char) :
    hexUnit ('0' :: '0' :: hexDigit (n / 16) :: hexDigit (n % 16) :: rest) = .ok (n, rest) := by
  have hhigh := hexValue?_hexDigit (n / 16) (by omega)
  have hlow := hexValue?_hexDigit (n % 16) (by omega)
  have hzero : hexValue? '0' = some 0 := by decide
  have hvalue : ((0 * 16 + 0) * 16 + n / 16) * 16 + n % 16 = n := by omega
  have hfour : hexFour? '0' '0' (hexDigit (n / 16)) (hexDigit (n % 16)) = some n := by
    simp only [hexFour?, hzero, hhigh, hlow, Option.bind_eq_bind, Option.bind_some, hvalue]
    rfl
  rw [hexUnit, hfour]

/-- A control is read back from its two digits. -/
theorem unicodeEscape_hexDigits {c : Char} (hc : c.toNat < 256) (rest : List Char) :
    unicodeEscape ('0' :: '0' :: hexDigit (c.toNat / 16) :: hexDigit (c.toNat % 16) :: rest) =
      .ok (c, rest) := by
  have hlead : (decide (0xDC00 ≤ c.toNat) && decide (c.toNat ≤ 0xDFFF)) = false := by
    rw [decide_eq_false (by omega), Bool.false_and]
  have hplane : (decide (c.toNat < 0xD800) || decide (0xDBFF < c.toNat)) = true := by
    rw [decide_eq_true (by omega), Bool.true_or]
  rw [unicodeEscape, hexUnit_hexDigits hc]
  dsimp only [bind, Except.bind]
  rw [hlead, hplane, if_neg Bool.false_ne_true, if_pos rfl, Char.ofNat_toNat]

/-- The characters that have an escape of one letter. -/
def lettered : List Char := ['"', '\\', '\x08', '\x0c', '\n', '\r', '\t']

theorem escaped_of_mem_lettered : ∀ c ∈ lettered, ∃ text, escaped c = '\\' :: text ∧
    ∀ tail, escape (text ++ tail) = .ok (c, tail) := by
  simp only [lettered, List.forall_mem_cons]
  exact ⟨⟨_, rfl, fun _ => rfl⟩, ⟨_, rfl, fun _ => rfl⟩, ⟨_, rfl, fun _ => rfl⟩,
    ⟨_, rfl, fun _ => rfl⟩, ⟨_, rfl, fun _ => rfl⟩, ⟨_, rfl, fun _ => rfl⟩,
    ⟨_, rfl, fun _ => rfl⟩, nofun⟩

theorem escaped_of_not_mem_lettered {c : Char} (h : c ∉ lettered) :
    escaped c = if c.toNat < 0x20 then
      ['\\', 'u', '0', '0', hexDigit (c.toNat / 16), hexDigit (c.toNat % 16)] else [c] := by
  simp only [lettered, List.mem_cons, not_or] at h
  obtain ⟨hquote, hbackslash, hb, hf, hn, hr, ht, -⟩ := h
  rw [escaped, if_neg hquote, if_neg hbackslash, if_neg hb, if_neg hf, if_neg hn, if_neg hr,
    if_neg ht]

/-- **One character** is read back by one step. -/
theorem textBody_escaped (c : Char) (n : Nat) (tail : List Char) :
    textBody (n + 1) (escaped c ++ tail) =
      (textBody n tail).map fun (body, rest) => (c :: body, rest) := by
  have hescape {text : List Char} (htext : escape text = .ok (c, tail)) :
      textBody (n + 1) ('\\' :: text) =
        (textBody n tail).map fun (body, rest) => (c :: body, rest) := by
    rw [textBody, if_neg (by decide), if_pos rfl, htext]
    dsimp only [bind, Except.bind]
    cases textBody n tail with
    | error fault => rfl
    | ok read => rfl
  by_cases hlettered : c ∈ lettered
  · obtain ⟨text, hwrite, hread⟩ := escaped_of_mem_lettered c hlettered
    rw [hwrite]
    exact hescape (hread tail)
  · rw [escaped_of_not_mem_lettered hlettered]
    by_cases hcontrol : c.toNat < 0x20
    · rw [if_pos hcontrol]
      exact hescape (unicodeEscape_hexDigits (by omega) tail)
    · -- any other character stands for itself
      have hquote : c ≠ '"' := fun heq => hlettered (heq ▸ by decide)
      have hbackslash : c ≠ '\\' := fun heq => hlettered (heq ▸ by decide)
      rw [if_neg hcontrol, List.singleton_append, textBody, if_neg hquote, if_neg hbackslash,
        if_neg hcontrol]
      cases textBody n tail with
      | error fault => rfl
      | ok read => rfl

theorem textBody_append (s : List Char) {n : Nat} (hn : s.length < n) (rest : List Char) :
    textBody n (s.flatMap escaped ++ '"' :: rest) = .ok (s, rest) := by
  induction s generalizing n with
  | nil =>
    obtain ⟨n, rfl⟩ := Nat.exists_eq_succ_of_ne_zero (Nat.ne_of_gt hn)
    rfl
  | cons c s ih =>
    obtain ⟨n, rfl⟩ := Nat.exists_eq_succ_of_ne_zero (Nat.ne_of_gt (Nat.zero_lt_of_lt hn))
    rw [List.flatMap_cons, List.append_assoc, textBody_escaped,
      ih (Nat.lt_of_succ_lt_succ hn)]
    rfl

/-- Every character takes some space. -/
@[simp] theorem escaped_ne_nil (c : Char) : escaped c ≠ [] := by
  rw [escaped]
  repeat' split
  all_goals exact List.cons_ne_nil _ _

theorem length_le_flatMap_escaped (s : List Char) : s.length ≤ (s.flatMap escaped).length := by
  induction s with
  | nil => exact Nat.zero_le _
  | cons c s ih =>
    have := List.length_pos_iff.2 (escaped_ne_nil c)
    rw [List.flatMap_cons, List.length_append, List.length_cons]
    omega

/-- **A string is read back**, whatever comes after it. -/
theorem readText_writeText (s : String) (rest : List Char) :
    readText (writeText s ++ rest) = .ok (s, rest) := by
  have hlength := length_le_flatMap_escaped s.toList
  have htext : writeText s ++ rest = '"' :: (s.toList.flatMap escaped ++ '"' :: rest) := by
    rw [writeText, List.append_assoc]
    rfl
  rw [htext, readText, List.drop_succ_cons, List.drop_zero, textBody_append]
  · show Except.ok (String.ofList s.toList, rest) = _
    rw [String.ofList_toList]
  · rw [List.length_cons, List.length_append]
    omega

end OptModel.Json
