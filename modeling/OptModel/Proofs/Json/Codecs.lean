import OptModel.Proofs.Json.Numbers
import OptModel.Proofs.Json.Texts

/-!
# Codecs that restore values

A codec restores a value when reading what it has written gives the value back, with whatever may
follow it left in place. Each codec of a scalar restores the values that it can write at all, and a
codec made from others restores what is made from values that these restore.

What is written starts with a character by which a value is told from a blank, from `null` and from
a closing bracket, so no reader mistakes one for another.

## Main definitions

* `Json.opens` — the characters that a written value starts with
* `Json.Codec.Restores` — reading what has been written gives the value back
* `Json.separated` — the text of items of which the first may follow others

## Main results

* `Json.restores_text`, `restores_number`, `restores_word32`, `restores_word64`, `restores_count`,
  `restores_word` — scalars
* `Json.restores_nullable`, `Json.restores_list` — containers
-/

namespace OptModel

/-- Every member of a vocabulary is the one that its word stands for. -/
class Vocabulary.Lawful (α : Type) [Vocabulary α] : Prop where
  ofWord?_word : ∀ a : α, Vocabulary.ofWord? α (Vocabulary.word a) = some a

instance : Vocabulary.Lawful VariableKind := ⟨by rintro (_ | _ | _) <;> decide⟩

instance : Vocabulary.Lawful RowSense := ⟨by rintro (_ | _ | _) <;> decide⟩

instance : Vocabulary.Lawful Direction := ⟨by rintro (_ | _) <;> decide⟩

instance : Vocabulary.Lawful ProblemType := ⟨by rintro (_ | _ | _ | _ | _ | _) <;> decide⟩

instance : Vocabulary.Lawful Backend := ⟨by rintro (_ | _ | _ | _) <;> decide⟩

instance : Vocabulary.Lawful LogLevel := ⟨by rintro (_ | _ | _ | _ | _) <;> decide⟩

instance : Vocabulary.Lawful SolveStatus := ⟨by rintro (_ | _ | _ | _ | _) <;> decide⟩

namespace Json

variable {α β : Type}

/-! ### The first character of a value -/

/-- A character that a written value starts with, `null` apart. -/
def opens (c : Char) : Bool := c = '"' || c = '[' || c = '{' || c = '-' || c.isDigit

variable {c : Char} {text rest : List Char}

theorem opens_ne {c d : Char} (h : opens c) (hd : opens d = false) : c ≠ d := by
  rintro rfl
  exact absurd h (by rw [hd]; exact Bool.false_ne_true)

theorem isSpace_of_opens (h : opens c) : isSpace c = false := by
  have hspace := opens_ne h (d := ' ') (by decide)
  have htab := opens_ne h (d := '\t') (by decide)
  have hnewline := opens_ne h (d := '\n') (by decide)
  have hreturn := opens_ne h (d := '\r') (by decide)
  rw [isSpace, decide_eq_false hspace, decide_eq_false htab, decide_eq_false hnewline,
    decide_eq_false hreturn]
  rfl

theorem peek_cons (hc : isSpace c = false) : peek (c :: text) = .ok (some c, c :: text) := by
  rw [peek, List.dropWhile_cons, hc]
  rfl

@[simp] theorem advance_cons (c : Char) (text : List Char) :
    advance (c :: text) = .ok ((), text) := rfl

theorem peekValue_cons (hc : isSpace c = false) : peekValue (c :: text) = .ok (c, c :: text) := by
  rw [peekValue, Reader.bind_of_ok (peek_cons hc)]
  rfl

/-- **A codec restores a value**: it is read back from what is written, whatever follows. -/
structure Codec.Restores (codec : Codec α) (a : α) : Prop where
  opens : ∃ c more, codec.write a = c :: more ∧ opens c
  read : ∀ {rest}, Delimited rest → codec.read (codec.write a ++ rest) = .ok (a, rest)

/-- A text is decoded as what is read from all of it. -/
theorem Codec.decode_encode_of_read {codec : Codec α} {a b : α}
    (h : codec.read (codec.write a) = .ok (b, [])) : codec.decode (codec.encode a) = .ok b := by
  rw [decode, encode, readWhole_of_ok (by rwa [String.toList_ofList])]
  rfl

/-- A value that a codec restores is decoded from its text. -/
theorem Codec.Restores.decode_encode {codec : Codec α} {a : α} (h : codec.Restores a) :
    codec.decode (codec.encode a) = .ok a := by
  have hread := h.read delimited_nil
  rw [List.append_nil] at hread
  exact decode_encode_of_read hread

/-! ### Scalars -/

theorem restores_text (s : String) : Json.text.Restores s where
  opens := ⟨'"', _, rfl, rfl⟩
  read {rest} _ := by
    have hread : Json.text.read (writeText s ++ rest) = readText (writeText s ++ rest) :=
      Reader.bind_of_ok (peekValue_cons (by decide)) _
    exact hread.trans (readText_writeText s rest)

/-- A number is read when its first character says that it is one. -/
theorem readNumberAs_of_shape {expected : String} {text : List Char} {c : Char}
    {more : List Char} (hcons : text = c :: more) (hc : (c = '-' || c.isDigit) = true) :
    readNumberAs expected text = readNumber text := by
  subst hcons
  have hspace : isSpace c = false := isSpace_of_opens (by
    rw [opens, Bool.or_assoc, hc, Bool.or_true])
  rw [readNumberAs, Reader.bind_of_ok (peekValue_cons hspace), if_pos hc]

theorem restores_number {x : Float} (hx : x.isFinite) : number.Restores x := by
  obtain ⟨c, more, hcons, hc⟩ := write_shape x
  have hwrite : number.write x = Decimal.record.write x := if_pos hx
  refine ⟨⟨c, more, hwrite.trans hcons, ?_⟩, fun {rest} hrest => ?_⟩
  · rw [opens, Bool.or_assoc, hc, Bool.or_true]
  · rw [hwrite]
    refine Reader.map_of_ok (a := Number.floating x) ?_ _
    rw [readNumberAs_of_shape (by rw [hcons, List.cons_append]) hc]
    exact readNumber_write hx hrest

theorem digitsOf_shape (n : Nat) : ∃ c more, Decimal.digitsOf n = c :: more ∧ c.isDigit := by
  obtain ⟨c, more, hcons⟩ := List.exists_cons_of_ne_nil (Decimal.digitsOf_ne_nil n)
  exact ⟨c, more, hcons, Decimal.isDigit_of_mem_digitsOf (hcons ▸ List.mem_cons_self)⟩

theorem opens_digitsOf (n : Nat) : ∃ c more, Decimal.digitsOf n = c :: more ∧ opens c := by
  obtain ⟨c, more, hcons, hc⟩ := digitsOf_shape n
  exact ⟨c, more, hcons, by rw [opens, hc, Bool.or_true]⟩

theorem readBounded_digitsOf {expected : String} {limit n : Nat} (hn : n < limit)
    (hlimit : limit ≤ UInt64.size) (hrest : Delimited rest) :
    readBounded expected limit (Decimal.digitsOf n ++ rest) = .ok (n, rest) := by
  obtain ⟨c, more, hcons, hc⟩ := digitsOf_shape n
  have hnumber : readNumberAs expected (Decimal.digitsOf n ++ rest) = .ok (.natural n, rest) := by
    rw [readNumberAs_of_shape (by rw [hcons, List.cons_append]) (by rw [hc, Bool.or_true])]
    exact readNumber_digitsOf (hn.trans_le hlimit) hrest
  rw [readBounded, Reader.bind_of_ok hnumber]
  simp only [if_pos hn]
  rfl

theorem restores_word32 (n : UInt32) : word32.Restores n where
  opens := opens_digitsOf n.toNat
  read hrest := by
    refine (Reader.map_of_ok (readBounded_digitsOf n.toNat_lt_size (by decide) hrest) _).trans ?_
    rw [Nat.toUInt32, UInt32.ofNat_toNat]

theorem restores_word64 (n : UInt64) : word64.Restores n where
  opens := opens_digitsOf n.toNat
  read hrest := by
    refine (Reader.map_of_ok (readBounded_digitsOf n.toNat_lt_size le_rfl hrest) _).trans ?_
    rw [Nat.toUInt64, UInt64.ofNat_toNat]

theorem restores_count (n : UInt64) : count.Restores n where
  opens := opens_digitsOf n.toNat
  read hrest := by
    refine (Reader.map_of_ok (readBounded_digitsOf n.toNat_lt_size le_rfl hrest) _).trans ?_
    rw [Nat.toUInt64, UInt64.ofNat_toNat]

theorem restores_word [Vocabulary α] [Vocabulary.Lawful α] (a : α) : (word α).Restores a where
  opens := ⟨'"', _, rfl, rfl⟩
  read {rest} _ := by
    have hread : (word α).read (writeText (Vocabulary.word a) ++ rest) =
        (readText >>= member) (writeText (Vocabulary.word a) ++ rest) :=
      Reader.bind_of_ok (peekValue_cons (by decide)) _
    refine hread.trans ?_
    rw [Reader.bind_of_ok (readText_writeText _ rest), member, Vocabulary.Lawful.ofWord?_word]
    rfl

/-- A value that starts like one is read as it is where `null` is allowed too. -/
theorem read_nullable_of_opens (item : Codec α) (hc : opens c) :
    (nullable item).read (c :: text) = (some <$> item.read) (c :: text) := by
  have hletter : c ≠ 'n' := opens_ne hc (by decide)
  show (peek >>= _) _ = _
  rw [Reader.bind_of_ok (peek_cons (isSpace_of_opens hc))]
  simp [hletter]

/-- What is absent is read from `null`. -/
theorem read_nullable_null (item : Codec α) (rest : List Char) :
    (nullable item).read ('n' :: 'u' :: 'l' :: 'l' :: rest) = .ok (none, rest) := by
  show (peek >>= _) _ = _
  rw [Reader.bind_of_ok (peek_cons (by decide))]
  rfl

theorem restores_nullable {item : Codec α} {a : α} (h : item.Restores a) :
    (nullable item).Restores (some a) := by
  obtain ⟨c, more, hcons, hc⟩ := h.opens
  refine ⟨⟨c, more, hcons, hc⟩, fun {rest} hrest => ?_⟩
  have hread := Reader.map_of_ok (h.read hrest) some
  show (nullable item).read (item.write a ++ rest) = _
  rw [hcons, List.cons_append] at hread ⊢
  rwa [read_nullable_of_opens item hc]

/-! ### Items with commas between them -/

/-- The text of items of which the first one may follow others. -/
def separated : Bool → List (List Char) → List Char
  | _, [] => []
  | first, item :: items => (if first then item else ',' :: item) ++ separated false items

theorem commaSeparated_eq (items : List (List Char)) :
    commaSeparated items = separated true items := by
  have hrest : ∀ items : List (List Char), separated false items = items.flatMap (',' :: ·) := by
    intro items
    induction items with
    | nil => rfl
    | cons item items ih => rw [separated, ih]; rfl
  cases items with
  | nil => rfl
  | cons item items =>
    rw [separated, hrest, if_pos rfl, commaSeparated]
    induction items generalizing item with
    | nil => simp [List.intercalate]
    | cons next items ih => rw [List.intercalate_cons_cons, ih]; simp

/-- What follows an item is a comma or the closing bracket. -/
theorem delimited_separated (items : List (List Char)) (h : Delimited rest) :
    Delimited (separated false items ++ rest) := by
  cases items with
  | nil => exact h
  | cons item items => exact delimited_comma _

/-- Items that are not empty are no more than the characters of their text. -/
theorem length_le_separated {items : List (List Char)} (h : ∀ item ∈ items, item ≠ [])
    (first : Bool) : items.length ≤ (separated first items).length := by
  induction items generalizing first with
  | nil => exact Nat.zero_le _
  | cons item items ih =>
    obtain ⟨hitem, hitems⟩ := List.forall_mem_cons.1 h
    have hlength := List.length_pos_iff.2 hitem
    have hrest := ih hitems false
    rw [separated, List.length_append, List.length_cons]
    cases first with
    | true => rw [if_pos rfl]; omega
    | false => rw [if_neg Bool.false_ne_true, List.length_cons]; omega

theorem nextItem_close (first : Bool) (rest : List Char) :
    nextItem first (']' :: rest) = .ok (false, ']' :: rest) := by
  rw [nextItem, Reader.bind_of_ok (peek_cons (by decide))]
  rfl

/-- The first item of a list is due right away. -/
theorem nextItem_first (hc : opens c) (text : List Char) :
    nextItem true (c :: text) = .ok (true, c :: text) := by
  have hbracket : c ≠ ']' := opens_ne hc (by decide)
  rw [nextItem, Reader.bind_of_ok (peek_cons (isSpace_of_opens hc))]
  simp only [if_true]
  rfl

/-- Another item is due behind a comma. -/
theorem nextItem_comma (hc : opens c) (text : List Char) :
    nextItem false (',' :: c :: text) = .ok (true, c :: text) := by
  have hbracket : c ≠ ']' := opens_ne hc (by decide)
  rw [nextItem, Reader.bind_of_ok (peek_cons (by decide))]
  show (advance >>= fun _ => peek >>= _) (',' :: c :: text) = _
  rw [Reader.bind_of_ok (advance_cons ',' _),
    Reader.bind_of_ok (peek_cons (isSpace_of_opens hc))]
  simp only
  rfl

theorem nextItem_separated (hc : opens c) (first : Bool) (more rest : List Char)
    (items : List (List Char)) :
    nextItem first (separated first ((c :: more) :: items) ++ rest) =
      .ok (true, c :: more ++ (separated false items ++ rest)) := by
  rw [separated, List.append_assoc]
  cases first with
  | true => exact nextItem_first hc _
  | false => exact nextItem_comma hc _

/-- The first of some items is read, and then the others. -/
theorem readItems_cons {item : Codec α} {a : α}
    (ha : ∃ c more, item.write a = c :: more ∧ opens c) (n : Nat) (first : Bool) (items : List α)
    (rest : List Char) :
    readItems item.read (n + 1) first
        (separated first ((a :: items).map item.write) ++ ']' :: rest) =
      (item.read >>= fun a => readItems item.read n false >>= fun others => pure (a :: others))
        (item.write a ++ (separated false (items.map item.write) ++ ']' :: rest)) := by
  obtain ⟨c, more, hcons, hc⟩ := ha
  have hnext : nextItem first (separated first ((a :: items).map item.write) ++ ']' :: rest) =
      .ok (true, item.write a ++ (separated false (items.map item.write) ++ ']' :: rest)) := by
    rw [List.map_cons, hcons]
    exact nextItem_separated hc first more _ _
  rw [readItems, Reader.bind_of_ok hnext, if_pos rfl]

/-- The items of a list are read one after the other. -/
theorem readItems_separated {item : Codec α} {items : List α}
    (h : ∀ a ∈ items, item.Restores a) {n : Nat} (hn : items.length < n) (first : Bool)
    (rest : List Char) :
    readItems item.read n first (separated first (items.map item.write) ++ ']' :: rest) =
      .ok (items, rest) := by
  obtain ⟨n, rfl⟩ := Nat.exists_eq_succ_of_ne_zero (Nat.ne_of_gt (Nat.zero_lt_of_lt hn))
  induction items generalizing n first with
  | nil =>
    rw [readItems]
    exact Reader.bind_of_ok (nextItem_close first rest) _
  | cons a items ih =>
    obtain ⟨ha, hitems⟩ := List.forall_mem_cons.1 h
    obtain ⟨n, rfl⟩ := Nat.exists_eq_succ_of_ne_zero
      (Nat.ne_of_gt (Nat.zero_lt_of_lt (Nat.lt_of_succ_lt_succ hn)))
    have hitem := ha.read (delimited_separated (items.map item.write) (delimited_bracket rest))
    have hrest := ih hitems false n (Nat.lt_of_succ_lt_succ hn)
    rw [readItems_cons ha.opens, Reader.bind_of_ok hitem, Reader.bind_of_ok hrest]
    rfl

theorem write_list (item : Codec α) (items : List α) :
    (list item).write items = '[' :: (separated true (items.map item.write) ++ [']']) := by
  rw [← commaSeparated_eq]
  rfl

/-- A list is as long as its text at most, so there are steps enough for its items. -/
theorem read_list {item : Codec α} {items : List α}
    (h : ∀ a ∈ items, ∃ c more, item.write a = c :: more ∧ opens c) (rest : List Char) :
    ∃ n, items.length < n ∧ (list item).read ((list item).write items ++ rest) =
      readItems item.read n true (separated true (items.map item.write) ++ ']' :: rest) := by
  have hne : ∀ text ∈ items.map item.write, text ≠ [] := by
    rintro _ htext
    obtain ⟨a, ha, rfl⟩ := List.mem_map.1 htext
    obtain ⟨c, more, hcons, -⟩ := h a ha
    rw [hcons]
    exact List.cons_ne_nil _ _
  have hlength := length_le_separated hne true
  rw [List.length_map] at hlength
  refine ⟨(separated true (items.map item.write) ++ ']' :: rest).length + 1, ?_, ?_⟩
  · rw [List.length_append]
    omega
  · rw [write_list, List.cons_append, List.append_assoc]
    show (peekValue >>= _) _ = _
    rw [Reader.bind_of_ok (peekValue_cons (by decide)), if_pos rfl]
    rfl

/-- **A list of values that are restored is restored.** -/
theorem restores_list {item : Codec α} {items : List α} (h : ∀ a ∈ items, item.Restores a) :
    (list item).Restores items where
  opens := ⟨'[', _, write_list item items, rfl⟩
  read {rest} _ := by
    obtain ⟨n, hn, hread⟩ := read_list (fun a ha => (h a ha).opens) rest
    rw [hread]
    exact readItems_separated h hn true rest

end Json

end OptModel
