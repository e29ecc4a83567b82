import OptModel.Text.Blank
import Mathlib.Data.List.DropRight

/-!
# Trimming and cutting

What trimming does to blanks at the ends, and what cutting does to a text that was put together
around a separator. A text is cut where its separators are and nowhere else, so cutting a text that
was joined gives the parts back; if they were joined with blanks around the separator, it gives them
back up to trimming.

## Main results

* `trim_cons_blank`, `trim_append_blank`, `trim_eq_self`, `trim_trim` — trimming
* `pieces_append_cons`, `pieces_pair` — cutting at a separator
* `separator_cases` — where separators can be
* `map_trim_pieces_spaced` — parts that were joined with `" + "`
-/

namespace OptModel.Text

variable {separator : Char}

/-! ### Trimming -/

theorem trim_cons_blank {c : Char} (h : isBlank c) (text : List Char) :
    trim (c :: text) = trim text := by
  have hstart : trimStart (c :: text) = trimStart text := List.dropWhile_cons_of_pos h
  rw [trim, hstart, trim]

theorem trim_append_blank {c : Char} (h : isBlank c) (text : List Char) :
    trim (text ++ [c]) = trim text := by
  have hstart : trimStart (text ++ [c]) =
      if (trimStart text).isEmpty then [] else trimStart text ++ [c] := by
    rw [trimStart, List.dropWhile_append]
    simp [trimStart, h]
  rw [trim, hstart]
  split
  · next hempty =>
    rw [List.isEmpty_iff] at hempty
    rw [trim, hempty]
  · have hlast : trimStart (c :: (trimStart text).reverse) = trimStart (trimStart text).reverse :=
      List.dropWhile_cons_of_pos h
    rw [List.reverse_append, List.reverse_singleton, List.singleton_append, hlast, trim]

/-- Without blanks there is nothing to trim. -/
theorem trim_eq_self {text : List Char} (h : ∀ c ∈ text, isBlank c = false) : trim text = text := by
  have hstart : ∀ {t : List Char}, (∀ c ∈ t, isBlank c = false) → trimStart t = t := by
    intro t ht
    cases t with
    | nil => rfl
    | cons c rest =>
      have hc := ht c List.mem_cons_self
      rw [trimStart, List.dropWhile_cons_of_neg (by simp [hc])]
  rw [trim, hstart h, hstart (by simpa using h), List.reverse_reverse]

/-- `text` without the blanks at its end. -/
def trimEnd (text : List Char) : List Char := (trimStart text.reverse).reverse

theorem trimStart_append_cons {c : Char} (h : isBlank c = false) (before after : List Char) :
    trimStart (before ++ c :: after) = trimStart before ++ c :: after := by
  rw [trimStart, List.dropWhile_append]
  split
  · next hempty =>
    rw [List.isEmpty_iff] at hempty
    rw [trimStart, hempty, List.dropWhile_cons_of_neg (by simp [h]), List.nil_append]
  · rw [trimStart]

/-- Around a character that is not blank the two ends are trimmed on their own. -/
theorem trim_append_cons {c : Char} (h : isBlank c = false) (before after : List Char) :
    trim (before ++ c :: after) = trimStart before ++ c :: trimEnd after := by
  have hreverse : (trimStart before ++ c :: after).reverse =
      after.reverse ++ c :: (trimStart before).reverse := by simp
  rw [trim, trimStart_append_cons h, hreverse, trimStart_append_cons h, trimEnd]
  simp

theorem trimStart_of_trim {text : List Char} (h : trim text = text) : trimStart text = text := by
  have hsuffix : trimStart text <:+ text := List.dropWhile_suffix _
  refine hsuffix.eq_of_length_le ?_
  have hlength : (trim text).length ≤ (trimStart text).length := by
    have hle := (List.dropWhile_suffix isBlank (l := (trimStart text).reverse)).length_le
    rwa [List.length_reverse, ← List.length_reverse] at hle
  rwa [h] at hlength

theorem trimEnd_of_trim {text : List Char} (h : trim text = text) : trimEnd text = text := calc
  trimEnd text = trimEnd (trimStart text) := by rw [trimStart_of_trim h]
  _ = trim text := rfl
  _ = text := h

theorem trimEnd_trimEnd (text : List Char) : trimEnd (trimEnd text) = trimEnd text := by
  rw [trimEnd, trimEnd, List.reverse_reverse, trimStart, trimStart, List.dropWhile_idempotent]

/-- **What is trimmed has nothing left to trim.** -/
theorem trim_trim (text : List Char) : trim (trim text) = trim text := by
  cases hstart : trimStart text with
  | nil =>
    have hnil : trim text = [] := by
      rw [trim, hstart]
      rfl
    rw [hnil]
    rfl
  | cons c rest =>
    have hdrop : text.dropWhile isBlank = c :: rest := hstart
    have hc : isBlank c = false := by
      have hhead := List.head_dropWhile_not isBlank (hdrop ▸ List.cons_ne_nil c rest)
      simpa only [hdrop, List.head_cons] using hhead
    have hcons (after : List Char) : trim (c :: after) = c :: trimEnd after :=
      trim_append_cons hc [] after
    have htrim : trim text = c :: trimEnd rest := by
      have hself : trimStart (c :: rest) = c :: rest :=
        List.dropWhile_cons_of_neg (by simp [hc])
      rw [← hcons, trim, trim, hstart, hself]
    rw [htrim, hcons, trimEnd_trimEnd]

/-- Trimming leaves characters of the text. -/
theorem mem_of_mem_trim {c : Char} {text : List Char} (h : c ∈ trim text) : c ∈ text := by
  have hstart {t : List Char} (ht : c ∈ trimStart t) : c ∈ t :=
    (List.dropWhile_sublist isBlank).subset ht
  exact hstart (List.mem_reverse.1 (hstart (List.mem_reverse.1 h)))

/-! ### Cutting -/

theorem pieces_cons_self (rest : List Char) :
    pieces separator (separator :: rest) = [] :: pieces separator rest := by
  rw [pieces, if_pos rfl]

theorem pieces_cons_of_ne {c : Char} (h : c ≠ separator) (rest : List Char) :
    ∃ piece others, pieces separator rest = piece :: others ∧
      pieces separator (c :: rest) = (c :: piece) :: others := by
  cases hrest : pieces separator rest with
  | nil => exact absurd hrest (pieces_ne_nil separator rest)
  | cons piece others => exact ⟨piece, others, rfl, by rw [pieces, if_neg h, hrest]⟩

/-- **A text is cut at its first separator.** -/
theorem pieces_append_cons {first : List Char} (h : separator ∉ first) (rest : List Char) :
    pieces separator (first ++ separator :: rest) = first :: pieces separator rest := by
  induction first with
  | nil => exact pieces_cons_self rest
  | cons c first ih =>
    have hc : c ≠ separator := fun heq => h (heq ▸ List.mem_cons_self)
    have ih := ih fun hmem => h (List.mem_cons_of_mem c hmem)
    obtain ⟨piece, others, hpieces, hcons⟩ :=
      pieces_cons_of_ne hc (first ++ separator :: rest)
    rw [hpieces, List.cons.injEq] at ih
    obtain ⟨rfl, rfl⟩ := ih
    exact hcons

theorem pieces_of_not_mem {text : List Char} (h : separator ∉ text) :
    pieces separator text = [text] := by
  induction text with
  | nil => rfl
  | cons c rest ih =>
    have hc : c ≠ separator := fun heq => h (heq ▸ List.mem_cons_self)
    have ih := ih fun hmem => h (List.mem_cons_of_mem c hmem)
    obtain ⟨piece, others, hpieces, hcons⟩ := pieces_cons_of_ne hc rest
    rw [hpieces, List.cons.injEq] at ih
    obtain ⟨rfl, rfl⟩ := ih
    exact hcons

/-- Two pieces stand around the only separator. -/
theorem pieces_pair {left right : List Char} (hleft : separator ∉ left)
    (hright : separator ∉ right) :
    pieces separator (left ++ separator :: right) = [left, right] := by
  rw [pieces_append_cons hleft, pieces_of_not_mem hright]

/-- A text has no separator, or one between two parts, or several. -/
theorem separator_cases (separator : Char) (text : List Char) :
    separator ∉ text ∨
      (∃ left right, text = left ++ separator :: right ∧ separator ∉ left ∧ separator ∉ right) ∨
      2 ≤ text.count separator := by
  by_cases hmem : separator ∈ text
  · obtain ⟨left, right, rfl, hleft⟩ := List.eq_append_cons_of_mem hmem
    by_cases hright : separator ∈ right
    · have := List.count_pos_iff.2 hright
      refine .inr (.inr ?_)
      rw [List.count_append, List.count_cons_self]
      omega
    · exact .inr (.inl ⟨left, right, rfl, hleft, hright⟩)
  · exact .inl hmem

/-! ### Texts joined with blanks around the separator -/

theorem map_trim_pieces_cons_blank {c : Char} (h : isBlank c) (hc : c ≠ separator)
    (text : List Char) :
    (pieces separator (c :: text)).map trim = (pieces separator text).map trim := by
  obtain ⟨piece, others, hpieces, hcons⟩ := pieces_cons_of_ne hc text
  rw [hcons, hpieces, List.map_cons, List.map_cons, trim_cons_blank h]

/-- **Parts joined with a plus between spaces** are cut apart again, up to trimming. -/
theorem map_trim_pieces_spaced {part : List Char} {parts : List (List Char)}
    (h : ∀ p ∈ part :: parts, '+' ∉ p) :
    (pieces '+' ([' ', '+', ' '].intercalate (part :: parts))).map trim =
      (part :: parts).map trim := by
  induction parts generalizing part with
  | nil =>
    rw [List.intercalate_singleton, pieces_of_not_mem (h part List.mem_cons_self)]
  | cons next parts ih =>
    have ih := ih fun p hp => h p (List.mem_cons_of_mem part hp)
    have hpart : '+' ∉ part ++ [' '] := by
      have := h part List.mem_cons_self
      simp [this]
    have hjoin : [' ', '+', ' '].intercalate (part :: next :: parts) =
        (part ++ [' ']) ++ '+' :: (' ' :: [' ', '+', ' '].intercalate (next :: parts)) := by
      rw [List.intercalate_cons_cons]
      simp
    rw [hjoin, pieces_append_cons hpart, List.map_cons, trim_append_blank (by decide),
      map_trim_pieces_cons_blank (by decide) (by decide), ih]
    rfl

end OptModel.Text
