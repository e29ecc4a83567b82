/-!
# Blank characters

Texts are handled as lists of characters. A character is *blank* when it has the Unicode property
`White_Space`; trimming takes blanks off both ends and leaves those inside alone.

## Main definitions

* `Text.isBlank` — the characters of property `White_Space`
* `Text.trim` — a text without the blanks at its two ends
* `Text.pieces` — a text cut at every occurrence of a separator
-/

namespace OptModel.Text

/-- The characters with the Unicode property `White_Space`: the five controls from tab to carriage
return, the space, next line, and the spaces and separators outside ASCII. -/
def isBlank (c : Char) : Bool :=
  let n := c.toNat
  (0x09 ≤ n && n ≤ 0x0D) || n == 0x20 || n == 0x85 || n == 0xA0 || n == 0x1680 ||
    (0x2000 ≤ n && n ≤ 0x200A) || n == 0x2028 || n == 0x2029 || n == 0x202F || n == 0x205F ||
    n == 0x3000

/-- `text` without its leading blanks. -/
def trimStart (text : List Char) : List Char := text.dropWhile isBlank

/-- `text` without the blanks at its two ends. -/
def trim (text : List Char) : List Char := (trimStart (trimStart text).reverse).reverse

/-- Whether `text` has no character but blanks. -/
def allBlank (text : List Char) : Bool := text.all isBlank

/-- `text` cut at every `separator`. There is one piece more than there are separators, so the
empty text is one empty piece. -/
def pieces (separator : Char) : List Char → List (List Char)
  | [] => [[]]
  | c :: rest =>
    if c = separator then
      [] :: pieces separator rest
    else
      match pieces separator rest with
      | [] => [[c]]
      | piece :: others => (c :: piece) :: others

/-- Cutting leaves at least one piece. -/
@[simp] theorem pieces_ne_nil (separator : Char) (text : List Char) :
    pieces separator text ≠ [] := by
  cases text with
  | nil => simp [pieces]
  | cons c rest =>
    simp only [pieces]
    split
    · simp
    · split <;> simp

/-- Cutting leaves one piece more than there are separators. -/
@[simp] theorem length_pieces (separator : Char) (text : List Char) :
    (pieces separator text).length = text.count separator + 1 := by
  induction text with
  | nil => rfl
  | cons c rest ih =>
    simp only [pieces]
    split
    · next h => simp [h, ih]
    · next h =>
      split
      · next hnil => exact absurd hnil (pieces_ne_nil separator rest)
      · next piece others hcons =>
        rw [hcons] at ih
        simpa [List.count_cons, h] using ih

/-- No piece holds the separator. -/
theorem not_mem_of_mem_pieces {separator : Char} {text piece : List Char}
    (h : piece ∈ pieces separator text) : separator ∉ piece := by
  induction text generalizing piece with
  | nil => simp_all [pieces]
  | cons c rest ih =>
    simp only [pieces] at h
    split at h
    · rcases List.mem_cons.1 h with rfl | h
      · exact List.not_mem_nil
      · exact ih h
    · next hc =>
      split at h
      · next hnil => exact absurd hnil (pieces_ne_nil separator rest)
      · next first others hcons =>
        rcases List.mem_cons.1 h with rfl | h
        · have hfirst := ih (hcons ▸ List.mem_cons_self)
          intro hmem
          rcases List.mem_cons.1 hmem with heq | hmem
          · exact hc heq.symm
          · exact hfirst hmem
        · exact ih (hcons ▸ List.mem_cons_of_mem _ h)

end OptModel.Text
