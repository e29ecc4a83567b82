import OptModel.Text.Invisible

/-!
# Quoted text

How a text is shown inside a message: between double quotes, on one line, with every character
visible. A quote and a backslash are escaped with a backslash, four controls have a letter, and any
other invisible character is written by its code point in lower-case hexadecimal, `\u{200b}`.

## Main definitions

* `Text.quotedChar` — how one character is shown
* `Text.quoted` — a whole text between quotes
-/

namespace OptModel.Text

/-- How a character is shown inside quotes. -/
def quotedChar (c : Char) : List Char :=
  if c = '"' then ['\\', '"']
  else if c = '\\' then ['\\', '\\']
  else if c = '\n' then ['\\', 'n']
  else if c = '\r' then ['\\', 'r']
  else if c = '\t' then ['\\', 't']
  else if c.toNat = 0 then ['\\', '0']
  else if isInvisible c then ['\\', 'u', '{'] ++ Nat.toDigits 16 c.toNat ++ ['}']
  else [c]

/-- A text between double quotes. -/
def quoted (text : String) : String :=
  String.ofList ('"' :: text.toList.flatMap quotedChar ++ ['"'])

end OptModel.Text
