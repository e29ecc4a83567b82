import OptModel.Backends
import OptModel.Dispatch
import OptModel.Model.Json

/-!
# The command line

The program takes the path of a model and the text of settings, solves the model and prints one
result as a line of JSON. Only a wrong number of arguments makes it exit with one; whatever else is
wrong is told by the result. The settings are looked at before the file, so when both are bad the
result tells about the settings. That the output cannot be written changes nothing but the output.

The run is a function of the arguments, of what files hold, and of whether output can be written.

## Main definitions

* `CommandLine.Invocation` — the two arguments
* `CommandLine.textOf` — the text that a file holds
* `CommandLine.solveFile`, `CommandLine.execute` — from a file to a result
* `CommandLine.answer`, `CommandLine.transcript` — the solve, and what is printed of it
* `CommandLine.run` — the whole run
-/

namespace OptModel.CommandLine

/-- What is said about wrong arguments. -/
def usage : String := "Usage: letsopt-solve <model_file> <config_json>"

/-- The arguments of a run. -/
structure Invocation where
  modelPath : String
  configText : String
  deriving Repr, DecidableEq

/-- The invocation that a list of arguments stands for: exactly two are needed. -/
def Invocation.ofArguments? : List String → Option Invocation
  | [modelPath, configText] => some ⟨modelPath, configText⟩
  | _ => none

/-- What files hold: the bytes at a path, or why they cannot be read. -/
abbrev Files := String → Except FileFault ByteArray

/-- The text that bytes encode. -/
def textOf (bytes : ByteArray) : Except FileFault String :=
  match String.fromUTF8? bytes with
  | some text => .ok text
  | none => .error .notText

/-- The model that the file at `path` describes. -/
def readModel (files : Files) (path : String) : Except Fault (Model Float) :=
  match (files path).bind textOf with
  | .error fault => .error (.file fault)
  | .ok text =>
    match Model.decode text with
    | .error fault => .error (.json fault)
    | .ok model => .ok model

/-- Solve the model of the file at `path`: what the engine sees, and the result. -/
def solveFile (engine : Engine) (files : Files) (path : String) (config : Config) :
    List Call × Result :=
  match readModel files path with
  | .error fault => ([], .failed fault.message)
  | .ok model => engine.dispatch model config

/-- Solve an invocation: what the engine sees, and the result. -/
def execute (engine : Engine) (files : Files) (invocation : Invocation) : List Call × Result :=
  match Config.decodeArgument invocation.configText with
  | .error fault => ([], .failed fault.message)
  | .ok config => solveFile engine files invocation.modelPath config

/-! ### How a solve goes -/

section Equations

variable {engine : Engine} {files : Files} {path configText : String} {config : Config}

end Equations

/-- What comes of a run. -/
structure Transcript where
  exitCode : UInt8
  /-- What the standard output received. -/
  output : String := ""
  /-- What is said on the standard error output about wrong arguments. -/
  complaint : Option String := none
  /-- What the engine saw. -/
  calls : List Call := []

/-- What the arguments are answered with: what the engine sees, and the result. There is no answer
to wrong arguments. -/
def answer (engine : Engine) (files : Files) (arguments : List String) :
    Option (List Call × Result) :=
  (Invocation.ofArguments? arguments).map (execute engine files)

/-- What is printed for an answer that took `seconds`. The output receives nothing if it is not
`writable`. -/
def transcript (seconds : Float) (writable : Bool) : Option (List Call × Result) → Transcript
  | none => { exitCode := 1, complaint := some (usage ++ "\n") }
  | some (calls, result) =>
    let line := { result with solveTime := seconds }.encode ++ "\n"
    { exitCode := 0, output := if writable then line else "", calls := calls }

/-- A run with these arguments that takes `seconds`. -/
def run (engine : Engine) (files : Files) (arguments : List String) (seconds : Float)
    (writable : Bool) : Transcript :=
  transcript seconds writable (answer engine files arguments)

end OptModel.CommandLine
