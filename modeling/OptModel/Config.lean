import OptModel.Json.Record
import OptModel.Text.Blank

/-!
# Settings of a solve

The settings that a caller may choose. A time limit has to be a positive number of seconds, there
has to be at least one thread, and a gap tolerance must not be negative; the first of these that is
violated is the flaw of the settings.

## Main definitions

* `Config` — the settings
* `Config.flaw?` — what is wrong with them
* `Config.timeLimitMillis?` — the time limit in whole milliseconds
* `Config.decode`, `Config.decodeArgument` — settings from a text
* `LogLevel.directive` — the log filter in force
-/

namespace OptModel

/-- The settings of a solve. -/
structure Config where
  /-- In seconds. -/
  timeLimit : Option Float := none
  threads : Option UInt32 := none
  randomSeed : Option UInt64 := none
  /-- The relative gap at which a solver may stop. -/
  gapTolerance : Option Float := none
  logLevel : Option LogLevel := none
  backend : Backend := .auto
  deriving Inhabited

namespace Config

/-! ### Valid settings -/

/-- What can be wrong with settings. -/
inductive Flaw where
  | timeLimit (seconds : Float)
  | noThreads
  | gapTolerance (gap : Float)

/-- The text of a flaw. -/
def Flaw.message : Flaw → String
  | timeLimit seconds =>
    "timeLimit must be a positive number of seconds, got " ++ plainText seconds
  | noThreads => "threads must be at least 1"
  | gapTolerance gap => "gapTolerance must be a non-negative number, got " ++ plainText gap

/-- The first thing that is wrong with the settings. -/
def flaw? (config : Config) : Option Flaw :=
  if let some seconds := config.timeLimit.filter fun s => !s.isFinite || s ≤ 0.0 then
    some (.timeLimit seconds)
  else if config.threads == some 0 then some .noThreads
  else (config.gapTolerance.filter fun g => !g.isFinite || g < 0.0).map .gapTolerance

/-- The milliseconds in a number of seconds: the double `1000 · seconds` rounded up to an integer,
at least one and at most what sixty-four bits hold. -/
def millisOf (seconds : Float) : Nat :=
  let millis := seconds * 1000.0
  match Binary64.toRat? millis with
  | some q => min (max q.ceil.toNat 1) (UInt64.size - 1)
  | none => if millis > 0.0 then UInt64.size - 1 else 1

/-- The time limit in whole milliseconds. -/
def timeLimitMillis? (config : Config) : Option Nat := config.timeLimit.map millisOf

/-! ### Settings as a JSON record -/

/-- The record of settings. -/
def layout : Json.Layout Config where
  title := "struct SolveConfig"
  blank := {}
  fields := [
    .optional "timeLimit" Json.number (·.timeLimit) (fun a r => { r with timeLimit := a }),
    .optional "threads" Json.word32 (·.threads) (fun a r => { r with threads := a }),
    .optional "randomSeed" Json.word64 (·.randomSeed) (fun a r => { r with randomSeed := a }),
    .optional "gapTolerance" Json.number (·.gapTolerance)
      (fun a r => { r with gapTolerance := a }),
    .optional "logLevel" (Json.word LogLevel) (·.logLevel) (fun a r => { r with logLevel := a }),
    .defaulted "backend" (Json.word Backend) (·.backend) (fun a r => { r with backend := a })
      (fun _ => false)]

/-- Why a text does not give settings. -/
inductive Fault where
  | json (fault : Json.Fault)
  | flaw (flaw : Flaw)

/-- The text of a fault. -/
def Fault.message : Fault → String
  | json cause => "JSON parse error: " ++ cause.message
  | flaw cause => "Invalid configuration: " ++ cause.message

/-- The valid settings that a text gives. -/
def decode (text : String) : Except Fault Config :=
  match layout.codec.decode text with
  | .error fault => .error (.json fault)
  | .ok config =>
    match config.flaw? with
    | some flaw => .error (.flaw flaw)
    | none => .ok config

theorem decode_eq_ok_iff {text : String} {config : Config} :
    decode text = .ok config ↔
      layout.codec.decode text = .ok config ∧ config.flaw? = none := by
  cases hread : layout.codec.decode text with
  | error fault => simp [decode, hread]
  | ok decoded =>
    cases hflaw : decoded.flaw? with
    | none =>
      simp only [decode, hread, hflaw, Except.ok.injEq]
      constructor
      · rintro rfl
        exact ⟨rfl, hflaw⟩
      · exact And.left
    | some flaw =>
      simp only [decode, hread, hflaw, Except.ok.injEq, reduceCtorEq, false_iff]
      rintro ⟨rfl, hnone⟩
      simp [hflaw] at hnone

/-- The text of settings. -/
def encode (config : Config) : String := layout.codec.encode config

/-- The settings that an argument gives. A blank argument stands for the default ones. -/
def decodeArgument (text : String) : Except Fault Config :=
  if Text.allBlank text.toList then .ok {} else decode text

end Config

/-- The log filter in force: that of the environment unless it is blank, else that of the level,
else `info`. -/
def LogLevel.directive (environment : Option String) (level : Option LogLevel) : String :=
  match environment.map fun text => Text.trim text.toList with
  | some (c :: rest) => String.ofList (c :: rest)
  | _ => (level.map LogLevel.filter).getD LogLevel.info.filter

end OptModel
