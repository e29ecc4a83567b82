/-!
# Vocabularies

The closed sets of words that models, settings and results are written in. Every vocabulary lists
its members in the order in which messages enumerate them, and gives each its word in a record.

## Main definitions

* `Vocabulary` — a type whose members have words
* `VariableKind`, `RowSense`, `Direction`, `ProblemType` — words of models
* `Backend`, `LogLevel` — words of settings
* `SolveStatus` — words of results
-/

namespace OptModel

/-- A finite type whose members are written as words. -/
class Vocabulary (α : Type) where
  /-- The members, in the order in which they are enumerated. -/
  all : List α
  /-- The word for a member. -/
  word : α → String

/-- The member that `word` stands for. -/
def Vocabulary.ofWord? (α : Type) [Vocabulary α] (word : String) : Option α :=
  (Vocabulary.all : List α).find? fun a => Vocabulary.word a == word

/-! ### Words of models -/

/-- What values a decision variable takes. -/
inductive VariableKind where
  | continuous
  | integer
  /-- Zero or one. -/
  | binary
  deriving Repr, DecidableEq, Inhabited

instance : Vocabulary VariableKind where
  all := [.continuous, .integer, .binary]
  word
    | .continuous => "CONTINUOUS"
    | .integer => "INTEGER"
    | .binary => "BINARY"

/-- How the left side of a row compares with its right side. -/
inductive RowSense where
  | equal
  | atMost
  | atLeast
  deriving Repr, DecidableEq, Inhabited

instance : Vocabulary RowSense where
  all := [.equal, .atMost, .atLeast]
  word
    | .equal => "EQ"
    | .atMost => "LE"
    | .atLeast => "GE"

/-- Which way the objective is driven. -/
inductive Direction where
  | minimize
  | maximize
  deriving Repr, DecidableEq, Inhabited

instance : Vocabulary Direction where
  all := [.minimize, .maximize]
  word
    | .minimize => "MINIMIZE"
    | .maximize => "MAXIMIZE"

/-- The family a model declares itself to belong to. The last two can be declared but not solved. -/
inductive ProblemType where
  | linearProgramming
  | mixedIntegerProgramming
  | constraintProgramming
  | vehicleRouting
  | jobShopScheduling
  | binPacking
  deriving Repr, DecidableEq, Inhabited

instance : Vocabulary ProblemType where
  all := [.linearProgramming, .mixedIntegerProgramming, .constraintProgramming, .vehicleRouting,
    .jobShopScheduling, .binPacking]
  word
    | .linearProgramming => "LINEAR_PROGRAMMING"
    | .mixedIntegerProgramming => "MIXED_INTEGER_PROGRAMMING"
    | .constraintProgramming => "CONSTRAINT_PROGRAMMING"
    | .vehicleRouting => "VEHICLE_ROUTING"
    | .jobShopScheduling => "JOB_SHOP_SCHEDULING"
    | .binPacking => "BIN_PACKING"

/-! ### Words of settings -/

/-- The solver asked for. -/
inductive Backend where
  /-- The best one there is. -/
  | auto
  | microlp
  | coinCbc
  | highs
  deriving Repr, DecidableEq, Inhabited

instance : Vocabulary Backend where
  all := [.auto, .microlp, .coinCbc, .highs]
  word
    | .auto => "AUTO"
    | .microlp => "MICROLP"
    | .coinCbc => "COIN_CBC"
    | .highs => "HIGHS"

/-- The name of a backend in messages. -/
def Backend.display : Backend → String
  | auto => "Auto"
  | microlp => "microlp"
  | coinCbc => "COIN-OR CBC"
  | highs => "HiGHS"

/-- How much is logged. -/
inductive LogLevel where
  | off
  | error
  | warning
  | info
  | debug
  deriving Repr, DecidableEq, Inhabited

instance : Vocabulary LogLevel where
  all := [.off, .error, .warning, .info, .debug]
  word
    | .off => "OFF"
    | .error => "ERROR"
    | .warning => "WARNING"
    | .info => "INFO"
    | .debug => "DEBUG"

/-- The word for a level in a log filter. -/
def LogLevel.filter : LogLevel → String
  | off => "off"
  | error => "error"
  | warning => "warn"
  | info => "info"
  | debug => "debug"

/-! ### Words of results -/

/-- How a solve ended, whatever the family. -/
inductive SolveStatus where
  | optimal
  /-- There is a solution, not proven optimal. -/
  | feasible
  | infeasible
  | unbounded
  /-- The solve failed, and the result carries a message. -/
  | error
  deriving Repr, DecidableEq, Inhabited

instance : Vocabulary SolveStatus where
  all := [.optimal, .feasible, .infeasible, .unbounded, .error]
  word
    | .optimal => "OPTIMAL"
    | .feasible => "FEASIBLE"
    | .infeasible => "INFEASIBLE"
    | .unbounded => "UNBOUNDED"
    | .error => "ERROR"

/-- Whether results of this status carry a solution. -/
def SolveStatus.hasSolution : SolveStatus → Bool
  | optimal | feasible => true
  | infeasible | unbounded | error => false

end OptModel
