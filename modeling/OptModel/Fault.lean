import OptModel.Config
import OptModel.Model.Flaw
import OptModel.Routing.Tours

/-!
# Why a solve fails

Every failure before, during and after a solve, down to the file it starts from, is one `Fault`.

## Main definitions

* `FileFault` — why a file cannot be read as text
* `Fault` — why a solve fails, and `Fault.message` the text of its result
-/

namespace OptModel

/-- Why a file cannot be read as text. -/
inductive FileFault where
  | notFound
  | isDirectory
  | notDirectory
  | notText
  | other (description : String)
  deriving Repr, DecidableEq

/-- The text of a file fault. -/
def FileFault.message : FileFault → String
  | notFound => "No such file or directory (os error 2)"
  | isDirectory => "Is a directory (os error 21)"
  | notDirectory => "Not a directory (os error 20)"
  | notText => "stream did not contain valid UTF-8"
  | other description => description

/-- Why a solve fails. -/
inductive Fault where
  /-- No family solves models of this type. -/
  | unsupported (type : ProblemType)
  /-- There is no solver for the backend asked for. -/
  | unavailable (reason : String)
  | expression (fault : Expression.Fault)
  | illFormed (flaws : List Model.Flaw)
  /-- Variables of a constraint program without a finite domain. -/
  | openDomains (names : List String)
  | routing (flaw : Plan.Flaw)
  /-- A problem was built without a routing plan and is solved as a routing problem. -/
  | planMissing
  | config (flaw : Config.Flaw)
  | tours (fault : Plan.TourFault)
  | file (fault : FileFault)
  | json (fault : Json.Fault)

/-- What is said about the variables of a constraint program that have no finite domain. -/
def openDomainsMessage (names : List String) : String :=
  let quoted := names.map fun name => s!"'{name}'"
  "constraint programming needs integer variables with finite bounds or binaries; " ++
    ", ".intercalate quoted ++ (if names.length = 1 then " is" else " are") ++ " not"

/-- The text of a fault. -/
def Fault.message : Fault → String
  | unsupported type => "Unsupported problem type: " ++ Vocabulary.word type
  | unavailable reason => "Solver not available: " ++ reason
  | expression cause => cause.message
  | illFormed flaws => "Invalid model: " ++ "; ".intercalate (flaws.map Model.Flaw.message)
  | openDomains names => "Invalid model: " ++ openDomainsMessage names
  | routing flaw => "Invalid model: " ++ flaw.message
  | planMissing => "Invalid model: routing problem was prepared without a routing plan"
  | config flaw => "Invalid configuration: " ++ flaw.message
  | tours cause => "Solver execution failed: " ++ cause.message
  | file cause => "IO error: " ++ cause.message
  | json cause => "JSON error: " ++ cause.message

end OptModel
