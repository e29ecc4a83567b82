import OptModel.Assignment
import OptModel.Json.Record

/-!
# Results

What a solve is answered with, whatever the family of the model. A result with a solution has an
objective value and values of the variables, possibly a gap and routes; a failed one has a message.

## Main definitions

* `Route` — the tour of one vehicle
* `Result` — the answer
* `Result.unsolved`, `Result.failed` — results without a solution
* `Result.decode`, `Result.encode` — results as texts
-/

namespace OptModel

/-- The tour of one vehicle, which starts and ends at the depot. -/
structure Route where
  vehicle : UInt64
  stops : List UInt64
  distance : Float

/-- The tour `stops` of the vehicle of this number. -/
def Route.ofTour (vehicle : Nat) (stops : List Nat) (distance : Float) : Route :=
  ⟨vehicle.toUInt64, stops.map Nat.toUInt64, distance⟩

/-- The answer to a solve. -/
structure Result where
  status : SolveStatus
  objectiveValue : Option Float := none
  values : Option Assignment := none
  gap : Option Float := none
  routes : Option (List Route) := none
  message : Option String := none
  /-- In seconds. -/
  solveTime : Float := 0.0

namespace Result

/-- A result of this status that carries nothing. -/
def unsolved (status : SolveStatus) : Result := { status := status }

/-- The result of a solve that failed. -/
def failed (message : String) : Result := { status := .error, message := some message }

/-- Whether the solution is proven optimal. -/
def isOptimal (result : Result) : Bool := result.status == .optimal

/-- Whether there is a solution. -/
def isFeasible (result : Result) : Bool := result.status.hasSolution

end Result

/-! ### Results as JSON records -/

open Json

/-- The record of a route. -/
def Route.layout : Layout Route where
  title := "struct Route"
  blank := ⟨0, [], 0.0⟩
  fields := [
    .required "vehicle" count (·.vehicle) (fun a r => { r with vehicle := a }),
    .required "stops" (list count) (·.stops) (fun a r => { r with stops := a }),
    .required "distance" number (·.distance) (fun a r => { r with distance := a })]

/-- The remaining members of an assignment. -/
def Assignment.readMembers : Nat → Bool → Assignment → Reader Assignment
  | 0, _, _ => throw .endInObject
  | n + 1, first, values => do
    match ← nextKey first with
    | none => pure values
    | some name =>
      colon
      let x ← number.read
      readMembers n false (values.insert name x)

theorem Assignment.readMembers_of_name {first : Bool} {name : String} {text rest : List Char}
    (h : nextKey first text = .ok (some name, rest)) (n : Nat) (values : Assignment) :
    readMembers (n + 1) first values text =
      (colon >>= fun _ => number.read >>= fun x => readMembers n false (values.insert name x))
        rest := by
  rw [readMembers, Reader.bind_of_ok h]

/-- Assignments are objects. Of the values of a repeated name the last one counts. -/
def Assignment.codec : Codec Assignment where
  read := do
    let c ← peekValue
    if c = '{' then
      advance
      fun text => Assignment.readMembers (text.length + 1) true .empty text
    else mismatch "a map" c
  write values := writeMembers (values.entries.map fun e => (e.1, number.write e.2))

/-- The record of a result. -/
def Result.layout : Layout Result where
  title := "struct SolveResult"
  blank := { status := .error }
  fields := [
    .required "status" (word SolveStatus) (·.status) (fun a r => { r with status := a }),
    .optional "objectiveValue" number (·.objectiveValue)
      (fun a r => { r with objectiveValue := a }),
    .optional "variables" Assignment.codec (·.values) (fun a r => { r with values := a }),
    .optional "gap" number (·.gap) (fun a r => { r with gap := a }),
    .optional "routes" (list Route.layout.codec) (·.routes) (fun a r => { r with routes := a }),
    .optional "message" text (·.message) (fun a r => { r with message := a }),
    .required "solveTime" number (·.solveTime) (fun a r => { r with solveTime := a })]

/-- The result that a text describes. -/
def Result.decode (text : String) : Except Json.Fault Result := Result.layout.codec.decode text

/-- The text of a result. -/
def Result.encode (result : Result) : String := Result.layout.codec.encode result

end OptModel
