import OptModel.Exact.BranchAndBound

/-!
# Backends

Which solver serves which backend. There is one built-in solver, which serves `microlp`; it is also
the best one there is, so `auto` stands for it. The direct engine hands out that solver and no
other. The default engine passes on to it what is meant for it and refuses the rest in words of its
own.

## Main definitions

* `Backend.available`, `Backend.resolve` — the backends there are, and what a backend stands for
* `Engine.direct` — the engine of the built-in solver
* `Engine.default` — the engine that solves take
-/

namespace OptModel

/-- The backends there are, best first. -/
def Backend.available : List Backend := [.microlp]

/-- The backend that is meant: the best one for `auto`. -/
def Backend.resolve (backend : Backend) : Backend :=
  if backend = .auto then Backend.available.headD .auto else backend

/-- The backend that the built-in solver serves. -/
def Backend.serve (backend : Backend) : Except String Backend :=
  let meant := backend.resolve
  if Backend.available.contains meant then .ok meant
  else .error (meant.display ++ " is not available through good_lp in this build")

/-- The backend that is served by default. A second kind of solver is known by name only. -/
def Backend.serveDefault (backend : Backend) : Except String Backend :=
  match backend.resolve with
  | .microlp => Backend.serve .microlp
  | .coinCbc => Backend.serve .coinCbc
  | other => .error (other.display ++ " support is not compiled into this build")

/-- The engine of the built-in solver. -/
def Engine.direct : Engine := Engine.builtIn "good_lp" Backend.serve Exact.optimizer

/-- The engine that solves take unless told otherwise. -/
def Engine.default : Engine := Engine.builtIn "letsopt" Backend.serveDefault Exact.optimizer

end OptModel
