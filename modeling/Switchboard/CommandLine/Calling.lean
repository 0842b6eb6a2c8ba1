import Switchboard.Catalog.Loading
import Switchboard.CommandLine.Arguments
import Switchboard.Orchestrator
import Switchboard.Text.Quoted

/-!
# One call from the command line

The catalog is loaded, the endpoint is looked up in it and called.  A call that
was attempted gives a result, whether it succeeded or not.

## Main definitions

* `CallOutcome` — the result of a call that was attempted.
* `CallError` — why no call was attempted.
* `perform` — the call that the arguments ask for.
-/

namespace Switchboard.CommandLine

open Json

/-- The result of a call that was attempted. -/
structure CallOutcome where
  /-- The result. -/
  result : CallResult
  /-- Whether the call succeeded. -/
  success : Bool
  deriving Inhabited

/-- Why no call was attempted. -/
inductive CallError where
  /-- There is no catalog, or none that can be used. -/
  | catalog (cause : Failure)
  /-- The catalog has no endpoint of that name. -/
  | unknownEndpoint (name : String) (known : List String)
  /-- The endpoint or its client is at fault. -/
  | beforeCall (cause : Failure)
  deriving Repr, Inhabited

namespace CallError

/-- The text of an error. -/
def message : CallError → String
  | .catalog _ => "failed to load endpoint catalog"
  | .unknownEndpoint name known =>
    "unknown endpoint " ++ Text.quoted name ++ "; catalog defines: " ++ ", ".intercalate known
  | .beforeCall _ => "call failed before reaching the endpoint"

/-- The failure behind an error. -/
def cause? : CallError → Option Failure
  | .catalog f | .beforeCall f => some f
  | .unknownEndpoint .. => none

/-- The text of an error with that of the failure behind it. -/
def fullMessage (e : CallError) : String :=
  match e.cause? with
  | some f => e.message ++ ": " ++ f.message
  | none => e.message

end CallError

/-- What a finished call comes to. -/
def conclude : Except FailedCall CallResult → Except CallError CallOutcome
  | .ok r => .ok ⟨r, true⟩
  | .error c =>
    match c.result with
    | some r => .ok ⟨r, false⟩
    | none => .error (.beforeCall c.failure)

/-- The endpoint that the arguments name, and the settings for it. -/
def find (fs : FileSystem) (environment : Option String) (args : CallArguments) :
    Except CallError (Endpoint × Connection) :=
  match Catalog.load fs environment args.catalog with
  | .error f => .error (.catalog f)
  | .ok c =>
    match c.get? args.endpoint with
    | none => .error (.unknownEndpoint args.endpoint c.names)
    | some e => .ok (e, c.connection)

variable {σ δ : Type}

/-- The call that the arguments ask for, by a process that has made no call yet;
nothing if it never ends. -/
def perform (b : Backend σ δ) (fs : FileSystem) (environment : Option String)
    (args : CallArguments) (s : σ) : Option (Except CallError CallOutcome) × σ :=
  match find fs environment args with
  | .error e => (some (.error e), s)
  | .ok (e, connection) =>
    let params := (args.params.map CallParams.ofMap).getD .none
    let (report, _, s) := call b e params connection .empty s
    (report.map fun r => conclude r.result, s)

end Switchboard.CommandLine
