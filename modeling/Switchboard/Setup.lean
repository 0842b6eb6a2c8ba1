import Switchboard.Http.Header
import Switchboard.Tls.Material

/-!
# Setting up clients

A client is set up once, when its endpoint is first called: the files of its
connection are read, and what they hold is checked.

## Main definitions

* `SetupTrouble` — why a client could not be set up.
* `Http.setUp` — what every client for HTTP needs.
-/

namespace Switchboard

/-- Why a client could not be set up. -/
inductive SetupTrouble where
  /-- For a reason of its own. -/
  | refused (why : Failure)
  /-- Because of a file. -/
  | file (why : Tls.Trouble)
  deriving Repr, Inhabited

/-- The failure that the trouble is reported as. -/
def SetupTrouble.failure : SetupTrouble → Failure
  | .refused f => f
  | .file t => t.failure

namespace Http

/-- A client that cannot be set up with what it was given; what it could not use is left
out. -/
def unusable : SetupTrouble := .refused (.clientInit "failed to build HTTP request")

/-- Checks the client certificate of a connection and its key. -/
def checkIdentity (i : Tls.Identity) : Except SetupTrouble Unit :=
  match Tls.Material.parts? i.combined with
  | none => .error (.refused (.clientInit "failed to load client certificate"))
  | some (certs, key) =>
    if Tls.Material.matching certs key then .ok () else .error unusable

/-- Checks what the files of a connection hold, and the name that the client gives
itself. -/
def check (m : Tls.Material) (userAgent : Option String) : Except SetupTrouble Unit := do
  m.identity.forM checkIdentity
  if m.trusted ∧ ∀ name ∈ userAgent, IsHeaderValue name then .ok () else .error unusable

/-- Sets up a client for HTTP. -/
def setUp (fs : FileSystem) (c : Connection) (userAgent : Option String) :
    Except SetupTrouble Unit :=
  match Tls.Material.load fs c with
  | .ok m => check m userAgent
  | .error t => .error (.file t)

end Http

end Switchboard
