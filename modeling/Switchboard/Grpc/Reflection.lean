import Switchboard.Grpc.MethodPath
import Switchboard.Grpc.Status
import Switchboard.Proto.DeclarationReading
import Switchboard.Proto.Linking

/-!
# Looking up a method

A server describes its services itself.  The file that declares a service is
asked for by the name of the service; what it depends on and did not come along
is then asked for by file name, round after round.

## Main definitions

* `Query`, `Answer` — what is asked and what a server says.
* `gather` — the files around a service.
* `buildPool`, `findMethod` — the method in the files.
* `lookUp` — the whole look-up.
-/

namespace Switchboard.Grpc

open Proto

/-- What a server is asked. -/
inductive Query where
  /-- The file that declares the given name. -/
  | symbol (name : String)
  /-- The file with the given name. -/
  | file (name : String)
  deriving DecidableEq, Repr, Inhabited

/-- What a server says. -/
inductive Answer where
  /-- Encoded declarations of files. -/
  | files (encoded : List Bytes)
  /-- That it will not say, with a number and a message. -/
  | refusal (code : Int) (message : String)
  /-- Something else. -/
  | other
  /-- Nothing. -/
  | silence
  deriving Repr, Inhabited

/-- The files of an answer, or the failure that it is reported as. -/
def Answer.files? : Answer → Except Failure (List Bytes)
  | .files [] => .error (.clientInit "no file descriptor returned")
  | .files encoded => .ok encoded
  | .refusal code message =>
    .error (.clientInit ("reflection error " ++ toString code ++ ": " ++ message))
  | .other => .error (.clientInit "unexpected reflection response type")
  | .silence => .error (.clientInit "reflection stream closed without a response")

/-- The failure that is reported when a query does not go through. -/
def lookUpFailure (s : Status) : Failure :=
  .clientInit ("failed to get method descriptor: " ++ s.failure.message)

/-- What comes of a query. -/
def heard : Except Status Answer → Except Failure (List Bytes)
  | .ok a => a.files?
  | .error s => .error (lookUpFailure s)

/-! ### Gathering files -/

/-- The files with one more, unless there is one of that name. -/
def keep (files : Dictionary FileDecl) (f : FileDecl) : Dictionary FileDecl :=
  if Dictionary.contains f.name files then files else Dictionary.insert f.name f files

/-- The files with more encoded ones, of which each has to be readable. -/
def collect (files : Dictionary FileDecl) (encoded : List Bytes) :
    Except Failure (Dictionary FileDecl) :=
  encoded.foldlM
    (fun files bs =>
      match FileDecl.decode? bs with
      | some f => .ok (keep files f)
      | none => .error (.clientInit "failed to decode file descriptor"))
    files

/-- The files that are depended on, not there and not asked for yet. -/
def wanted (files : Dictionary FileDecl) (requested : List String) : List String :=
  (FileDecl.missing files).filter (· ∉ requested)

/-- The greatest number of rounds. -/
def maxRounds : Nat := 16

section

variable {m : Type → Type} [Monad m]

/-- The files after one more was asked for by name; that it does not come is no
failure. -/
def fetch (ask : Query → m (Except Failure (List Bytes))) (files : Dictionary FileDecl)
    (name : String) : ExceptT Failure m (Dictionary FileDecl) :=
  .mk do
    match ← ask (.file name) with
    | .ok encoded => return collect files encoded
    | .error _ => return .ok files

/-- The files after the given number of rounds, in each of which all wanted files
are asked for. -/
def rounds (ask : Query → m (Except Failure (List Bytes))) :
    (count : Nat) → Dictionary FileDecl → (requested : List String) →
    ExceptT Failure m (Dictionary FileDecl)
  | 0, files, _ => return files
  | count + 1, files, requested =>
    match wanted files requested with
    | [] => return files
    | names => do
      let files ← names.foldlM (fetch ask) files
      rounds ask count files (requested ++ names)

/-- The files around a service. -/
def gather (ask : Query → m (Except Failure (List Bytes))) (service : String) :
    ExceptT Failure m (Dictionary FileDecl) := do
  let encoded ← ExceptT.mk (ask (.symbol service))
  let files ← liftExcept (collect [] encoded)
  rounds ask maxRounds files []

/-! ### The method -/

/-- The pool of a list of files. -/
def buildPool (files : List FileDecl) : Except Failure Pool :=
  match Pool.link? files with
  | some p => .ok p
  | none => .error (.clientInit "failed to build descriptor pool")

/-- The method in a pool. -/
def findMethod (p : Pool) (path : MethodPath) : Except Failure Method :=
  match p.service? path.service with
  | none => .error (.clientInit ("service " ++ path.service ++ " not found via reflection"))
  | some s =>
    match s.method? path.method with
    | none => .error (.clientInit ("method " ++ path.path ++ " not found"))
    | some found => .ok found

/-- The method with a path and the types that it needs. -/
def lookUp (ask : Query → m (Except Failure (List Bytes))) (path : MethodPath) :
    ExceptT Failure m (Pool × Method) := do
  let files ← gather ask path.service
  let pool ← liftExcept (buildPool (files.map Prod.snd))
  let method ← liftExcept (findMethod pool path)
  return (pool, method)

end

end Switchboard.Grpc
