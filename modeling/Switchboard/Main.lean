import Switchboard.CommandLine.Calling
import Switchboard.Json.Indented
import Switchboard.ProtocolClient

/-!
# The program

Reads the arguments, performs the call that they ask for and prints its result.
Files are read before the call, as far as it can need them: the catalog, and the
certificates and keys that the catalog names.  No network is attached, so every
call ends as if no server could be reached.

The program ends with 0 after a call that succeeded, with 1 after one that did
not, and with 2 if the arguments ask for nothing.
-/

namespace Switchboard.CommandLine

/-- What stands at a path. -/
def kindAt (path : String) : IO (Option FileKind) := do
  try
    match (← (← IO.FS.realPath path).metadata).type with
    | .file => return some .file
    | .dir => return some .directory
    | _ => return some .special
  catch _ => return none

/-- The content of a file, or why it cannot be read. -/
def readFile (path : String) : IO (Except FileTrouble Bytes) := do
  try
    return .ok (← IO.FS.readBinFile path).toList
  catch
    | .noFileOrDirectory .. => return .error .missing
    | .inappropriateType _ code _ =>
      return .error (if code = 21 then .isDirectory else .notDirectory)
    | e => return .error (.other (toString e))

/-- What stands at the given paths, and the content of it. -/
def readFiles (paths : List String) :
    IO (List (String × Option FileKind × Except FileTrouble Bytes)) :=
  paths.mapM fun path => return (path, ← kindAt path, ← readFile path)

/-- What is known of the files after some were read. -/
def known (files : List (String × Option FileKind × Except FileTrouble Bytes)) : FileSystem where
  kind? path := (files.lookup path).bind Prod.fst
  read path := ((files.lookup path).map Prod.snd).getD (.error .missing)

/-- The paths where the catalog may be. -/
def catalogPaths (environment : Option String) (args : CallArguments) : List String :=
  args.catalog.toList ++ environment.toList ++ Catalog.usualPaths

/-- The paths that the settings of a connection name. -/
def connectionPaths (c : Connection) : List String :=
  [c.caCertPath, c.tlsCertPath, c.tlsKeyPath].flatMap Option.toList

/-- The files that a call can need. -/
def filesFor (environment : Option String) (args : CallArguments) : IO FileSystem := do
  let catalogs ← readFiles (catalogPaths environment args)
  match find (known catalogs) environment args with
  | .error _ => return known catalogs
  | .ok (_, connection) => return known (catalogs ++ (← readFiles (connectionPaths connection)))

/-- Performs a call and prints its result. -/
def callAndPrint (args : CallArguments) : IO UInt32 := do
  let environment ← IO.getEnv Catalog.variableName
  let fs ← filesFor environment args
  match (perform (networked fs isolated) fs environment args ()).1 with
  | some (.ok o) =>
    IO.println (Json.Value.object o.result.toMap).renderIndented
    return if o.success then 0 else 1
  | some (.error e) =>
    IO.eprintln ("error: " ++ e.fullMessage)
    return 1
  | none => return 1

end Switchboard.CommandLine

open Switchboard.CommandLine in
/-- Does what the arguments ask for. -/
def main (args : List String) : IO UInt32 := do
  match Command.parse args with
  | .error e =>
    IO.eprintln ("error: " ++ e.message ++ "\n\n" ++ usage)
    return 2
  | .ok .help =>
    IO.print usage
    return 0
  | .ok (.call call) => callAndPrint call
