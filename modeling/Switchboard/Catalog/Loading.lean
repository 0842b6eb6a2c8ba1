import Switchboard.Catalog.Format

/-!
# Finding and loading a catalog

The path that a caller gives comes first, then the one that the environment
names, then the first of the usual files that is there.  Whichever it is, no
other is tried in its place.

## Main definitions

* `Catalog.probe?` — the first of the usual files that is there.
* `Catalog.candidate?` — the path of the catalog.
* `Catalog.loadFrom` — the catalog in a file.
* `Catalog.load` — the catalog of a process, checked.
-/

namespace Switchboard.Catalog

/-- The variable of the environment that names the catalog. -/
def variableName : String := "POLYCALL_CONFIG"

/-- The usual files, in the order in which they are looked for. -/
def usualPaths : List String := ["polycall.toml", "polycall.json", "config/polycall.toml"]

/-- The first of the usual files that is there. -/
def probe? (fs : FileSystem) : Option String := usualPaths.find? fs.isFile

/-- The path of the catalog: the one given, or else the one in the environment
unless that is empty, or else a usual one. -/
def candidate? (fs : FileSystem) (environment path : Option String) : Option String :=
  match path, environment with
  | some path, _ => some path
  | none, some path => if path = "" then probe? fs else some path
  | none, none => probe? fs

/-- None of the usual files is there. -/
def notFound : Failure :=
  .config "No endpoint catalog found in any of the standard locations"

/-- There is nothing at the path. -/
def missing (path : String) : Failure := .config ("Config file not found: " ++ path)

/-- What is at the path is no text.  What exactly went wrong is left out of the message. -/
def unreadable : Failure := .config "Failed to read config file"

/-- The text of a file, which has to be in UTF-8. -/
def textAt? (fs : FileSystem) (path : String) : Option (List Char) :=
  match fs.read path with
  | .ok bytes => Text.Utf8.decodeChars? bytes
  | .error _ => none

/-- The catalog in a file, not checked yet. -/
def loadFrom (fs : FileSystem) (path : String) : Except Failure Catalog :=
  if fs.exists path then
    match textAt? fs path with
    | some text => parse text path
    | none => .error unreadable
  else .error (missing path)

/-- A catalog after its check. -/
def checked (c : Catalog) : Except Failure Catalog :=
  match c.validate with
  | .ok () => .ok c
  | .error f => .error f

/-- The catalog of a process that was given a path, or has one in its
environment. -/
def load (fs : FileSystem) (environment path : Option String) : Except Failure Catalog :=
  match candidate? fs environment path with
  | none => .error notFound
  | some path => do checked (← loadFrom fs path)

end Switchboard.Catalog
