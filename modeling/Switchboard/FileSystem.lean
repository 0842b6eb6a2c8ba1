import Switchboard.Dictionary
import Switchboard.Text.Utf8

/-!
# Files

What a process can see of the files around it: what stands at a path, and the content of
it, or why it cannot be read.

## Main definitions

* `FileKind` — what may stand at a path.
* `FileTrouble` — why a file cannot be read.
* `FileSystem` — the files that a process sees.
* `FileSystem.ofList` — the files of a list of paths.
-/

namespace Switchboard

/-- What may stand at a path. -/
inductive FileKind where
  /-- A regular file. -/
  | file
  /-- A directory. -/
  | directory
  /-- A device, a pipe or something else of the kind. -/
  | special
  deriving DecidableEq, Repr, Inhabited

/-- Why a file cannot be read. -/
inductive FileTrouble where
  /-- Nothing has that name. -/
  | missing
  /-- The name belongs to a directory. -/
  | isDirectory
  /-- A file stands where the path needs a directory. -/
  | notDirectory
  /-- The operating system has another reason, in words of its own. -/
  | other (words : String)
  deriving DecidableEq, Repr, Inhabited

/-- The words of the operating system for the trouble. -/
def FileTrouble.text : FileTrouble → String
  | .missing => "No such file or directory (os error 2)"
  | .isDirectory => "Is a directory (os error 21)"
  | .notDirectory => "Not a directory (os error 20)"
  | .other words => words

/-- The files that a process sees, by their paths.  What stands at a path is asked for
apart from its content, as a file may be there that the process may not read. -/
structure FileSystem where
  /-- What stands at a path; nothing if the path leads nowhere. -/
  kind? : String → Option FileKind
  /-- The content of what stands at a path. -/
  read : String → Except FileTrouble Bytes

namespace FileSystem

/-- Whether something stands at the path. -/
def «exists» (fs : FileSystem) (path : String) : Bool := (fs.kind? path).isSome

/-- Whether a regular file stands at the path. -/
def isFile (fs : FileSystem) (path : String) : Bool := fs.kind? path = some .file

/-! ### Listed files -/

/-- What a path of a listing belongs to. -/
inductive Entry where
  /-- A file with its content. -/
  | file (content : Bytes)
  /-- A directory. -/
  | directory
  deriving Repr, Inhabited

/-- The pieces of a path between its slashes. -/
def pieces (cs : List Char) : List (List Char) :=
  cs.foldr (fun c ps => match ps with
    | [] => [[c]]
    | p :: ps => if c = '/' then [] :: p :: ps else (c :: p) :: ps) [[]]

/-- The names of a path, without the pieces that stay where they are. -/
def names (path : String) : List String :=
  ((pieces path.toList).filter fun p => p ≠ [] ∧ p ≠ ['.']).map String.ofList

/-- What stands at a list of names. -/
def locate (entries : List (List String × Entry)) (path : List String) :
    Except FileTrouble Entry :=
  if path = [] then .ok .directory
  else
    match entries.lookup path with
    | some e => .ok e
    | none =>
      if entries.any fun e => path.isPrefixOf e.1 then .ok .directory
      else if entries.any fun e =>
          match e.2 with
          | .file _ => e.1.isPrefixOf path
          | .directory => false
        then .error .notDirectory
      else .error .missing

/-- Walks a list of names from a directory: two dots go back to the directory
above. -/
def walk (entries : List (List String × Entry)) (here : List String) :
    List String → Except FileTrouble Entry
  | [] => locate entries here
  | name :: rest => do
    match ← locate entries here with
    | .file _ => .error .notDirectory
    | .directory => walk entries (if name = ".." then here.dropLast else here ++ [name]) rest

/-- What stands at a relative path, seen from the directory that the list belongs to; a path
that begins with a slash leads nowhere. -/
def find (entries : List (String × Entry)) (path : String) : Except FileTrouble Entry :=
  let known := entries.map fun e => (names e.1, e.2)
  match path.toList with
  | [] => .error .missing
  | '/' :: _ => .error .missing
  | cs => do
    match ← walk known [] (names path) with
    | .directory => .ok .directory
    | .file content =>
      if cs.getLast? = some '/' then .error .notDirectory else .ok (.file content)

/-- The files of a list of relative paths, all of which can be read. -/
def ofList (entries : List (String × Entry)) : FileSystem where
  kind? path :=
    match find entries path with
    | .ok (.file _) => some .file
    | .ok .directory => some .directory
    | .error _ => none
  read path :=
    match find entries path with
    | .ok (.file content) => .ok content
    | .ok .directory => .error .isDirectory
    | .error t => .error t

end FileSystem

end Switchboard
