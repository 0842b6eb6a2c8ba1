import Switchboard.Catalog.Basic
import Switchboard.FileSystem
import Switchboard.Toml.Document

/-!
# Catalog files

A catalog is written in TOML or in JSON, as the extension of its file says.

## Main definitions

* `extension?` — the extension of a path.
* `Catalog.Format` — what a catalog may be written in.
* `Catalog.parse` — the catalog that a text spells, given the path of its file.
-/

namespace Switchboard

/-- What stands behind the last point of a file name, unless the only point is
the first character. -/
def extensionOf? (name : List Char) : Option (List Char) :=
  let back := name.reverse
  match back.dropWhile (· ≠ '.') with
  | [] | ['.'] => none
  | _ => some (back.takeWhile (· ≠ '.')).reverse

/-- The extension of the file that a path names. -/
def extension? (path : String) : Option String := do
  let name ← (FileSystem.names path).getLast?
  if name = ".." then none else (extensionOf? name.toList).map String.ofList

namespace Catalog

/-- What a catalog may be written in. -/
inductive Format where
  /-- TOML. -/
  | toml
  /-- JSON. -/
  | json
  deriving DecidableEq, Repr, Inhabited

namespace Format

/-- How people call the format. -/
def title : Format → String
  | .toml => "TOML"
  | .json => "JSON"

/-- The format that an extension stands for. -/
def ofExtension? (extension : String) : Option Format :=
  if extension = "toml" then some .toml
  else if extension = "json" then some .json
  else none

/-- The catalog that a text in the format spells. -/
def read? (format : Format) (text : List Char) : Option Catalog :=
  match format with
  | .toml => (Toml.ofText? text).bind (ofDocument? · Toml.rules)
  | .json => (Json.Document.ofText? text).bind (ofDocument? ·)

/-- A text that is not a catalog in the format.  Where it goes wrong, and how, is left out of
the message. -/
def invalid (format : Format) : Failure :=
  .config ("Invalid " ++ format.title ++ " format")

/-- The catalog that a text in the format spells, or that it is none. -/
def parse (format : Format) (text : List Char) : Except Failure Catalog :=
  match format.read? text with
  | some c => .ok c
  | none => .error format.invalid

end Format

/-- The format of a file; without an extension it is JSON. -/
def formatOf (path : String) : Except Failure Format :=
  let extension := (extension? path).getD "json"
  match Format.ofExtension? extension with
  | some format => .ok format
  | none => .error (.config ("Unsupported config format: " ++ extension))

/-- The catalog that a text spells, given the path of its file. -/
def parse (text : List Char) (path : String) : Except Failure Catalog := do
  (← formatOf path).parse text

end Catalog

end Switchboard
