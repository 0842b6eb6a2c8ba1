import Switchboard.Json.Record
import Switchboard.Toml.Statement

/-!
# TOML documents

The statements of a TOML text are carried out in order; each works on the table
that the header before it began.  The result is a document like that of a JSON
text, in which no name is given twice.

## Main definitions

* `Building` — the table so far, and where the last header points.
* `Building.step?` — what a statement does.
* `ofText?` — the document of a text.
* `rules` — how records and cases are written.
-/

namespace Switchboard.Toml

open Switchboard.Json

/-- A table that is being built. -/
structure Building where
  /-- The whole table so far. -/
  root : Members
  /-- The path of the table that keys are given to. -/
  here : List String
  deriving Inhabited

namespace Building

/-- The empty table. -/
def empty : Building := ⟨[], []⟩

/-- What a statement does. -/
def step? (b : Building) : Statement → Option Building
  | .assign key d => (b.root.assignAt? b.here key d).map fun root => { b with root }
  | .table path => (b.root.define? path).map fun root => ⟨root, path⟩
  | .element path => (b.root.append? path).map fun root => ⟨root, path⟩

/-- What a list of statements builds. -/
def ofStatements? (ss : List Statement) : Option Building := ss.foldlM step? empty

end Building

/-- The text without the mark that some editors put in front. -/
def dropMark : List Char → List Char
  | '\uFEFF' :: cs => cs
  | cs => cs

/-- The document of a text. -/
def ofText? (cs : List Char) : Option Document := do
  let b ← Building.ofStatements? (← Statement.ofTokens? (← Token.ofText? (dropMark cs)))
  return b.root.document

/-- Whether a document has nothing in it: there is no word for that. -/
def isEmpty : Document → Bool
  | .array [] | .object [] => true
  | _ => false

/-- Nothing is written as an empty array or table, and an array may have more
elements than the record has fields. -/
def rules : Document.Rules := ⟨isEmpty, true⟩

end Switchboard.Toml
