import Switchboard.Json.Document

/-!
# Tables in TOML

A TOML text builds one table, statement by statement.  Every table in it is
written in one way and may afterwards only be extended in that way: by a header
once, through the headers of tables inside it, or through dotted keys.

## Main definitions

* `Item`, `Members` — a table that is being built.
* `Members.assign?` — gives a key a value.
* `Members.define?` — begins a table with a header.
* `Members.append?` — begins another element of an array of tables.
* `Members.document` — the finished table.
-/

namespace Switchboard.Toml

open Switchboard.Json

/-- How a table came to be. -/
inductive Origin where
  /-- By a header of its own. -/
  | header
  /-- By the header of a table inside it. -/
  | inner
  /-- By a dotted key. -/
  | dotted
  deriving DecidableEq, Repr, Inhabited

/-- What a key holds while the table around it is being built. -/
inductive Item where
  /-- A value that is complete. -/
  | value (d : Document)
  /-- A table. -/
  | table (origin : Origin) (members : List (String × Item))
  /-- An array of tables, of which only the last can still change. -/
  | tables (complete : List Document) (last : List (String × Item))
  deriving Inhabited

/-- The keys of a table that is being built, and what they hold. -/
abbrev Members := List (String × Item)

/-! ### Finished tables -/

mutual

/-- The document of what a key holds. -/
def Item.document : Item → Document
  | .value d => d
  | .table _ ms => .object (documents ms)
  | .tables complete last => .array (complete ++ [.object (documents last)])

/-- The members of the document of a table. -/
def documents : List (String × Item) → List (Option String × Document)
  | [] => []
  | (k, i) :: ms => (some k, i.document) :: documents ms

end

namespace Members

/-- The document of a table. -/
def document (ms : Members) : Document := .object (documents ms)

/-! ### Changes -/

/-- The table with another item under the key `k`. -/
def set (k : String) (i : Item) : Members → Members
  | [] => [(k, i)]
  | (k', i') :: ms => if k = k' then (k, i) :: ms else (k', i') :: set k i ms

/-- The table in which the table at the end of a path is changed.  The change is
told how the table it works on came to be.  On the way, missing tables are made,
and of an array of tables the last is entered; dotted keys do not enter a table
that has a header. -/
def within? (way : Origin) (change : Origin → Members → Option Members) :
    List String → Origin → Members → Option Members
  | [], origin, ms => change origin ms
  | k :: path, _, ms =>
    match ms.lookup k with
    | none => do
      return set k (.table way (← within? way change path way [])) ms
    | some (.table origin inner) =>
      if way = .dotted ∧ origin = .header then none
      else do
        return set k (.table origin (← within? way change path origin inner)) ms
    | some (.tables complete last) => do
      return set k (.tables complete (← within? way change path .header last)) ms
    | some (.value _) => none

/-- Gives a new key a value, in a table that dotted keys made if `dotted` holds. -/
def put? (dotted : Bool) (k : String) (d : Document) (origin : Origin) (ms : Members) :
    Option Members :=
  if dotted ∧ origin ≠ .dotted then none
  else
    match ms.lookup k with
    | none => some (set k (.value d) ms)
    | some _ => none

/-- Gives a key a value; all names of the key but the last lead to the table. -/
def assign? (key : List String) (d : Document) (ms : Members) : Option Members := do
  let k ← key.getLast?
  let path := key.dropLast
  within? .dotted (put? (!path.isEmpty) k d) path .header ms

/-- Gives a key of the table at `here` a value. -/
def assignAt? (here key : List String) (d : Document) (ms : Members) : Option Members :=
  within? .inner (fun _ => assign? key d) here .header ms

/-- Begins the table under a key: it must be new, or only have been made for a
table inside it. -/
def open? (k : String) (ms : Members) : Option Members :=
  match ms.lookup k with
  | none => some (set k (.table .header []) ms)
  | some (.table .inner inner) => some (set k (.table .header inner) ms)
  | _ => none

/-- Begins the table at a path. -/
def define? (path : List String) (ms : Members) : Option Members := do
  let k ← path.getLast?
  within? .inner (fun _ => open? k) path.dropLast .header ms

/-- Begins another element of the array of tables under a key, which must be new
or such an array. -/
def extend? (k : String) (ms : Members) : Option Members :=
  match ms.lookup k with
  | none => some (set k (.tables [] []) ms)
  | some (.tables complete last) =>
    some (set k (.tables (complete ++ [document last]) []) ms)
  | _ => none

/-- Begins another element of the array of tables at a path. -/
def append? (path : List String) (ms : Members) : Option Members := do
  let k ← path.getLast?
  within? .inner (fun _ => extend? k) path.dropLast .header ms

end Members

end Switchboard.Toml
