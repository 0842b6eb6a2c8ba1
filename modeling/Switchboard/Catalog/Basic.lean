import Switchboard.Endpoint.Basic
import Switchboard.Endpoint.Connection

/-!
# Endpoint catalogs

A catalog names endpoints and the connection settings that they share.  It is
valid if every endpoint is, and if no two have the same name.

## Main definitions

* `Catalog` — endpoints and connection settings.
* `Catalog.get?`, `Catalog.names` — what is in it.
* `Catalog.validate` — the check of a whole catalog.
* `Catalog.ofDocument?` — the written form.
-/

namespace Switchboard

/-- Named endpoints and the connection settings that they share. -/
structure Catalog where
  /-- How connections are secured. -/
  connection : Connection
  /-- The endpoints, in order. -/
  endpoints : List Endpoint
  deriving DecidableEq, Repr, Inhabited

namespace Catalog

/-- The catalog of a file that says nothing. -/
def empty : Catalog := ⟨.standard, []⟩

/-- The first endpoint with the given name. -/
def get? (c : Catalog) (name : String) : Option Endpoint :=
  c.endpoints.find? fun e => e.friendlyName = name

/-- The names of the endpoints, in order. -/
def names (c : Catalog) : List String := c.endpoints.map Endpoint.friendlyName

/-! ### Validity -/

/-- A name that an earlier endpoint has. -/
def duplicate (name : String) : Failure :=
  .validation ("duplicate endpoint name: " ++ name)

/-- Checks endpoints in order: each by itself first, then its name against the
names in `seen`, which are those of the endpoints before. -/
def validateFrom (seen : List String) : List Endpoint → Except Failure Unit
  | [] => .ok ()
  | e :: es =>
    match e.validate with
    | .error f => .error f
    | .ok () =>
      if e.friendlyName ∈ seen then .error (duplicate e.friendlyName)
      else validateFrom (e.friendlyName :: seen) es

/-- Checks a whole catalog; the first endpoint with a fault is reported. -/
def validate (c : Catalog) : Except Failure Unit := validateFrom [] c.endpoints

@[simp] theorem validate_empty : empty.validate = .ok () := rfl

/-! ### Written form -/

open Json

/-- The names of the fields, in order. -/
def fieldNames : List String := ["connection", "endpoints"]

/-- Reads the written form; both fields may be left out. -/
def ofDocument? (d : Document) (rules : Document.Rules := .json) : Option Catalog := do
  match ← d.record? fieldNames rules with
  | [connection, endpoints] =>
    return {
      connection := ← Document.withDefault? .standard
        (Connection.ofDocument? · rules) connection
      endpoints := ← Document.withDefault? []
        (Document.list? (Endpoint.ofDocument? · rules)) endpoints }
  | _ => none

end Catalog

end Switchboard
