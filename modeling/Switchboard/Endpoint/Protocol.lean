import Switchboard.Failure
import Switchboard.Text.Blank

/-!
# Protocols

What an endpoint speaks.

## Main definitions

* `Protocol` — the four protocols.
* `Protocol.parse` — the protocol that a person names.
* `Protocol.ofName?` — the protocol of its exact written name.
-/

namespace Switchboard

/-- What an endpoint speaks. -/
inductive Protocol where
  /-- JSON over HTTP. -/
  | rest
  /-- Messages over HTTP/2, described by the server itself. -/
  | grpc
  /-- XML envelopes over HTTP. -/
  | soap
  /-- Form fields over HTTP. -/
  | form
  deriving DecidableEq, Repr, Inhabited

namespace Protocol

/-- The written name of a protocol. -/
def name : Protocol → String
  | .rest => "rest"
  | .grpc => "grpc"
  | .soap => "soap"
  | .form => "form"

/-- All protocols. -/
def all : List Protocol := [.rest, .grpc, .soap, .form]

/-- The protocol with exactly the given written name. -/
def ofName? (s : String) : Option Protocol := all.find? fun p => p.name = s

/-- Whether a call is one plain HTTP exchange. -/
def isHttp (p : Protocol) : Bool := p ≠ .grpc

/-- The protocol that a person names: blanks around the name and the case of its
letters do not count, and the form protocol has a long name besides. -/
def parse (s : String) : Except Failure Protocol :=
  let word := Text.Ascii.lower (Text.trim s)
  match ofName? word with
  | some p => .ok p
  | none =>
    if word = "form-urlencoded" then .ok .form
    else .error (.validation ("unsupported endpoint type: " ++ word))

/-- Reads the written name. -/
def ofDocument? (d : Json.Document) (rules : Json.Document.Rules := .json) :
    Option Protocol := do
  ofName? (← d.case? rules)

@[simp] theorem ofName?_name (p : Protocol) : ofName? p.name = some p := by
  cases p <;> decide

end Protocol

end Switchboard
