import Switchboard.Duration
import Switchboard.Json.Printer

/-!
# Requests

What a caller asks for, and what a client is handed for one attempt.

## Main definitions

* `RequestBody` — what a request carries.
* `CallParams` — what the caller gives.
* `CallParams.ofMap` — the parameters in a map of JSON values.
* `CallRequest` — what a client is handed for one attempt.
* `CallRequest.header?` — the value of a header, whatever its letter case.
-/

namespace Switchboard

open Json

/-- What a request carries. -/
inductive RequestBody where
  /-- Nothing. -/
  | empty
  /-- Bytes, sent as they are. -/
  | bytes (bs : Bytes)
  /-- A text, sent as it is. -/
  | text (s : String)
  /-- A value, which each protocol writes in its own way. -/
  | json (v : Value)
  deriving Repr, Inhabited

namespace RequestBody

/-- The body that a JSON value asks for: null is no body, a text is sent as it
is. -/
def ofValue : Value → RequestBody
  | .null => .empty
  | .string s => .text s
  | v => .json v

/-- Whether there is no body. -/
def isEmpty : RequestBody → Bool
  | .empty => true
  | _ => false

end RequestBody

/-- What the caller gives for one call. -/
structure CallParams where
  /-- The HTTP verb, SOAP operation or gRPC method. -/
  method : Option String
  /-- What the request carries. -/
  body : RequestBody
  /-- The headers to send. -/
  headers : Dictionary String
  /-- The action to announce to a SOAP service. -/
  soapAction : Option String
  deriving Repr, Inhabited

namespace CallParams

/-- The parameters of a caller that gives none. -/
def none : CallParams := ⟨.none, .empty, [], .none⟩

/-- The text members of an object. -/
def textMembers (ms : List (String × Value)) : Dictionary String :=
  ms.filterMap fun m => m.2.string?.map fun s => (m.1, s)

/-- The parameters in a map of JSON values; what has the wrong type is
ignored. -/
def ofMap (m : Dictionary Value) : CallParams where
  method := (Dictionary.get? "method" m).bind Value.string?
  body := ((Dictionary.get? "body" m).map RequestBody.ofValue).getD .empty
  headers := (((Dictionary.get? "headers" m).bind Value.object?).map textMembers).getD []
  soapAction := (Dictionary.get? "soapAction" m).bind Value.string?

/-- The parameters with another method. -/
def withMethod (p : CallParams) (m : String) : CallParams := { p with method := some m }

/-- The parameters with another body. -/
def withBody (p : CallParams) (b : RequestBody) : CallParams := { p with body := b }

/-- The parameters with a header set. -/
def withHeader (p : CallParams) (name value : String) : CallParams :=
  { p with headers := Dictionary.insert name value p.headers }

/-- The parameters with another SOAP action. -/
def withSoapAction (p : CallParams) (a : String) : CallParams :=
  { p with soapAction := some a }

end CallParams

/-- What a client is handed for one attempt. -/
structure CallRequest where
  /-- The limit on the attempt, if there is one. -/
  deadline : Option Duration
  /-- The HTTP verb, SOAP operation or gRPC method; may be empty. -/
  method : String
  /-- The headers to send. -/
  headers : Dictionary String
  /-- What the request carries. -/
  body : RequestBody
  deriving Repr, Inhabited

namespace CallRequest

/-- The value of a header, whatever the case of the letters in its name; of
several such headers the first in the order of the names counts. -/
def header? (r : CallRequest) (name : String) : Option String :=
  (r.headers.find? fun e => Text.Ascii.SameLetters e.1 name).map Prod.snd

end CallRequest

end Switchboard
