import Switchboard.Call.Response
import Switchboard.Json.Document
import Switchboard.Soap.Fields

/-!
# Reading response bodies

The body of a response becomes a JSON value, whatever it holds: what is neither
JSON nor an envelope is given as plain text, so that no call fails over its
answer's form.

## Main definitions

* `rawText bs` — the bytes as a text.
* `ResponseBody.value` — the value of a body.
-/

namespace Switchboard

open Json

/-- The bytes as a text. -/
def rawText (bs : Bytes) : Value := .string (Text.Utf8.decodeLossy bs)

/-- The value of a body: JSON or the fields of an envelope where it is that, the
plain text otherwise, and null where there is nothing. -/
def ResponseBody.value : ResponseBody → Value
  | .empty => .null
  | .grpc message => .object message
  | .rest [] => .null
  | .soap [] => .null
  | .rest bs => (Value.ofBytes? bs).getD (rawText bs)
  | .soap bs =>
    match Soap.fields bs with
    | .ok found => .object (Dictionary.mapValues .string found)
    | .error _ => rawText bs

end Switchboard
