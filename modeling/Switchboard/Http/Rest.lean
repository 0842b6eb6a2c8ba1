import Switchboard.Endpoint.Basic
import Switchboard.Call.Request
import Switchboard.Form
import Switchboard.Http.Exchange

/-!
# Plain HTTP calls

REST and form endpoints are called with one plain exchange.

## Main definitions

* `RestClient` — where the requests go and how their bodies are written.
* `RestClient.request` — the request on the wire.
-/

namespace Switchboard.Http

/-- A client for plain HTTP calls. -/
structure RestClient where
  /-- Where the requests go. -/
  url : Url
  /-- Whether values are sent as form fields instead of JSON. -/
  asForm : Bool
  deriving DecidableEq, Repr, Inhabited

/-- The name of the header that tells the form of a body. -/
def contentTypeName : String := "content-type"

namespace RestClient

/-- The verb of a call that names none. -/
def standardVerb : String := "GET"

/-- The verb of a call. -/
def verb (r : CallRequest) : String := if r.method = "" then standardVerb else r.method

/-- The bytes of a body, if there is one. -/
def body (c : RestClient) : RequestBody → Except Failure (Option Bytes)
  | .empty => .ok none
  | .bytes bs => .ok (some bs)
  | .text s => .ok (some (Text.Utf8.encode s))
  | .json v => if c.asForm then (Form.body v).map some else .ok (some v.renderBytes)

/-- What the content of a body is called, unless the caller names it. -/
def contentType (c : RestClient) : String :=
  if c.asForm then "application/x-www-form-urlencoded" else "application/json"

/-- The request on the wire.  A malformed verb is reported before a body that
cannot be written, and that before a malformed header. -/
def request (c : RestClient) (r : CallRequest) : Except Failure Request := do
  if ¬ IsToken (verb r) then .error (.validation ("invalid HTTP method: " ++ verb r))
  let body ← c.body r.body
  let headers ← wireHeaders r.headers
  let headers :=
    if body.isSome ∧ (r.header? contentTypeName).isNone then
      Dictionary.insert contentTypeName c.contentType headers
    else headers
  return ⟨verb r, c.url, headers, body, r.deadline⟩

end RestClient

end Switchboard.Http
