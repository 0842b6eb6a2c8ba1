import Switchboard.Call.Request
import Switchboard.Http.Rest
import Switchboard.Soap.Envelope
import Switchboard.Soap.Fault

/-!
# SOAP calls

A SOAP endpoint is called with one posted envelope.  A fault in the response is
a failure, whatever the status says.

## Main definitions

* `Client` — where the requests go and the namespace of the operations.
* `Client.request` — the request on the wire.
* `attemptOf` — the attempt that an exchange stands for.
-/

namespace Switchboard.Soap

open Http (contentTypeName)

/-- A client for SOAP calls. -/
structure Client where
  /-- Where the requests go. -/
  url : Url
  /-- The namespace of the operations. -/
  ns : String
  deriving DecidableEq, Repr, Inhabited

/-- Only an object can be wrapped into an envelope. -/
def unsupported : Failure :=
  .encode "SOAP body must be a JSON object, raw XML text or bytes"

/-- The bytes that are posted. -/
def payload (ns operation : String) : RequestBody → Except Failure Bytes
  | .bytes bs => .ok bs
  | .text s => .ok (Text.Utf8.encode s)
  | .empty => (envelope operation ns []).map Text.Utf8.encode
  | .json (.object params) => (envelope operation ns params).map Text.Utf8.encode
  | .json _ => .error unsupported

/-- What the content of an envelope is called. -/
def contentType : String := "text/xml; charset=utf-8"

/-- The name of the header that announces the action, on the wire. -/
def actionName : String := "soapaction"

/-- The headers on the wire: the caller's, and the form of the content and the
action where the caller gives none. -/
def headers (operation : String) (given : Dictionary String) :
    Except Failure (Dictionary String) := do
  let hs ← Http.wireHeaders given
  let hs := if Dictionary.contains contentTypeName hs then hs
    else Dictionary.insert contentTypeName contentType hs
  let action := "\"" ++ operation ++ "\""
  if Dictionary.contains actionName hs then .ok hs
  else if Http.IsHeaderValue action then .ok (Dictionary.insert actionName action hs)
  else .error (.validation ("invalid SOAP operation name: " ++ operation))

/-- The request on the wire. -/
def Client.request (c : Client) (r : CallRequest) : Except Failure Http.Request := do
  let body ← payload c.ns r.method r.body
  let headers ← headers r.method r.headers
  return ⟨"POST", c.url, headers, some body, r.deadline⟩

/-- The response with the fault that its body holds, if it holds one. -/
def withFault (r : CallResponse) : CallResponse :=
  match r.body with
  | .rest bs =>
    { r with
      body := .soap bs
      failure :=
        match fault? bs with
        | some f => some (.protocol f.message)
        | none => r.failure }
  | _ => r

/-- The attempt that an exchange stands for. -/
def attemptOf : Http.Exchange → Attempt
  | .ok r => .ok (withFault r.response)
  | .error t => .error t.failure

end Switchboard.Soap
