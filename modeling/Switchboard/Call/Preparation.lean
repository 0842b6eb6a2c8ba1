import Switchboard.Call.Request
import Switchboard.Endpoint.Basic

/-!
# Preparing requests

The request that every attempt of a call makes, from the endpoint and what the
caller gives.

## Main definitions

* `methodFor` — the method that is called.
* `headersFor` — the headers that are sent.
* `CallRequest.prepare` — the request.
-/

namespace Switchboard

/-- The name of the header that announces the action to a SOAP service. -/
def soapActionName : String := "SOAPAction"

/-- The method that is called.  A gRPC call that names none calls the default
method of its endpoint. -/
def methodFor (e : Endpoint) (p : CallParams) : String :=
  let named := p.method.getD ""
  if e.protocol = .grpc ∧ named = "" then e.methodName.getD "" else named

/-- The headers with a SOAP action in place of any that the caller gave. -/
def withAction (action : String) (headers : Dictionary String) : Dictionary String :=
  Dictionary.insert soapActionName ("\"" ++ action ++ "\"")
    (headers.filter fun h => ¬ Text.Ascii.SameLetters h.1 soapActionName)

/-- The headers that are sent: none with a gRPC call, and the SOAP action with a
SOAP call. -/
def headersFor (e : Endpoint) (p : CallParams) : Dictionary String :=
  match e.protocol, p.soapAction with
  | .grpc, _ => []
  | .soap, some action => withAction action p.headers
  | _, _ => p.headers

/-- The request that every attempt of a call makes. -/
def CallRequest.prepare (e : Endpoint) (p : CallParams) : CallRequest where
  deadline := e.timeout.deadline
  method := methodFor e p
  headers := headersFor e p
  body := p.body

end Switchboard
