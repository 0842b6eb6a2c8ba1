import Switchboard.Endpoint.Protocol
import Switchboard.Endpoint.Timeout

/-!
# Endpoints

One external service and how to call it.

## Main definitions

* `Endpoint` — the description of a service.
* `Endpoint.make` — an endpoint with everything optional left out.
* `Endpoint.validate` — the check that every call begins with.
* `Endpoint.toJson`, `Endpoint.ofDocument?` — the written form.
-/

namespace Switchboard

/-- The description of a service. -/
structure Endpoint where
  /-- The name that people and catalogs use for it. -/
  friendlyName : String
  /-- Where it is. -/
  url : String
  /-- What it speaks. -/
  protocol : Protocol
  /-- How long one attempt may take. -/
  timeout : Timeout
  /-- Where the description of a SOAP service is; never fetched, only a hint at
  its namespace. -/
  wsdlUrl : Option String
  /-- The gRPC method called when a call names none. -/
  methodName : Option String
  /-- How often a call that ran out of time is tried again. -/
  maxRetries : UInt32
  deriving DecidableEq, Repr, Inhabited

namespace Endpoint

/-- An endpoint with everything optional left out. -/
def make (friendlyName url : String) (protocol : Protocol) : Endpoint :=
  { friendlyName, url, protocol, timeout := .standard, wsdlUrl := none,
    methodName := none, maxRetries := 0 }

/-- The number of retries nearest to an integer. -/
def clampRetries (n : Int) : UInt32 :=
  UInt32.ofNat (min n.toNat (2 ^ 32 - 1))

/-- The endpoint with another timeout. -/
def withTimeout (e : Endpoint) (t : Timeout) : Endpoint := { e with timeout := t }

/-- The endpoint with the given service description. -/
def withWsdlUrl (e : Endpoint) (url : String) : Endpoint := { e with wsdlUrl := some url }

/-- The endpoint with the given default method. -/
def withMethodName (e : Endpoint) (m : String) : Endpoint := { e with methodName := some m }

/-- The endpoint with the number of retries nearest to `n`. -/
def withMaxRetries (e : Endpoint) (n : Int) : Endpoint :=
  { e with maxRetries := clampRetries n }

/-- The friendly name and the address may not be blank; a blank name is reported
first. -/
def validate (e : Endpoint) : Except Failure Unit :=
  if Text.IsBlank e.friendlyName then
    .error (.validation "endpoint friendly name is required")
  else if Text.IsBlank e.url then .error (.validation "endpoint URL is required")
  else .ok ()

/-! ### Written form -/

open Json

/-- The names of the fields, in order. -/
def fieldNames : List String :=
  ["friendly_name", "url", "type", "timeout_ms", "wsdl_url", "method_name", "max_retries"]

/-- An endpoint is written with all its fields. -/
def toJson (e : Endpoint) : Value :=
  .ofMembers
    [("friendly_name", .string e.friendlyName), ("url", .string e.url),
     ("type", .string e.protocol.name), ("timeout_ms", .int e.timeout.millis),
     ("wsdl_url", .ofString? e.wsdlUrl), ("method_name", .ofString? e.methodName),
     ("max_retries", .nat e.maxRetries.toNat)]

/-- Reads the written form; only the name, the address and the protocol have to
be given. -/
def ofDocument? (d : Document) (rules : Document.Rules := .json) : Option Endpoint := do
  match ← d.record? fieldNames rules with
  | [name, url, type, timeout, wsdl, method, retries] =>
    return {
      friendlyName := ← Document.required? Document.text? name
      url := ← Document.required? Document.text? url
      protocol := ← Document.required? (Protocol.ofDocument? · rules) type
      timeout := ← Document.withDefault? .standard Timeout.ofDocument? timeout
      wsdlUrl := ← Document.withDefault? none (Document.optional? Document.text?) wsdl
      methodName := ← Document.withDefault? none (Document.optional? Document.text?) method
      maxRetries := ← Document.withDefault? 0
        (fun d => d.signed64?.map clampRetries) retries }
  | _ => none

end Endpoint

end Switchboard
