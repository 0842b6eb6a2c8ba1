import Switchboard.Json.Record

/-!
# Failures

Why a call, a configuration or a conversion did not succeed.  The kind decides
what happens next, the detail is for people.  What a library says of the cause, after a
colon at the end of the detail, is left out throughout.

## Main definitions

* `Failure.Kind` — the eight kinds.
* `Failure` — a kind and its detail.
* `Failure.message` — the text shown to people.
* `Failure.toJson`, `Failure.ofDocument?` — the written form.
-/

namespace Switchboard

/-- What went wrong. -/
inductive Failure.Kind where
  /-- The endpoint or a name in the call is malformed. -/
  | validation
  /-- The configuration cannot be used. -/
  | config
  /-- The client for an endpoint could not be set up, or has been evicted. -/
  | clientInit
  /-- A deadline passed. -/
  | timeout
  /-- The other side answered with a failure. -/
  | protocol
  /-- The exchange broke down. -/
  | transport
  /-- The request could not be written. -/
  | encode
  /-- The response could not be read. -/
  | decode
  deriving DecidableEq, Repr, Inhabited

/-- A kind of failure and what is known about it. -/
structure Failure where
  /-- What went wrong. -/
  kind : Failure.Kind
  /-- What is known about it. -/
  detail : String
  deriving DecidableEq, Repr, Inhabited

namespace Failure

/-- The short name of a kind, for programs. -/
def Kind.name : Kind → String
  | .validation => "validation"
  | .config => "config"
  | .clientInit => "client_init"
  | .timeout => "timeout"
  | .protocol => "protocol"
  | .transport => "transport"
  | .encode => "encode"
  | .decode => "decode"

/-- The name of a kind in the written form. -/
def Kind.tag : Kind → String
  | .validation => "Validation"
  | .config => "Config"
  | .clientInit => "ClientInit"
  | .timeout => "Timeout"
  | .protocol => "Protocol"
  | .transport => "Transport"
  | .encode => "Encode"
  | .decode => "Decode"

/-- All kinds. -/
def Kind.all : List Kind :=
  [.validation, .config, .clientInit, .timeout, .protocol, .transport, .encode, .decode]

/-- The kind with the given tag. -/
def Kind.ofTag? (s : String) : Option Kind := Kind.all.find? fun k => k.tag = s

/-- The kind with the given short name. -/
def Kind.ofName? (s : String) : Option Kind := Kind.all.find? fun k => k.name = s

/-- What stands in front of the detail in a message.  A failure reported by the
other side speaks for itself. -/
def Kind.heading : Kind → String
  | .validation => "Validation error: "
  | .config => "Configuration error: "
  | .clientInit => "Client initialization error: "
  | .timeout => "Timeout: "
  | .protocol => ""
  | .transport => "Transport error: "
  | .encode => "Encode error: "
  | .decode => "Decode error: "

/-- The text shown to people. -/
def message (f : Failure) : String := f.kind.heading ++ f.detail

/-- Only a failure of this kind earns another attempt. -/
def isTimeout (f : Failure) : Bool := f.kind = .timeout

/-- A malformed endpoint or name. -/
def validation (detail : String) : Failure := ⟨.validation, detail⟩

/-- An unusable configuration. -/
def config (detail : String) : Failure := ⟨.config, detail⟩

/-- A client that could not be set up. -/
def clientInit (detail : String) : Failure := ⟨.clientInit, detail⟩

/-- A deadline that passed. -/
def timeout (detail : String) : Failure := ⟨.timeout, detail⟩

/-- A failure reported by the other side. -/
def protocol (detail : String) : Failure := ⟨.protocol, detail⟩

/-- A broken exchange. -/
def transport (detail : String) : Failure := ⟨.transport, detail⟩

/-- A request that cannot be written. -/
def encode (detail : String) : Failure := ⟨.encode, detail⟩

/-- A response that cannot be read. -/
def decode (detail : String) : Failure := ⟨.decode, detail⟩

/-! ### Written form -/

open Json

/-- A failure is written with its tag and its detail. -/
def toJson (f : Failure) : Value :=
  .ofMembers [("type", .string f.kind.tag), ("message", .string f.detail)]

/-- Reads the written form. -/
def ofDocument? (d : Document) : Option Failure := do
  match ← d.record? ["type", "message"] with
  | [type, message] =>
    let tag ← Document.required? Document.case? type
    let kind ← Kind.ofTag? tag
    let detail ← Document.required? Document.text? message
    return ⟨kind, detail⟩
  | _ => none

@[simp] theorem Kind.ofTag?_tag (k : Kind) : Kind.ofTag? k.tag = some k := by
  cases k <;> decide

@[simp] theorem Kind.ofName?_name (k : Kind) : Kind.ofName? k.name = some k := by
  cases k <;> decide

end Failure

end Switchboard
