import Switchboard.Call.Attempt
import Switchboard.Grpc.Channel
import Switchboard.Grpc.Payload
import Switchboard.Grpc.Reflection
import Switchboard.Http.Header
import Switchboard.Session

/-!
# gRPC calls

A method is looked up on its server, the body of the request becomes a message of
the type that it takes, and one exchange follows.  How the exchange ended is told
by a status; a status that is not good makes a response too, one that reports a
failure.

## Main definitions

* `Metadata`, `Outgoing`, `Incoming` — what goes over the wire.
* `Server σ` — a server as it is seen over a channel.
* `Channel.call` — a call.
-/

namespace Switchboard.Grpc

open Proto

/-- Names and values that come with a response or a status. -/
abbrev Metadata := List (String × Bytes)

/-- A request to a method as it goes over the wire. -/
structure Outgoing where
  /-- The path of the method, without a fragment. -/
  path : String
  /-- The encoded message. -/
  message : Bytes
  /-- How long the exchange may take, as the server is told. -/
  deadline : Option Duration
  deriving Repr, Inhabited

/-- What comes back: a message, or a status that tells why there is none. -/
inductive Incoming where
  /-- The encoded message. -/
  | message (encoded : Bytes) (metadata : Metadata)
  /-- The status. -/
  | status (s : Status) (metadata : Metadata)
  deriving Inhabited

/-- A server as it is seen over a channel; `σ` is what it remembers between one
exchange and the next. -/
structure Server (σ : Type) where
  /-- What comes of a query about its types. -/
  describe : Channel → Query → σ → Timed (Except Status Answer) × σ
  /-- What comes of a request to a method. -/
  invoke : Channel → Outgoing → σ → Timed Incoming × σ

/-- The status of a request to a server that cannot be reached. -/
def notReached : Status := ⟨.unavailable, "tcp connect error"⟩

/-- A server that cannot be reached. -/
def absent : Server Unit where
  describe _ _ s := (.now (.error notReached), s)
  invoke _ _ s := (.now (.status notReached []), s)

/-- The status of the responses that carry a message. -/
def statusOk : UInt16 := 200

/-- The status of the responses that report a failure. -/
def statusFailed : UInt16 := 500

/-- The response that reports a status. -/
def reported (s : Status) (metadata : Metadata) : CallResponse :=
  ⟨statusFailed, Http.receivedHeaders metadata, .empty, some s.failure⟩

/-- The status of a message that cannot be read. -/
def unreadable : Status := ⟨.internal, "failed to decode message"⟩

/-- The attempt that comes of what came back. -/
def attemptOf (p : Pool) (output : MessageType) : Incoming → Attempt
  | .status s metadata => .ok (reported s metadata)
  | .message encoded metadata =>
    match p.decode? output encoded with
    | none => .ok (reported unreadable [])
    | some m => do
      let body ← responseMap p output m
      return ⟨statusOk, Http.receivedHeaders metadata, .grpc body, none⟩

/-- A method that takes or gives any number of messages. -/
def streaming (name : String) : Failure :=
  .validation ("streaming gRPC methods are not supported: " ++ name)

/-- The path of the method that a request names. -/
def pathOf (r : CallRequest) : Except Failure MethodPath := do
  let path ← MethodPath.parse r.method
  if isPath path.path.toList then .ok path else .error (MethodPath.malformed r.method)

/-- The message type with a name that is declared in the pool. -/
def typeOf (p : Pool) (name : String) : MessageType := (p.message? name).getD ⟨name, []⟩

namespace Channel

variable {σ : Type}

/-- A call over a channel. -/
def conversation (server : Server σ) (ch : Channel) (r : CallRequest) :
    ExceptT Failure (Session σ) CallResponse := do
  let path ← liftExcept (pathOf r)
  let ask (q : Query) : Session σ (Except Failure (List Bytes)) := do
    return heard (← Session.exchange (server.describe ch q))
  let (pool, method) ← lookUp ask path
  if method.clientStreaming ∨ method.serverStreaming then
    throw (streaming r.method)
  let input := typeOf pool method.input
  let message ← liftExcept (requestMessage pool input r.body)
  let target := String.ofList (withoutFragment path.path.toList)
  let outgoing : Outgoing := ⟨target, pool.encode input message, r.deadline⟩
  let incoming ← ExceptT.lift (Session.exchange (server.invoke ch outgoing))
  liftExcept (attemptOf pool (typeOf pool method.output) incoming)

/-- What a call over a channel comes to, and when.  There is as much time for it as the
request says, or as a timer makes of that. -/
def call (server : Server σ) (ch : Channel) (r : CallRequest) (s : σ)
    (left : Option Duration := r.deadline) : Behaviour × σ :=
  Session.run (conversation server ch r).run left s

end Channel

end Switchboard.Grpc
