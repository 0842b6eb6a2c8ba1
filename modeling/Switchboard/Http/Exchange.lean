import Switchboard.Call.Attempt
import Switchboard.Http.Header
import Switchboard.Timed
import Switchboard.Url.Basic

/-!
# HTTP exchanges

A request goes over the wire and a response comes back, or something goes wrong
on the way.

## Main definitions

* `Request`, `Reply` — what goes over the wire.
* `Trouble` — what can go wrong.
* `Transport σ` — the network.
* `send` — an exchange.
* `Reply.response` — the response that a reply stands for.
-/

namespace Switchboard.Http

/-- A request as it goes over the wire. -/
structure Request where
  /-- The verb. -/
  verb : String
  /-- Where it goes. -/
  url : Url
  /-- The headers, with their names in lower case. -/
  headers : Dictionary String
  /-- The body, if there is one. -/
  body : Option Bytes
  /-- How long the exchange may take. -/
  deadline : Option Duration
  deriving Repr, Inhabited

/-- What can go wrong with an exchange. -/
inductive Trouble where
  /-- Its deadline passed. -/
  | timedOut
  /-- The request cannot be sent there at all. -/
  | notBuilt
  /-- The server cannot be reached. -/
  | notConnected
  /-- The body broke off. -/
  | bodyBroken
  /-- Anything else. -/
  | broken
  deriving DecidableEq, Repr, Inhabited

/-- The failure that the trouble is reported as, without what the library says of its cause. -/
def Trouble.failure : Trouble → Failure
  | .timedOut => .timeout "HTTP request timed out"
  | .notBuilt => .clientInit "failed to build HTTP request"
  | .notConnected => .transport "HTTP connection failure"
  | .bodyBroken => .transport "failed to read HTTP response body"
  | .broken => .transport "request failed"

/-- A response as it comes over the wire. -/
structure Reply where
  /-- The status. -/
  status : UInt16
  /-- The headers, in the order they came. -/
  headers : List (String × Bytes)
  /-- The body, if it came to its end. -/
  body : Except Trouble Bytes

/-- What came of an exchange. -/
abbrev Exchange := Except Trouble Reply

/-- The network; `σ` is what it remembers between one exchange and the next. -/
structure Transport (σ : Type) where
  /-- What comes of a request, and when. -/
  exchange : Request → σ → Timed Exchange × σ

/-- A network on which no server can be reached. -/
def unreachable : Transport Unit where
  exchange _ s := (.now (.error .notConnected), s)

/-- An exchange; a request that cannot be sent anywhere stays away from the
network. -/
def send {σ : Type} (t : Transport σ) (r : Request) (s : σ) : Timed Exchange × σ :=
  if r.url.isHttp then t.exchange r s else (.now (.error .notBuilt), s)

/-- What a status that reports a failure says. -/
def statusFailure (status : UInt16) (body : Bytes) : Failure :=
  .protocol ("HTTP " ++ toString status.toNat ++ ": " ++ Text.Utf8.decodeLossy body)

/-- The response that a reply stands for: a status of 400 and above reports a
failure, and so does a body that broke off. -/
def Reply.response (r : Reply) : CallResponse where
  status := r.status
  headers := receivedHeaders r.headers
  body :=
    match r.body with
    | .ok bs => .rest bs
    | .error _ => .empty
  failure :=
    match r.body with
    | .ok bs => if 400 ≤ r.status then some (statusFailure r.status bs) else none
    | .error t => some t.failure

/-- The attempt that an exchange stands for. -/
def attemptOf : Exchange → Attempt
  | .ok r => .ok r.response
  | .error t => .error t.failure

end Switchboard.Http
