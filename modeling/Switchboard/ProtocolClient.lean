import Switchboard.Grpc.Client
import Switchboard.Http.Rest
import Switchboard.Orchestrator
import Switchboard.Setup
import Switchboard.Soap.Client
import Switchboard.Soap.Namespace

/-!
# Clients by protocol

The client of an endpoint is one of three, as its protocol demands.

## Main definitions

* `ProtocolClient` — a client for one endpoint.
* `ProtocolClient.setUp` — the client of an endpoint.
* `Network σ` — what clients reach.
* `ProtocolClient.perform` — what a client does with a request.
* `networked` — the clients that reach a network.
-/

namespace Switchboard

/-- A client for one endpoint. -/
inductive ProtocolClient where
  /-- A client for plain HTTP calls. -/
  | rest (c : Http.RestClient)
  /-- A client for SOAP calls. -/
  | soap (c : Soap.Client)
  /-- A client for gRPC calls. -/
  | grpc (c : Grpc.Channel)
  deriving Repr, Inhabited

/-- What clients reach; `σ` is what it remembers between one exchange and the
next. -/
structure Network (σ : Type) where
  /-- The servers that speak HTTP. -/
  http : Http.Transport σ
  /-- The servers that speak gRPC. -/
  grpc : Grpc.Server σ
  /-- The timer of those who wait for them. -/
  timer : Timer σ

/-- A network on which no server can be reached. -/
def isolated : Network Unit := ⟨Http.unreachable, Grpc.absent, .ticking⟩

namespace ProtocolClient

variable {σ : Type}

/-- The URL of an endpoint that is called over HTTP. -/
def urlOf (e : Endpoint) : Except SetupTrouble Url :=
  match Url.ofChars? (Text.trim e.url).toList with
  | some u => .ok u
  | none => .error (.refused (.validation ("invalid endpoint URL " ++ e.url)))

/-- The client of an endpoint. -/
def setUp (fs : FileSystem) (e : Endpoint) (c : Connection) :
    Except SetupTrouble ProtocolClient := do
  match e.protocol with
  | .rest =>
    let url ← urlOf e
    Http.setUp fs c none
    return .rest ⟨url, false⟩
  | .form =>
    let url ← urlOf e
    Http.setUp fs c none
    return .rest ⟨url, true⟩
  | .soap =>
    let url ← urlOf e
    Http.setUp fs c none
    return .soap ⟨url, Soap.namespaceFor e.wsdlUrl⟩
  | .grpc => return .grpc (← Grpc.Channel.build fs e c)

/-- What a client does with a request, and when. -/
def perform (net : Network σ) (p : ProtocolClient) (r : CallRequest) (s : σ) : Behaviour × σ :=
  match p with
  | .rest c =>
    match c.request r with
    | .error f => (.now (.error f), s)
    | .ok q => ((Http.send net.http q s).1.map Http.attemptOf, (Http.send net.http q s).2)
  | .soap c =>
    match c.request r with
    | .error f => (.now (.error f), s)
    | .ok q => ((Http.send net.http q s).1.map Soap.attemptOf, (Http.send net.http q s).2)
  | .grpc ch => ch.call net.grpc r s (r.deadline.map (net.timer.lasts s))

end ProtocolClient

/-- The clients that are set up from files and reach a network. -/
def networked {σ : Type} (fs : FileSystem) (net : Network σ) : Backend σ ProtocolClient where
  create e c s := ((ProtocolClient.setUp fs e c).mapError SetupTrouble.failure, s)
  perform c r s := c.driver.perform net r s
  timer := net.timer

end Switchboard
