import Switchboard.Call.Attempt
import Switchboard.Fingerprint
import Switchboard.Text.Quoted

/-!
# The registry of clients

A client is built when an endpoint is first called and kept under its
fingerprint until it is evicted.  An evicted client is closed: it takes no new
request, while requests that it has taken run to their end.

## Main definitions

* `Client δ` — a client that was built; `δ` is what does its work.
* `Registry δ` — the clients that are kept, and which ones have been closed.
* `Registry.lookup`, `Registry.enterMissing`, `Registry.take`, `Registry.drain`,
  `Registry.close` — the steps that no other caller can interrupt.
* `Registry.getOrCreate`, `Registry.remove`, `Registry.clear` — the operations.
-/

namespace Switchboard

/-- A client and what it was built for. -/
structure Client (δ : Type) where
  /-- The number of the client, in the order in which clients were built. -/
  id : Nat
  /-- The name under which it is kept. -/
  fingerprint : Fingerprint
  /-- The endpoint that it was built for. -/
  endpoint : Endpoint
  /-- What does its work. -/
  driver : δ
  deriving Repr, Inhabited

/-- The clients that are kept. -/
structure Registry (δ : Type) where
  /-- The clients, under their fingerprints. -/
  entries : Dictionary (Client δ)
  /-- How many clients have been built. -/
  built : Nat
  /-- The numbers of the clients that have been closed. -/
  closed : List Nat
  deriving Repr, Inhabited

namespace Registry

variable {σ δ : Type}

/-- No client has been built. -/
def empty : Registry δ := ⟨[], 0, []⟩

/-! ### Steps -/

/-- The client under a fingerprint. -/
def lookup (f : Fingerprint) (r : Registry δ) : Option (Client δ) :=
  Dictionary.get? f.digits r.entries

/-- What a failure to build a client is reported as: one that blames the
endpoint or the client passes through. -/
def buildFailure (e : Endpoint) (f : Failure) : Failure :=
  match f.kind with
  | .validation | .clientInit => f
  | _ => .clientInit
      ("failed to create client for endpoint '" ++ e.friendlyName ++ "': " ++ f.message)

/-- The registry with a new client under a fingerprint, and that client. -/
def enter (e : Endpoint) (f : Fingerprint) (driver : δ) (r : Registry δ) :
    Client δ × Registry δ :=
  let c : Client δ := ⟨r.built + 1, f, e, driver⟩
  (c, { r with entries := Dictionary.insert f.digits c r.entries, built := r.built + 1 })

/-- Looks for a client again and builds it if it is still missing. -/
def enterMissing (create : σ → Except Failure δ × σ) (e : Endpoint) (f : Fingerprint)
    (r : Registry δ) (s : σ) : Except Failure (Client δ) × Registry δ × σ :=
  match r.lookup f with
  | some c => (.ok c, r, s)
  | none =>
    match create s with
    | (.ok driver, s) => (.ok (r.enter e f driver).1, (r.enter e f driver).2, s)
    | (.error x, s) => (.error (buildFailure e x), r, s)

/-- Takes the client under a fingerprint out of the registry. -/
def take (f : Fingerprint) (r : Registry δ) : Option (Client δ) × Registry δ :=
  (r.lookup f, { r with entries := Dictionary.erase f.digits r.entries })

/-- Takes all clients out of the registry. -/
def drain (r : Registry δ) : List (Client δ) × Registry δ :=
  (r.entries.map Prod.snd, { r with entries := [] })

/-- Whether a client has been closed. -/
def isClosed (c : Client δ) (r : Registry δ) : Bool := r.closed.contains c.id

/-- Closes a client, if it has not been closed before. -/
def close (c : Client δ) (r : Registry δ) : Registry δ :=
  if r.isClosed c then r else { r with closed := c.id :: r.closed }

/-! ### Operations -/

/-- The client of an endpoint, which is built if there is none. -/
def getOrCreate (create : σ → Except Failure δ × σ) (e : Endpoint) (config : Connection)
    (r : Registry δ) (s : σ) : Except Failure (Client δ) × Registry δ × σ :=
  let f := Fingerprint.of e config
  match r.lookup f with
  | some c => (.ok c, r, s)
  | none => r.enterMissing create e f s

/-- The client of an endpoint, if there is one. -/
def get? (e : Endpoint) (config : Connection) (r : Registry δ) : Option (Client δ) :=
  r.lookup (.of e config)

/-- Whether an endpoint has a client. -/
def contains (e : Endpoint) (config : Connection) (r : Registry δ) : Bool :=
  (r.get? e config).isSome

/-- Evicts the client of an endpoint; tells whether there was one. -/
def remove (e : Endpoint) (config : Connection) (r : Registry δ) : Bool × Registry δ :=
  match r.take (.of e config) with
  | (some c, r) => (true, r.close c)
  | (none, r) => (false, r)

/-- Evicts all clients; tells how many there were. -/
def clear (r : Registry δ) : Nat × Registry δ :=
  let (clients, r) := r.drain
  (clients.length, clients.foldl (fun r c => r.close c) r)

/-- The number of clients that are kept. -/
def size (r : Registry δ) : Nat := r.entries.length

/-- The numbers of the closed clients, in increasing order. -/
def closedIds (r : Registry δ) : List Nat := r.closed.mergeSort (· ≤ ·)

/-! ### Requests -/

/-- What a request to an evicted client comes to. -/
def evicted (e : Endpoint) : Failure :=
  .clientInit ("client for endpoint '" ++ e.friendlyName ++ "' was evicted")

/-- What a client does with a request, where `perform` is what its driver does
with it: once closed, it refuses. -/
def request (perform : σ → Behaviour × σ) (c : Client δ) (r : Registry δ) (s : σ) :
    Behaviour × σ :=
  if r.isClosed c then (.now (.error (evicted c.endpoint)), s) else perform s

/-! ### Texts for people -/

/-- The text of the registry. -/
def text (r : Registry δ) : String :=
  "CallerCache \x7b len: " ++ toString r.size ++ " \x7d"

/-- The word for a protocol. -/
def protocolWord : Protocol → String
  | .rest => "Rest"
  | .grpc => "Grpc"
  | .soap => "Soap"
  | .form => "FormUrlEncoded"

/-- The text of a client. -/
def clientText (c : Client δ) (r : Registry δ) : String :=
  "CachedClient \x7b fingerprint: Fingerprint(" ++ Text.quoted c.fingerprint.digits
    ++ "), endpoint: " ++ Text.quoted c.endpoint.friendlyName
    ++ ", protocol: " ++ protocolWord c.endpoint.protocol
    ++ ", closed: " ++ (if r.isClosed c then "true" else "false") ++ " \x7d"

@[simp] theorem lookup_empty (f : Fingerprint) : lookup f (empty : Registry δ) = none := rfl

/-- A client that has just been entered is found under its fingerprint. -/
@[simp] theorem lookup_enter (e : Endpoint) (f : Fingerprint) (d : δ) (r : Registry δ) :
    (r.enter e f d).2.lookup f = some (r.enter e f d).1 := by
  simp [enter, lookup, Dictionary.get?_insert]

end Registry

end Switchboard
