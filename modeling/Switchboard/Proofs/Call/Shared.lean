import Switchboard.ProtocolClient
import Switchboard.Proofs.Call.Attempts
import Switchboard.Proofs.Xml.Reference

/-!
# Clients that endpoints share

Endpoints with the same name, address and protocol share one client.  What a client
takes from the endpoint that it is built for stays with it, and is used in the calls to
all of them.

## Main definitions

* `Unobservable` — nobody can tell which endpoint the client was built for.
* `listening` — a network that keeps what is sent.

## Main results

* `call_of_lookup`, `call_of_empty` — a call with a client that is there, and with one
  that is not.
* `unobservable_iff` — **when two endpoints can share a client**: if they do not send
  SOAP requests with different namespaces.
-/

namespace Switchboard

variable {σ δ : Type}

/-! ### What a call leaves behind -/

/-- What can be seen of a call: its report, and what the surroundings remember. -/
def seenOf (o : Option Report × Registry δ × σ) : Option Report × σ := (o.1, o.2.2)

/-- Nobody can tell from a call to `e'` that there was a call to `e` before it: neither
from its report nor from anything that a network remembers, such as what was sent. -/
def Unobservable (fs : FileSystem) (config : Connection) (e e' : Endpoint) : Prop :=
  ∀ (σ : Type) (net : Network σ) (s : σ) (params params' : CallParams),
    let first := call (networked fs net) e params config .empty s
    seenOf (call (networked fs net) e' params' config first.2.1 first.2.2)
      = seenOf (call (networked fs net) e' params' config .empty first.2.2)

section

variable {b : Backend σ δ} {e e' : Endpoint} {config : Connection} {params : CallParams}
  {r : Registry δ} {s : σ}

/-- The attempts of a call with a client. -/
def attemptsWith (b : Backend σ δ) (e : Endpoint) (params : CallParams) (r : Registry δ)
    (c : Client δ) (s : σ) : Option Run × σ :=
  attempts ⟨e.maxRetries⟩ b.timer e.timeout.deadline (b.stepOf r c (.prepare e params)) 0 s

/-- A call with a client that is there. -/
theorem call_of_lookup {c : Client δ} (hvalid : e.validate = .ok ())
    (h : r.lookup (.of e config) = some c) :
    call b e params config r s
      = ((attemptsWith b e params r c s).1.map Run.report, r,
          (attemptsWith b e params r c s).2) := by
  have hclient : r.getOrCreate (b.create e config) e config s = (.ok c, r, s) := by
    rw [Registry.getOrCreate, h]
  exact call_of_client hvalid hclient rfl

/-- A call with a client that is built for it. -/
theorem call_of_empty {d : δ} {s' : σ} (hvalid : e.validate = .ok ())
    (h : b.create e config s = (.ok d, s')) :
    let r' := (Registry.empty.enter e (.of e config) d).2
    let c := (Registry.empty.enter e (.of e config) d).1
    call b e params config .empty s
      = ((attemptsWith b e params r' c s').1.map Run.report, r',
          (attemptsWith b e params r' c s').2) := by
  have hclient : Registry.empty.getOrCreate (b.create e config) e config s
      = (.ok (Registry.empty.enter e (.of e config) d).1,
          (Registry.empty.enter e (.of e config) d).2, s') := by
    rw [Registry.getOrCreate, Registry.lookup_empty]
    show Registry.enterMissing _ _ _ _ _ = _
    rw [Registry.enterMissing, Registry.lookup_empty, h]
  exact call_of_client hvalid hclient rfl

/-- A call for which no client can be built. -/
theorem call_of_empty_error {f : Failure} {s' : σ} (hvalid : e.validate = .ok ())
    (h : b.create e config s = (.error f, s')) :
    call b e params config .empty s
      = (some (.beforeCall (Registry.buildFailure e f)), .empty, s') := by
  refine call_of_error hvalid ?_
  rw [Registry.getOrCreate, Registry.lookup_empty]
  show Registry.enterMissing _ _ _ _ _ = _
  rw [Registry.enterMissing, Registry.lookup_empty, h]

/-- Clients that do the same with every request make the same attempts. -/
theorem attemptsWith_congr {r' : Registry δ} {c c' : Client δ} (hc : r.isClosed c = false)
    (hc' : r'.isClosed c' = false) (h : b.perform c = b.perform c') :
    attemptsWith b e params r c s = attemptsWith b e params r' c' s := by
  have hstep : b.stepOf r c (.prepare e params) = b.stepOf r' c' (.prepare e params) := by
    funext s
    rw [Backend.stepOf, Backend.stepOf, Registry.request, Registry.request, hc, hc', h]
    rfl
  rw [attemptsWith, attemptsWith, hstep]

end

/-! ### What a client takes from its endpoint -/

theorem fingerprint_congr {e e' : Endpoint} (hname : e.friendlyName = e'.friendlyName)
    (hurl : e.url = e'.url) (hprotocol : e.protocol = e'.protocol) (config : Connection) :
    Fingerprint.of e config = .of e' config := by
  rw [Fingerprint.of, Fingerprint.of, Fingerprint.key, Fingerprint.key, Fingerprint.fields,
    Fingerprint.fields, hname, hurl, hprotocol]

theorem validate_congr {e e' : Endpoint} (hname : e.friendlyName = e'.friendlyName)
    (hurl : e.url = e'.url) : e.validate = e'.validate := by
  rw [Endpoint.validate, Endpoint.validate, hname, hurl]

namespace ProtocolClient

/-- The client with another namespace, where it has one. -/
def withNamespace (ns : String) : ProtocolClient → ProtocolClient
  | .soap c => .soap { c with ns := ns }
  | p => p

/-- **All that a client takes from its endpoint**, besides what identifies it, is the
namespace of a SOAP client. -/
theorem setUp_congr {e e' : Endpoint} (hurl : e.url = e'.url)
    (hprotocol : e.protocol = e'.protocol) (fs : FileSystem) (config : Connection) :
    setUp fs e' config
      = (setUp fs e config).map (withNamespace (Soap.namespaceFor e'.wsdlUrl)) := by
  have hof : urlOf e' = urlOf e := by rw [urlOf, urlOf, hurl]
  have hchannel : Grpc.Channel.build fs e' config = Grpc.Channel.build fs e config := by
    rw [Grpc.Channel.build, Grpc.Channel.build, hurl]
  rw [setUp, setUp, ← hprotocol, hof, hchannel]
  cases e.protocol with
  | grpc => cases Grpc.Channel.build fs e config <;> rfl
  | _ =>
    cases urlOf e with
    | error t => rfl
    | ok u => cases Http.setUp fs config none <;> rfl

/-- The namespace of a client is the one that its endpoint suggests. -/
theorem ns_of_setUp {fs : FileSystem} {e : Endpoint} {config : Connection} {c : Soap.Client}
    (h : setUp fs e config = .ok (.soap c)) : c.ns = Soap.namespaceFor e.wsdlUrl := by
  have hself := setUp_congr (e := e) rfl rfl fs config
  rw [h] at hself
  exact congrArg Soap.Client.ns (ProtocolClient.soap.inj (Except.ok.inj hself))

/-- Whether an envelope can be written does not depend on the namespace, nor does the
reason why it cannot. -/
theorem payload_congr (ns ns' operation : String) (body : RequestBody) :
    (Soap.payload ns operation body).map (fun _ => ())
      = (Soap.payload ns' operation body).map fun _ => () := by
  have hencoded : ∀ params,
      ((Soap.envelope operation ns params).map Text.Utf8.encode).map (fun _ => ())
        = ((Soap.envelope operation ns' params).map Text.Utf8.encode).map fun _ => () := by
    intro params
    rw [Soap.envelope, Soap.envelope]
    by_cases hoperation : operation = "" ∧ params ≠ []
    · rw [if_pos hoperation, if_pos hoperation]
    · rw [if_neg hoperation, if_neg hoperation]
      simp only [Except.map]
  cases body with
  | empty => exact hencoded []
  | bytes bs => rfl
  | text s => rfl
  | json v =>
    cases v with
    | object params => exact hencoded params
    | _ => rfl

/-- A request that cannot be sent anywhere is the same for all namespaces. -/
theorem perform_soap_of_not_http (net : Network σ) {u : Url} (hu : u.isHttp = false)
    (ns ns' : String) :
    (ProtocolClient.soap ⟨u, ns⟩).perform net = (ProtocolClient.soap ⟨u, ns'⟩).perform net := by
  funext q s
  have hsame := payload_congr ns ns' q.method q.body
  rw [perform, perform, Soap.Client.request, Soap.Client.request]
  cases hp : Soap.payload ns q.method q.body with
  | error f =>
    -- neither envelope can be written, for the same reason
    cases hp' : Soap.payload ns' q.method q.body with
    | error f' =>
      rw [hp, hp'] at hsame
      cases hsame
      rfl
    | ok bs' =>
      rw [hp, hp'] at hsame
      cases hsame
  | ok bs =>
    cases hp' : Soap.payload ns' q.method q.body with
    | error f' =>
      rw [hp, hp'] at hsame
      cases hsame
    | ok bs' =>
      cases hh : Soap.headers q.method q.headers with
      | error f => rfl
      | ok hs =>
        -- both requests are refused, whatever is in them
        show ((Http.send net.http _ s).1.map _, (Http.send net.http _ s).2)
          = ((Http.send net.http _ s).1.map _, (Http.send net.http _ s).2)
        simp only [Http.send, hu]
        rfl

end ProtocolClient

/-! ### Endpoints that can share a client -/

section

variable {fs : FileSystem} {config : Connection} {e e' : Endpoint}

/-- The first endpoint never sends a SOAP request with a namespace that is not the second
one's. -/
def Compatible (fs : FileSystem) (config : Connection) (e e' : Endpoint) : Prop :=
  ∀ c : Soap.Client, e.validate = .ok () →
    ProtocolClient.setUp fs e config = .ok (.soap c) → c.url.isHttp = true →
    Soap.namespaceFor e.wsdlUrl = Soap.namespaceFor e'.wsdlUrl

/-- A client of the first endpoint then does what one of the second would do. -/
theorem Compatible.perform_eq (h : Compatible fs config e e') (hvalid : e.validate = .ok ())
    {d : ProtocolClient} (hset : ProtocolClient.setUp fs e config = .ok d) (net : Network σ) :
    d.perform net = (d.withNamespace (Soap.namespaceFor e'.wsdlUrl)).perform net := by
  cases d with
  | rest c => rfl
  | grpc c => rfl
  | soap c =>
    by_cases hhttp : c.url.isHttp = true
    · have hns : c.ns = Soap.namespaceFor e'.wsdlUrl :=
        (ProtocolClient.ns_of_setUp hset).trans (h c hvalid hset hhttp)
      rw [← hns]
      rfl
    · exact ProtocolClient.perform_soap_of_not_http net (Bool.eq_false_iff.mpr hhttp) _ _

theorem create_networked {d : Except SetupTrouble ProtocolClient}
    (h : ProtocolClient.setUp fs e config = d) (net : Network σ) (s : σ) :
    (networked fs net).create e config s = (d.mapError SetupTrouble.failure, s) := by
  rw [← h]
  rfl

/-- A call finds a client that does what the one would do that it would build. -/
theorem seenOf_call_enter {d d' : ProtocolClient} (hvalid : e'.validate = .ok ())
    (hset : ProtocolClient.setUp fs e' config = .ok d') (net : Network σ)
    (hperform : d.perform net = d'.perform net) (params : CallParams) (s : σ) :
    seenOf (call (networked fs net) e' params config
        (Registry.empty.enter e (.of e' config) d).2 s)
      = seenOf (call (networked fs net) e' params config .empty s) := by
  have hlook := Registry.lookup_enter e (.of e' config) d Registry.empty
  rw [call_of_lookup hvalid hlook, call_of_empty hvalid (create_networked hset net s)]
  have hattempts : attemptsWith (networked fs net) e' params
      (Registry.empty.enter e (.of e' config) d).2 (Registry.empty.enter e (.of e' config) d).1 s
        = attemptsWith (networked fs net) e' params
          (Registry.empty.enter e' (.of e' config) d').2
          (Registry.empty.enter e' (.of e' config) d').1 s :=
    attemptsWith_congr rfl rfl hperform
  rw [seenOf, seenOf, hattempts]

theorem unobservable_of_compatible (hname : e.friendlyName = e'.friendlyName)
    (hurl : e.url = e'.url) (hprotocol : e.protocol = e'.protocol)
    (h : Compatible fs config e e') : Unobservable fs config e e' := by
  intro σ net s params params' first
  have hvalid' := validate_congr hname hurl
  cases hvalid : e.validate with
  | error f =>
    -- the first call does not get as far as a client
    have hregistry : first.2.1 = .empty := by
      simp only [first, call_of_invalid hvalid]
    rw [hregistry]
  | ok _ =>
    cases hset : ProtocolClient.setUp fs e config with
    | error t =>
      have hregistry : first.2.1 = .empty := by
        simp only [first, call_of_empty_error hvalid (create_networked hset net s)]
      rw [hregistry]
    | ok d =>
      -- the second finds the client that the first has left
      have hregistry : first.2.1 = (Registry.empty.enter e (.of e' config) d).2 := by
        rw [← fingerprint_congr hname hurl hprotocol config]
        simp only [first, call_of_empty hvalid (create_networked hset net s)]
      have hset' := ProtocolClient.setUp_congr hurl hprotocol fs config
      rw [hset] at hset'
      rw [hregistry]
      exact seenOf_call_enter (hvalid'.symm.trans hvalid) hset' net (h.perform_eq hvalid hset net)
        params' first.2.2

/-! ### Endpoints that cannot -/

/-- A network on which no server can be reached, but which keeps the requests that are
sent over HTTP, the latest first. -/
def listening : Network (List Http.Request) where
  http := ⟨fun q sent => (.now (.error .notConnected), q :: sent)⟩
  grpc := ⟨fun _ _ sent => (.now (.error Grpc.notReached), sent),
    fun _ _ sent => (.now (.status Grpc.notReached []), sent)⟩
  timer := .ticking

/-- The parameters of a call to an operation without parameters. -/
def operationOnly : CallParams := CallParams.none.withMethod "Op"

/-- The envelope that such a call sends. -/
def operationEnvelope (ns : String) : String :=
  String.ofList (Soap.opening.toList ++ Soap.operationElement "Op" ns [] ++ Soap.closing.toList)

/-- The request that such a call sends. -/
def operationRequest (u : Url) (ns : String) (deadline : Option Duration) : Http.Request where
  verb := "POST"
  url := u
  headers := [(Http.contentTypeName, Soap.contentType), (Soap.actionName, "\"Op\"")]
  body := some (Text.Utf8.encode (operationEnvelope ns))
  deadline := deadline

theorem request_operationOnly (u : Url) (ns : String) (e : Endpoint) :
    (⟨u, ns⟩ : Soap.Client).request (.prepare e operationOnly)
      = .ok (operationRequest u ns e.timeout.deadline) := by
  have hprepare : CallRequest.prepare e operationOnly
      = ⟨e.timeout.deadline, "Op", [], .empty⟩ := by
    obtain ⟨_, _, protocol, _, _, _, _⟩ := e
    cases protocol <;> rfl
  have henvelope : Soap.envelope "Op" ns [] = .ok (operationEnvelope ns) := by
    rw [Soap.envelope, if_neg (by simp), if_neg (by simp)]
    rfl
  have hheaders : Soap.headers "Op" []
      = .ok [(Http.contentTypeName, Soap.contentType), (Soap.actionName, "\"Op\"")] := by
    rfl
  rw [hprepare, Soap.Client.request, Soap.payload, henvelope, hheaders]
  rfl

/-- What the network has kept of a call to the operation: its one attempt. -/
theorem attemptsWith_listening {r : Registry ProtocolClient} {c : Client ProtocolClient} {u : Url}
    {ns : String} (hopen : r.isClosed c = false) (hdriver : c.driver = .soap ⟨u, ns⟩)
    (hhttp : u.isHttp = true) (sent : List Http.Request) :
    (attemptsWith (networked fs listening) e operationOnly r c sent).2
      = operationRequest u ns e.timeout.deadline :: sent := by
  let step := (networked fs listening).stepOf r c (.prepare e operationOnly)
  let failed : Attempt := .error Http.Trouble.notConnected.failure
  have hstep : step sent = (.now failed, operationRequest u ns e.timeout.deadline :: sent) := by
    show r.request _ c sent = _
    rw [Registry.request, hopen]
    show c.driver.perform listening (.prepare e operationOnly) sent = _
    rw [hdriver, ProtocolClient.perform]
    simp only [request_operationOnly, Http.send]
    rw [show (operationRequest u ns e.timeout.deadline).url.isHttp = true from hhttp]
    rfl
  have hattempt : attempt? (networked fs listening).timer e.timeout.deadline step sent 0
      = some (failed, ⟨0⟩) := by
    rw [attempt?, surroundingsBefore_zero, hstep]
    exact Timed.within_now _ failed
  -- a server that cannot be reached is not tried again
  have hfinish : RetryPolicy.next ⟨e.maxRetries⟩ 0 failed.outcome = .finish false := rfl
  rw [attemptsWith, attempts_of_finish hattempt hfinish]
  show (step sent).2 = _
  rw [hstep]

theorem escapeChars_inj {cs ds : List Char} (h : Xml.escapeChars cs = Xml.escapeChars ds) :
    cs = ds := by
  have hread := congrArg Xml.unescape h
  rwa [Xml.escapeChars_eq_print, Xml.escapeChars_eq_print, Xml.unescape_print, Xml.unescape_print,
    Xml.chars_map_escapedPiece, Xml.chars_map_escapedPiece, Option.some.injEq] at hread

/-- A namespace can be read off the envelope. -/
theorem operationEnvelope_inj {ns ns' : String}
    (h : Text.Utf8.encode (operationEnvelope ns) = Text.Utf8.encode (operationEnvelope ns')) :
    ns = ns' := by
  have hchars := congrArg Text.Utf8.decodeChars? h
  rw [Text.Utf8.encode, Text.Utf8.encode, Text.Utf8.decodeChars?_encodeChars,
    Text.Utf8.decodeChars?_encodeChars, Option.some.injEq, operationEnvelope, operationEnvelope,
    String.toList_ofList, String.toList_ofList, List.append_cancel_right_eq,
    List.append_cancel_left_eq, Soap.operationElement, Soap.operationElement] at hchars
  simp only [List.append_cancel_right_eq, List.append_cancel_left_eq] at hchars
  exact String.toList_inj.mp (escapeChars_inj hchars)

theorem compatible_of_unobservable (hname : e.friendlyName = e'.friendlyName)
    (hurl : e.url = e'.url) (hprotocol : e.protocol = e'.protocol)
    (h : Unobservable fs config e e') : Compatible fs config e e' := by
  intro c hvalid hset hhttp
  have hvalid' := (validate_congr hname hurl).symm.trans hvalid
  have hset' := ProtocolClient.setUp_congr hurl hprotocol fs config
  rw [hset] at hset'
  let ns' := Soap.namespaceFor e'.wsdlUrl
  let r := (Registry.empty.enter e (.of e' config) (ProtocolClient.soap c)).2
  let kept := (Registry.empty.enter e (.of e' config) (ProtocolClient.soap c)).1
  let r' := (Registry.empty.enter e' (.of e' config) (ProtocolClient.soap ⟨c.url, ns'⟩)).2
  let own := (Registry.empty.enter e' (.of e' config) (ProtocolClient.soap ⟨c.url, ns'⟩)).1
  have hsame := h _ listening [] .none operationOnly
  have hregistry : (call (networked fs listening) e .none config .empty []).2.1 = r := by
    rw [call_of_empty hvalid (create_networked hset listening [])]
    simp only [r, fingerprint_congr hname hurl hprotocol config]
  have hlook : r.lookup (.of e' config) = some kept :=
    Registry.lookup_enter e (.of e' config) (ProtocolClient.soap c) Registry.empty
  simp only [hregistry] at hsame
  generalize (call (networked fs listening) e .none config .empty []).2.2 = sent at hsame
  rw [call_of_lookup hvalid' hlook, call_of_empty hvalid' (create_networked hset' listening sent)]
    at hsame
  -- one is the request of the client that is kept, the other that of the endpoint's own
  have hkept : (attemptsWith (networked fs listening) e' operationOnly r kept sent).2
      = operationRequest c.url c.ns e'.timeout.deadline :: sent :=
    attemptsWith_listening rfl rfl hhttp sent
  have hown : (attemptsWith (networked fs listening) e' operationOnly r' own sent).2
      = operationRequest c.url ns' e'.timeout.deadline :: sent :=
    attemptsWith_listening rfl rfl hhttp sent
  have hsent : (attemptsWith (networked fs listening) e' operationOnly r kept sent).2
      = (attemptsWith (networked fs listening) e' operationOnly r' own sent).2 :=
    (Prod.mk.inj hsame).2
  rw [hkept, hown, List.cons.injEq, Http.Request.mk.injEq] at hsent
  have hbody := Option.some.inj hsent.1.2.2.2.1
  rw [← ProtocolClient.ns_of_setUp hset]
  exact operationEnvelope_inj hbody

/-- **When two endpoints can share a client**: nobody can tell that the client was built
for the other one exactly if that does not make a difference to the namespace of a SOAP
request. -/
theorem unobservable_iff (hname : e.friendlyName = e'.friendlyName) (hurl : e.url = e'.url)
    (hprotocol : e.protocol = e'.protocol) :
    Unobservable fs config e e' ↔ Compatible fs config e e' :=
  ⟨compatible_of_unobservable hname hurl hprotocol,
    unobservable_of_compatible hname hurl hprotocol⟩

end

/-- A SOAP service with a description. -/
def quotes : Endpoint :=
  (Endpoint.make "quotes" "http://service.example/" .soap).withWsdlUrl
    "http://a.example/one/service?wsdl"

/-- The same service with another description. -/
def movedQuotes : Endpoint := quotes.withWsdlUrl "http://b.example/two/service?wsdl"

/-- The same service with a description in the same place, called in another way. -/
def patientQuotes : Endpoint :=
  { quotes.withWsdlUrl "http://a.example/one/other?WSDL" with
    timeout := .unbounded, methodName := some "Quote", maxRetries := 3 }

theorem unobservable_patientQuotes :
    quotes.friendlyName = patientQuotes.friendlyName ∧ quotes.url = patientQuotes.url ∧
      quotes.protocol = patientQuotes.protocol ∧
      ∀ fs config, Unobservable fs config quotes patientQuotes := by
  have hname : quotes.friendlyName = patientQuotes.friendlyName := rfl
  have hurl : quotes.url = patientQuotes.url := rfl
  have hprotocol : quotes.protocol = patientQuotes.protocol := rfl
  have hns : Soap.namespaceFor quotes.wsdlUrl = Soap.namespaceFor patientQuotes.wsdlUrl := by
    decide
  exact ⟨hname, hurl, hprotocol, fun fs config =>
    (unobservable_iff hname hurl hprotocol).mpr fun _ _ _ _ => hns⟩

/-- **Which endpoint a client was built for can be told**: a call to the second of these
two endpoints is made with the namespace of the first, if that was called before. -/
theorem not_unobservable_movedQuotes :
    quotes.friendlyName = movedQuotes.friendlyName ∧ quotes.url = movedQuotes.url ∧
      quotes.protocol = movedQuotes.protocol ∧
      Soap.namespaceFor quotes.wsdlUrl = "http://a.example/one/" ∧
      Soap.namespaceFor movedQuotes.wsdlUrl = "http://b.example/two/" ∧
      ¬ Unobservable (.ofList []) .standard quotes movedQuotes := by
  have hname : quotes.friendlyName = movedQuotes.friendlyName := rfl
  have hurl : quotes.url = movedQuotes.url := rfl
  have hprotocol : quotes.protocol = movedQuotes.protocol := rfl
  have hquotes : Soap.namespaceFor quotes.wsdlUrl = "http://a.example/one/" := by decide
  have hmoved : Soap.namespaceFor movedQuotes.wsdlUrl = "http://b.example/two/" := by decide
  refine ⟨hname, hurl, hprotocol, hquotes, hmoved, fun h => ?_⟩
  -- the client of the first endpoint does send requests
  have hcompatible := compatible_of_unobservable hname hurl hprotocol h
  have haddress : (Url.ofChars? (Text.trim quotes.url).toList).map Url.isHttp = some true := by
    decide +kernel
  obtain ⟨u, hu, hhttp⟩ := Option.map_eq_some_iff.mp haddress
  have hset : ProtocolClient.setUp (.ofList []) quotes .standard
      = .ok (.soap ⟨u, Soap.namespaceFor quotes.wsdlUrl⟩) := by
    have hof : ProtocolClient.urlOf quotes = .ok u := by
      rw [ProtocolClient.urlOf, hu]
    show (ProtocolClient.urlOf quotes).bind _ = _
    rw [hof]
    rfl
  have hns := hcompatible _ (by decide) hset hhttp
  rw [hquotes, hmoved] at hns
  exact absurd hns (by decide)

end Switchboard
