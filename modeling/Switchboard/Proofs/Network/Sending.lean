import Switchboard.Proofs.Call.Attempts
import Switchboard.Proofs.Network.Recording

/-!
# What clients send

In one attempt a client sends at most one request to its target, and none if it turns the
request down itself.  A look-up before a gRPC call only asks questions, and if the path of
the method is malformed not even those.

## Main definitions

* `Attempt.Refused` — the request was turned down.
* `Sparing` — at most one request is sent to the target.
* `ProtocolClient.Sends` — what a client sends in one attempt.
* `ProtocolClient.sentBy` — the record of one attempt.

## Main results

* `Grpc.asks_lookUp` — a look-up only asks questions.
* `Grpc.recorded_conversation` — **what a call over a channel sends.**
* `Http.post_recording` — what a client for HTTP sends.
* `ProtocolClient.perform_recording` — **what a client sends in one attempt**, for all
  protocols.
-/

namespace Switchboard

variable {σ : Type}

/-! ### Requests that are turned down -/

/-- The request is turned down, as malformed or as one that cannot be written. -/
def Failure.isRefusal (f : Failure) : Bool := f.kind = .validation || f.kind = .encode

/-- The attempt ended with the request turned down. -/
def Attempt.Refused (a : Attempt) : Prop := ∃ f, a.failure? = some f ∧ f.isRefusal = true

/-- At most one request is sent to the target, and none by an attempt, which comes to
`what`, that turns the request down. -/
structure Sparing (sent : List Transmission) (what : Option Attempt) : Prop where
  /-- There are not two requests. -/
  once : sent.countP Transmission.isTarget ≤ 1
  /-- There is none that is turned down. -/
  refused : ∀ a, what = some a → a.Refused → ∀ t ∈ sent, t.isTarget = false

/-! ### Looking up a method -/

namespace Grpc

open Session

section

variable {ask : Query → Session σ (Except Failure (List Bytes))}
  {ask' : Query → Session (σ × List Transmission) (Except Failure (List Bytes))}

theorem asks_fetch (h : ∀ q, Asks (ask q) (ask' q)) (files : Dictionary Proto.FileDecl)
    (name : String) : Asks (fetch ask files name).run (fetch ask' files name).run := by
  refine Asks.bind (h (.file name)) afterQuestions_asks fun answer => ?_
  cases answer with
  | ok encoded => exact asks_pure
  | error failure => exact asks_pure

theorem asks_fetchAll (h : ∀ q, Asks (ask q) (ask' q)) (names : List String)
    (files : Dictionary Proto.FileDecl) :
    Asks (names.foldlM (fetch ask) files).run (names.foldlM (fetch ask') files).run := by
  induction names generalizing files with
  | nil => exact asks_pure
  | cons name names ih => exact Asks.andThen (asks_fetch h files name) ih

theorem asks_rounds (h : ∀ q, Asks (ask q) (ask' q)) (count : Nat)
    (files : Dictionary Proto.FileDecl) (requested : List String) :
    Asks (rounds ask count files requested).run (rounds ask' count files requested).run := by
  induction count generalizing files requested with
  | zero => exact asks_pure
  | succ count ih =>
    rw [rounds, rounds]
    cases wanted files requested with
    | nil => exact asks_pure
    | cons name names =>
      exact Asks.andThen (asks_fetchAll h _ files) fun files => ih files _

theorem asks_gather (h : ∀ q, Asks (ask q) (ask' q)) (service : String) :
    Asks (gather ask service).run (gather ask' service).run :=
  Asks.andThen (h (.symbol service)) fun encoded =>
    Asks.andThen (asks_liftExcept (collect [] encoded)) fun files =>
      asks_rounds h maxRounds files []

/-- A look-up only asks questions. -/
theorem asks_lookUp (h : ∀ q, Asks (ask q) (ask' q)) (path : MethodPath) :
    Asks (lookUp ask path).run (lookUp ask' path).run :=
  Asks.andThen (asks_gather h path.service) fun files =>
    Asks.andThen (asks_liftExcept (buildPool (files.map Prod.snd))) fun pool =>
      Asks.andThen (asks_liftExcept (findMethod pool path)) fun _ => asks_pure

end

/-! ### Calling a method -/

theorem isRefusal_failure (s : Status) : s.failure.isRefusal = false := by
  rw [Status.failure]
  split <;> rfl

/-- What came back is at worst a failure of the other side. -/
theorem not_refused_attemptOf (p : Proto.Pool) (output : Proto.MessageType) (i : Incoming) :
    ¬ (attemptOf p output i).Refused := by
  rintro ⟨f, hf, hrefusal⟩
  cases i with
  | status s metadata =>
    cases hf
    rw [isRefusal_failure] at hrefusal
    cases hrefusal
  | message encoded metadata =>
    rw [attemptOf] at hf
    cases hdecode : p.decode? output encoded with
    | none =>
      rw [hdecode] at hf
      cases hf
      cases hrefusal
    | some m =>
      rw [hdecode] at hf
      cases hmap : responseMap p output m with
      | ok ms =>
        simp only [hmap] at hf
        cases hf
      | error failure =>
        have hwhy : failure = unwritable := by
          rw [responseMap] at hmap
          split at hmap
          · cases hmap
          · exact (Except.error.inj hmap).symm
        simp only [hmap, hwhy] at hf
        cases hf
        cases hrefusal

/-- What a conversation over a channel sends. -/
structure Spoken (sent : List Transmission) (what : Option Attempt) : Prop where
  /-- At most one request to the method. -/
  sparing : Sparing sent what
  /-- Nothing outside the channel. -/
  overChannel : ∀ t ∈ sent, t.isHttp = false

theorem overChannel_of_asked {sent : List Transmission} (h : ∀ t ∈ sent, t.isTarget = false) :
    ∀ t ∈ sent, t.isHttp = false := by
  intro t ht
  have htarget := h t ht
  cases t with
  | http r answer => cases htarget
  | query ch q => rfl
  | invoke ch o => rfl

theorem spoken_of_asked {sent : List Transmission} {what : Option Attempt}
    (h : ∀ t ∈ sent, t.isTarget = false) : Spoken sent what where
  sparing := {
    once := by
      rw [List.countP_eq_zero.mpr fun t ht => by rw [h t ht]; decide]
      exact Nat.zero_le 1
    refused := fun _ _ _ => h }
  overChannel := overChannel_of_asked h

theorem afterQuestions_spoken : AfterQuestions Spoken where
  never := fun _ hasked => spoken_of_asked hasked
  append := fun asked new what hasked h => {
    sparing := {
      once := by
        have hnone : asked.countP Transmission.isTarget = 0 :=
          List.countP_eq_zero.mpr fun t ht => by rw [hasked t ht]; decide
        rw [List.countP_append, hnone, Nat.zero_add]
        exact h.sparing.once
      refused := fun a hwhat hrefused t ht =>
        (List.mem_append.mp ht).elim (hasked t) (h.sparing.refused a hwhat hrefused t) }
    overChannel := fun t ht => (List.mem_append.mp ht).elim
      (overChannel_of_asked hasked t) (h.overChannel t) }

theorem spoken_invoke (ch : Channel) (o : Outgoing) {what : Option Attempt}
    (h : ∀ a, what = some a → ¬ a.Refused) : Spoken [.invoke ch o] what where
  sparing := {
    once := Nat.le_refl 1
    refused := fun a ha hrefused => absurd hrefused (h a ha) }
  overChannel := fun t ht => by rw [List.mem_singleton.mp ht]; rfl

/-- The exchange with the method itself. -/
theorem recorded_invoke (net : Network σ) (ch : Channel) (o : Outgoing)
    {g : Incoming → Attempt} (hg : ∀ i, ¬ (g i).Refused) :
    Recorded Spoken
      (ExceptT.lift (exchange (net.grpc.invoke ch o)) >>= fun i => liftExcept (g i)).run
      (ExceptT.lift (exchange (net.recording.grpc.invoke ch o)) >>= fun i =>
        liftExcept (g i)).run := by
  -- what comes back is no failure yet
  have hlift : Recorded
      (fun new what => new = [.invoke ch o] ∧ ∀ f : Failure, what ≠ some (.error f))
      (ExceptT.lift (exchange (net.grpc.invoke ch o))).run
      (ExceptT.lift (exchange (net.recording.grpc.invoke ch o))).run := by
    refine Recorded.bind (P := fun new _ => new = [.invoke ch o]) (fun _ s => ?_) ?_ ?_
    · exact ⟨[.invoke ch o], rfl, fun log => rfl⟩
    · exact fun _ _ hnew => ⟨hnew, fun _ h => by cases h⟩
    · exact fun _ i hnew => recorded_pure ⟨by rw [hnew]; rfl, fun _ h => by cases h⟩
  refine Recorded.bind hlift ?_ ?_
  · rintro _ _ ⟨rfl, -⟩
    exact spoken_invoke ch o fun _ h => by cases h
  · rintro _ result ⟨rfl, hok⟩
    cases result with
    | error f => exact absurd rfl (hok f)
    | ok i =>
      refine recorded_liftExcept (spoken_invoke ch o fun a ha => ?_)
      cases ha
      exact hg i

/-- **What a call over a channel sends**: questions about the method, and one request to it
at most. -/
theorem recorded_conversation (net : Network σ) (ch : Channel) (r : CallRequest) :
    Recorded Spoken (ch.conversation net.grpc r).run
      (ch.conversation net.recording.grpc r).run := by
  have hasked : Spoken [] (none : Option Attempt) := spoken_of_asked fun _ ht => by cases ht
  have hfailed : ∀ f : Failure, Spoken [] (some (.error f)) := fun f =>
    spoken_of_asked fun _ ht => by cases ht
  have hdescribe : ∀ q, Asks
      (do return heard (← exchange (net.grpc.describe ch q)))
      (do return heard (← exchange (net.recording.grpc.describe ch q))) := by
    intro q
    refine Asks.bind (fun _ s => ⟨[.query ch q], ?_, fun log => rfl⟩) afterQuestions_asks
      fun _ => asks_pure
    exact fun t ht => by rw [List.mem_singleton.mp ht]; rfl
  refine Asks.bindExcept (asks_liftExcept _) afterQuestions_spoken hfailed fun path => ?_
  refine Asks.bindExcept (asks_lookUp hdescribe path) afterQuestions_spoken hfailed fun found => ?_
  obtain ⟨pool, method⟩ := found
  show Recorded Spoken (ite _ _ _ : ExceptT Failure (Session σ) CallResponse).run
    (ite _ _ _ : ExceptT Failure (Session (σ × List Transmission)) CallResponse).run
  split
  · -- a method that takes or gives many messages is not called
    rw [run_throw_bind, run_throw_bind]
    exact recorded_pure (hfailed _)
  · refine Asks.bindExcept (asks_liftExcept _) afterQuestions_spoken hfailed fun message => ?_
    exact recorded_invoke net ch _ fun i => not_refused_attemptOf pool _ i

/-- Over a channel, a malformed path is turned down before anything is asked. -/
theorem conversation_of_malformed {server : Server σ} {ch : Channel} {r : CallRequest}
    {f : Failure} (h : pathOf r = .error f) :
    (ch.conversation server r).run = pure (.error f) := by
  rw [Channel.conversation, h]
  exact run_throw_bind f _

end Grpc

/-! ### Clients -/

namespace Http

/-- What a client for HTTP does with a request that it has written, or could not write. -/
def post (t : Transport σ) (read : Exchange → Attempt) (written : Except Failure Request)
    (s : σ) : Behaviour × σ :=
  match written with
  | .error f => (.now (.error f), s)
  | .ok r => ((send t r s).1.map read, (send t r s).2)

/-- What a client for HTTP sends: the request that it has written, if there is one and it
can go anywhere. -/
theorem post_recording (net : Network σ) (read : Exchange → Attempt)
    (written : Except Failure Request) (s : σ) :
    ∃ sent : List Transmission,
      (∀ log, post net.recording.http read written (s, log)
        = ((post net.http read written s).1, (post net.http read written s).2, log ++ sent)) ∧
      (sent = [] ∨ ∃ r answer, written = .ok r ∧ sent = [.http r answer] ∧
        (post net.http read written s).1 = answer.map read) := by
  cases written with
  | error f => exact ⟨[], fun log => by rw [List.append_nil]; rfl, Or.inl rfl⟩
  | ok r =>
    cases hurl : r.url.isHttp with
    | false =>
      have hsend : ∀ {τ : Type} (t : Transport τ) (x : τ),
          send t r x = (.now (.error .notBuilt), x) := fun t x => by rw [send, hurl]; rfl
      refine ⟨[], fun log => ?_, Or.inl rfl⟩
      rw [post, post, hsend, hsend, List.append_nil]
    | true =>
      have hsend : ∀ {τ : Type} (t : Transport τ) (x : τ), send t r x = t.exchange r x :=
        fun t x => by rw [send, hurl]; rfl
      refine ⟨[.http r (net.http.exchange r s).1], fun log => ?_, Or.inr ⟨r, _, rfl, rfl, ?_⟩⟩
      · rw [post, post, hsend, hsend]
        rfl
      · rw [post, hsend]

theorem isRefusal_failure (t : Trouble) : t.failure.isRefusal = false := by
  cases t <;> rfl

/-- A client does not take an exchange for a request that it turned down itself, nor a
complete response for a timeout. -/
structure Honest (read : Exchange → Attempt) : Prop where
  /-- The request was not turned down. -/
  sent : ∀ x f, (read x).failure? = some f → f.isRefusal = false
  /-- The response has come. -/
  answered : ∀ (r : Reply) bs f, r.body = .ok bs → (read (.ok r)).failure? = some f →
    f.isTimeout = false

theorem honest_attemptOf : Honest attemptOf where
  sent := fun x f hf => by
    cases x with
    | error t =>
      cases hf
      exact isRefusal_failure t
    | ok r =>
      have hfailure : r.response.failure = some f := hf
      rw [Reply.response] at hfailure
      cases hbody : r.body with
      | error t =>
        rw [hbody] at hfailure
        cases hfailure
        exact isRefusal_failure t
      | ok bs =>
        simp only [hbody] at hfailure
        split at hfailure
        · cases hfailure
          rfl
        · cases hfailure
  answered := fun r bs f hbody hf => by
    have hfailure : r.response.failure = some f := hf
    rw [Reply.response] at hfailure
    simp only [hbody] at hfailure
    split at hfailure
    · cases hfailure
      rfl
    · cases hfailure

end Http

namespace Soap

/-- A fault is a failure of the other side. -/
theorem failure_withFault (r : CallResponse) :
    (withFault r).failure = r.failure ∨ ∃ text, (withFault r).failure = some (.protocol text) := by
  rw [withFault]
  split
  · next bs _ =>
    cases hfault : fault? bs with
    | none => exact Or.inl rfl
    | some f => exact Or.inr ⟨f.message, rfl⟩
  · exact Or.inl rfl

theorem honest_attemptOf : Http.Honest attemptOf where
  sent := fun x f hf => by
    cases x with
    | error t =>
      cases hf
      exact Http.isRefusal_failure t
    | ok r =>
      have hfailure : (withFault r.response).failure = some f := hf
      rcases failure_withFault r.response with hsame | ⟨text, hfault⟩
      · exact Http.honest_attemptOf.sent (.ok r) f (hsame.symm.trans hfailure)
      · rw [hfault] at hfailure
        cases hfailure
        rfl
  answered := fun r bs f hbody hf => by
    have hfailure : (withFault r.response).failure = some f := hf
    rcases failure_withFault r.response with hsame | ⟨text, hfault⟩
    · exact Http.honest_attemptOf.answered r bs f hbody (hsame.symm.trans hfailure)
    · rw [hfault] at hfailure
      cases hfailure
      rfl

end Soap

namespace ProtocolClient

/-- What a client sends in one attempt with the request `q`, of which `b` comes. -/
structure Sends (p : ProtocolClient) (q : CallRequest) (sent : List Transmission)
    (b : Behaviour) : Prop where
  /-- At most one request to the target, and none if the request is turned down. -/
  sparing : Sparing sent b.what?
  /-- Nothing at all to a gRPC server if the path of the method is malformed. -/
  malformed : ∀ f, Grpc.pathOf q = .error f → ∀ t ∈ sent, t.isHttp = true
  /-- A complete response to a request over HTTP is what the attempt comes to, and not as a
  timeout. -/
  answered : ∀ r time reply bs, .http r (.after time (.ok reply)) ∈ sent → reply.body = .ok bs →
    sent.length = 1 ∧ ∃ a, b = .after time a ∧ ¬ a.TimedOut
  /-- Over HTTP, only the request that the client has written for `q`. -/
  written : ∀ r answer, .http r answer ∈ sent →
    (∃ c, p = .rest c ∧ c.request q = .ok r) ∨ ∃ c, p = .soap c ∧ c.request q = .ok r

theorem sends_nil (p : ProtocolClient) (q : CallRequest) (b : Behaviour) : p.Sends q [] b where
  sparing := ⟨Nat.zero_le 1, fun _ _ _ _ ht => absurd ht List.not_mem_nil⟩
  malformed := fun _ _ _ ht => absurd ht List.not_mem_nil
  answered := fun _ _ _ _ ht => absurd ht List.not_mem_nil
  written := fun _ _ ht => absurd ht List.not_mem_nil

/-- A client that sends one request over HTTP and reads what comes of it. -/
theorem sends_http {p : ProtocolClient} {q : CallRequest} {r : Http.Request}
    {answer : Timed Http.Exchange} {read : Http.Exchange → Attempt} (hread : Http.Honest read)
    (hwritten : (∃ c, p = .rest c ∧ c.request q = .ok r) ∨ ∃ c, p = .soap c ∧ c.request q = .ok r) :
    p.Sends q [.http r answer] (answer.map read) where
  sparing := {
    once := le_rfl
    refused := by
      rintro a hwhat ⟨f, hf, hrefusal⟩
      cases answer with
      | never => cases hwhat
      | after time x =>
        cases hwhat
        rw [hread.sent x f hf] at hrefusal
        cases hrefusal }
  malformed := fun _ _ t ht => by rw [List.mem_singleton.mp ht]; rfl
  answered := fun r' time reply bs ht hbody => by
    cases List.mem_singleton.mp ht
    refine ⟨rfl, _, rfl, fun htimedOut => ?_⟩
    obtain ⟨detail, hdetail⟩ := Attempt.timedOut_iff.mp htimedOut
    cases hread.answered reply bs _ hbody hdetail
  written := fun r' answer' ht => by
    cases List.mem_singleton.mp ht
    exact hwritten

/-- A client that writes a request, posts it and reads what comes of it. -/
theorem perform_recording_of_post {net : Network σ} {p : ProtocolClient} {q : CallRequest}
    {read : Http.Exchange → Attempt} (written : Except Failure Http.Request)
    (hread : Http.Honest read)
    (hperform : ∀ {τ : Type} (net : Network τ) (x : τ),
      p.perform net q x = Http.post net.http read written x)
    (hwritten : ∀ r, written = .ok r →
      (∃ c, p = .rest c ∧ c.request q = .ok r) ∨ ∃ c, p = .soap c ∧ c.request q = .ok r) (s : σ) :
    ∃ sent, (∀ log, p.perform net.recording q (s, log)
        = ((p.perform net q s).1, (p.perform net q s).2, log ++ sent)) ∧
      p.Sends q sent (p.perform net q s).1 := by
  obtain ⟨sent, hlog, hsent⟩ := Http.post_recording net read written s
  refine ⟨sent, fun log => ?_, ?_⟩
  · rw [hperform, hperform, hlog]
  · rcases hsent with rfl | ⟨r, answer, hr, rfl, hanswer⟩
    · exact sends_nil p q _
    · rw [hperform, hanswer]
      exact sends_http hread (hwritten r hr)

/-- **What a client sends in one attempt**, and that a record of it changes nothing. -/
theorem perform_recording (net : Network σ) (p : ProtocolClient) (q : CallRequest) (s : σ) :
    ∃ sent, (∀ log, p.perform net.recording q (s, log)
        = ((p.perform net q s).1, (p.perform net q s).2, log ++ sent)) ∧
      p.Sends q sent (p.perform net q s).1 := by
  cases p with
  | rest c =>
    refine perform_recording_of_post (c.request q) Http.honest_attemptOf (fun net x => ?_)
      (fun r hr => Or.inl ⟨c, rfl, hr⟩) s
    rw [perform]
    cases c.request q <;> rfl
  | soap c =>
    refine perform_recording_of_post (c.request q) Soap.honest_attemptOf (fun net x => ?_)
      (fun r hr => Or.inr ⟨c, rfl, hr⟩) s
    rw [perform]
    cases c.request q <;> rfl
  | grpc ch =>
    cases hpath : Grpc.pathOf q with
    | error f =>
      -- nothing is said, so nothing is recorded
      have hperform : ∀ {τ : Type} (net : Network τ) (x : τ),
          (ProtocolClient.grpc ch).perform net q x = (.now (.error f), x) := fun net x => by
        show Session.run (ch.conversation net.grpc q).run _ x = _
        rw [Grpc.conversation_of_malformed hpath]
        rfl
      refine ⟨[], fun log => ?_, sends_nil _ q _⟩
      rw [hperform, hperform, List.append_nil]
    | ok path =>
      obtain ⟨sent, hspoken, hlog⟩ := Grpc.recorded_conversation net ch q
        (q.deadline.map (net.timer.lasts s)) s
      refine ⟨sent, hlog, hspoken.sparing, ?_, ?_, ?_⟩
      · exact fun f hf => by rw [hpath] at hf; cases hf
      · exact fun r time reply bs ht => by cases hspoken.overChannel _ ht
      · exact fun r answer ht => by cases hspoken.overChannel _ ht

/-- What a client sends in one attempt. -/
def sentBy (net : Network σ) (p : ProtocolClient) (q : CallRequest) (s : σ) : List Transmission :=
  (p.perform net.recording q (s, [])).2.2

theorem perform_record (net : Network σ) (p : ProtocolClient) (q : CallRequest) (s : σ)
    (log : List Transmission) :
    p.perform net.recording q (s, log)
      = ((p.perform net q s).1, (p.perform net q s).2, log ++ p.sentBy net q s) := by
  obtain ⟨sent, hlog, -⟩ := perform_recording net p q s
  rw [sentBy, hlog, hlog, List.nil_append]

theorem sends_sentBy (net : Network σ) (p : ProtocolClient) (q : CallRequest) (s : σ) :
    p.Sends q (p.sentBy net q s) (p.perform net q s).1 := by
  obtain ⟨sent, hlog, hsends⟩ := perform_recording net p q s
  rw [sentBy, hlog, List.nil_append]
  exact hsends

end ProtocolClient

end Switchboard
