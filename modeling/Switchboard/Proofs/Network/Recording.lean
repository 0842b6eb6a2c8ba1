import Switchboard.ProtocolClient

/-!
# Networks with a record

A network that keeps a record of what is sent over it is no different from the same
network without one.  So the record tells what is sent.

Of a conversation this is shown along the way it is put together: what is said of a part,
of the record that it adds and of what comes of it, is carried over to the whole.

## Main definitions

* `Transmission` — something sent over a network, and what came of it.
* `Network.recording` — a network with a record.
* `Session.Recorded` — two conversations that differ in the record alone.
* `Session.Asks` — such a conversation that only asks questions.

## Main results

* `Session.Recorded.bind` — one conversation after another.
* `Session.Asks.bind`, `Session.Asks.bindExcept` — a conversation after questions.
-/

namespace Switchboard

variable {σ : Type}

/-! ### Transmissions -/

/-- Something sent over a network, and what came of it. -/
inductive Transmission where
  /-- A request over HTTP. -/
  | http (r : Http.Request) (answer : Timed Http.Exchange)
  /-- A query about the types of a gRPC server. -/
  | query (ch : Grpc.Channel) (q : Grpc.Query)
  /-- A request to a gRPC method. -/
  | invoke (ch : Grpc.Channel) (o : Grpc.Outgoing)

namespace Transmission

/-- Whether it is the request that the call is about. -/
def isTarget : Transmission → Bool
  | .query _ _ => false
  | _ => true

/-- Whether it went over HTTP. -/
def isHttp : Transmission → Bool
  | .http _ _ => true
  | _ => false

end Transmission

/-- A network that keeps what is sent over it, the latest last. -/
def Network.recording (net : Network σ) : Network (σ × List Transmission) where
  timer := net.timer.recording
  http.exchange r s :=
    ((net.http.exchange r s.1).1, (net.http.exchange r s.1).2,
      s.2 ++ [.http r (net.http.exchange r s.1).1])
  grpc.describe ch q s :=
    ((net.grpc.describe ch q s.1).1, (net.grpc.describe ch q s.1).2, s.2 ++ [.query ch q])
  grpc.invoke ch o s :=
    ((net.grpc.invoke ch o s.1).1, (net.grpc.invoke ch o s.1).2, s.2 ++ [.invoke ch o])

/-- What happens, if anything does. -/
def Timed.what? {α : Type} : Timed α → Option α
  | .after _ a => some a
  | .never => none

/-! ### Conversations with a record -/

namespace Session

variable {α β : Type}

/-- A conversation and the same with a record, to which it adds what `P` says of what
came of it. -/
def Recorded (P : List Transmission → Option α → Prop) (m : Session σ α)
    (m' : Session (σ × List Transmission) α) : Prop :=
  ∀ left s, ∃ new, P new (m left s).1.what? ∧
    ∀ log, m' left (s, log) = ((m left s).1, (m left s).2, log ++ new)

/-- Nothing but questions is sent. -/
def Asks (m : Session σ α) (m' : Session (σ × List Transmission) α) : Prop :=
  Recorded (fun new _ => ∀ t ∈ new, t.isTarget = false) m m'

/-- What is said of a conversation can still be said if questions are sent before. -/
structure AfterQuestions (P : List Transmission → Option α → Prop) : Prop where
  /-- The time may run out meanwhile. -/
  never : ∀ asked : List Transmission, (∀ t ∈ asked, t.isTarget = false) → P asked none
  /-- They come first. -/
  append : ∀ (asked new : List Transmission) (what : Option α),
    (∀ t ∈ asked, t.isTarget = false) → P new what → P (asked ++ new) what

theorem afterQuestions_asks :
    AfterQuestions fun (new : List Transmission) (_ : Option α) =>
      ∀ t ∈ new, t.isTarget = false where
  never := fun _ h => h
  append := fun _ _ _ hasked hnew t ht => (List.mem_append.mp ht).elim (hasked t) (hnew t)

theorem recorded_pure {P : List Transmission → Option α → Prop} {a : α} (h : P [] (some a)) :
    Recorded P (pure a : Session σ α) (pure a) := by
  intro left s
  refine ⟨[], h, fun log => ?_⟩
  rw [List.append_nil]
  rfl

@[simp] theorem what?_later (time : Duration) (o : Timed α × σ) :
    (later time o).1.what? = o.1.what? := by
  obtain ⟨t, s⟩ := o
  cases t <;> rfl

/-- Time passes without regard to the record. -/
theorem later_record (time : Duration) (o : Timed α × σ) (log : List Transmission) :
    later time (o.1, o.2, log) = ((later time o).1, (later time o).2, log) := by
  obtain ⟨t, s⟩ := o
  cases t <;> rfl

section

variable {m : Session σ α} {f : α → Session σ β} {left left' : Option Duration} {s s' : σ}
  {time : Duration} {a : α}

theorem bind_of_never (h : m left s = (.never, s')) : (m >>= f) left s = (.never, s') := by
  show Session.bind m f left s = _
  rw [Session.bind, h]

theorem bind_of_spent (h : m left s = (.after time a, s')) (hspend : spend time left = none) :
    (m >>= f) left s = (.never, s') := by
  show Session.bind m f left s = _
  simp only [Session.bind, h, hspend]

theorem bind_of_left (h : m left s = (.after time a, s'))
    (hspend : spend time left = some left') :
    (m >>= f) left s = later time (f a left' s') := by
  show Session.bind m f left s = _
  simp only [Session.bind, h, hspend]

end

/-- What is said at once takes no time. -/
theorem pure_bind (a : α) (f : α → Session σ β) : (pure a : Session σ α) >>= f = f a := by
  funext left s
  have hspend : spend ⟨0⟩ left = some left := by
    cases left with
    | none => rfl
    | some l => rfl
  have hpure : (pure a : Session σ α) left s = (.after ⟨0⟩ a, s) := rfl
  rw [bind_of_left hpure hspend]
  rcases f a left s with ⟨_ | _, s'⟩
  case after d b =>
    show (Timed.after ⟨0 + d.nanoseconds⟩ b, s') = _
    rw [Nat.zero_add]
  case never => rfl

/-- Nothing follows a failure. -/
theorem run_throw_bind (failure : Failure) (f : α → ExceptT Failure (Session σ) β) :
    (throw failure >>= f).run = pure (.error failure) :=
  pure_bind _ _

/-- One conversation after another. -/
theorem Recorded.bind {P : List Transmission → Option α → Prop}
    {Q : List Transmission → Option β → Prop} {m : Session σ α}
    {m' : Session (σ × List Transmission) α} {f : α → Session σ β}
    {f' : α → Session (σ × List Transmission) β} (hm : Recorded P m m')
    (hbroken : ∀ new what, P new what → Q new none)
    (hf : ∀ new a, P new (some a) → Recorded (fun new' => Q (new ++ new')) (f a) (f' a)) :
    Recorded Q (m >>= f) (m' >>= f') := by
  intro left s
  obtain ⟨new, hnew, hlog⟩ := hm left s
  rcases hms : m left s with ⟨_ | _, s'⟩
  case after time a =>
    rw [hms] at hnew hlog
    have hrecord : ∀ log, m' left (s, log) = (.after time a, s', log ++ new) := hlog
    cases hspend : spend time left with
    | none =>
      rw [bind_of_spent hms hspend]
      exact ⟨new, hbroken new _ hnew, fun log => bind_of_spent (hrecord log) hspend⟩
    | some left' =>
      obtain ⟨new', hnew', hafter⟩ := hf new a hnew left' s'
      rw [bind_of_left hms hspend, what?_later]
      refine ⟨new ++ new', hnew', fun log => ?_⟩
      rw [bind_of_left (hrecord log) hspend, hafter, List.append_assoc, later_record]
  case never =>
    rw [hms] at hnew hlog
    rw [bind_of_never hms]
    exact ⟨new, hbroken new _ hnew, fun log => bind_of_never (hlog log)⟩

theorem Recorded.mono {P Q : List Transmission → Option α → Prop} {m : Session σ α}
    {m' : Session (σ × List Transmission) α} (h : Recorded P m m')
    (hPQ : ∀ new what, P new what → Q new what) : Recorded Q m m' := by
  intro left s
  obtain ⟨new, hP, hlog⟩ := h left s
  exact ⟨new, hPQ _ _ hP, hlog⟩

/-- A conversation after one that only asks questions. -/
theorem Asks.bind {P : List Transmission → Option β → Prop} {m : Session σ α}
    {m' : Session (σ × List Transmission) α} {f : α → Session σ β}
    {f' : α → Session (σ × List Transmission) β} (hm : Asks m m')
    (hP : AfterQuestions P) (hf : ∀ a, Recorded P (f a) (f' a)) :
    Recorded P (m >>= f) (m' >>= f') :=
  Recorded.bind hm (fun asked _ hasked => hP.never asked hasked) fun asked a hasked =>
    (hf a).mono fun new what => hP.append asked new what hasked

/-- A conversation that goes on only if there is no failure. -/
theorem Asks.bindExcept {P : List Transmission → Option (Except Failure β) → Prop}
    {m : ExceptT Failure (Session σ) α} {m' : ExceptT Failure (Session (σ × List Transmission)) α}
    {f : α → ExceptT Failure (Session σ) β}
    {f' : α → ExceptT Failure (Session (σ × List Transmission)) β} (hm : Asks m.run m'.run)
    (hP : AfterQuestions P) (hfailure : ∀ failure, P [] (some (.error failure)))
    (hf : ∀ a, Recorded P (f a).run (f' a).run) :
    Recorded P (m >>= f).run (m' >>= f').run := by
  refine Asks.bind hm hP fun result => ?_
  cases result with
  | ok a => exact hf a
  | error failure => exact recorded_pure (hfailure failure)

theorem recorded_liftExcept {P : List Transmission → Option (Except Failure α) → Prop}
    {result : Except Failure α} (h : P [] (some result)) :
    Recorded P (liftExcept result : ExceptT Failure (Session σ) α).run
      (liftExcept result : ExceptT Failure (Session (σ × List Transmission)) α).run := by
  cases result with
  | ok a => exact recorded_pure h
  | error failure => exact recorded_pure h

/-- More questions, if there is no failure. -/
theorem Asks.andThen {m : ExceptT Failure (Session σ) α}
    {m' : ExceptT Failure (Session (σ × List Transmission)) α}
    {f : α → ExceptT Failure (Session σ) β}
    {f' : α → ExceptT Failure (Session (σ × List Transmission)) β} (hm : Asks m.run m'.run)
    (hf : ∀ a, Asks (f a).run (f' a).run) : Asks (m >>= f).run (m' >>= f').run :=
  hm.bindExcept afterQuestions_asks (fun _ _ ht => absurd ht List.not_mem_nil) hf

theorem asks_pure {a : α} : Asks (pure a : Session σ α) (pure a) :=
  recorded_pure fun _ ht => absurd ht List.not_mem_nil

theorem asks_liftExcept (result : Except Failure α) :
    Asks (liftExcept result : ExceptT Failure (Session σ) α).run
      (liftExcept result : ExceptT Failure (Session (σ × List Transmission)) α).run :=
  recorded_liftExcept fun _ ht => absurd ht List.not_mem_nil

end Session

end Switchboard
