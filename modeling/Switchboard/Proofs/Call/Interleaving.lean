import Mathlib.Logic.Function.Basic
import Switchboard.Proofs.Call.Attempts

/-!
# Calls that run at the same time

Any number of calls share one registry while clients are evicted from it.  A call
goes forward in steps: it gets its client, it starts an attempt, the attempt ends, a
wait ends.  Between two steps of a call, others may take any number of theirs, and any
number of clients may be evicted.  Every call brings what builds its clients, so that calls
of several orchestrators can share the registry.

What a client does with a request is decided when it is handed over: the surroundings
then say what it will be and how long it will take.  Since nothing is said about the
surroundings, that can be anything.

## Main definitions

* `Call` — what a caller asks for; `Stage` — how far a call has come.
* `Call.step` — the next step of a call.
* `Event` — what is noted of a step.
* `Turn`, `Scene` — whose turn it is, and the registry with all calls on it.
* `Scene.run calls s schedule` — the scene after the turns of a schedule.

## Main results

* `run_alone` — a call that nobody interrupts does what `call` does.
-/

namespace Switchboard.Concurrent

variable {σ δ : Type}

/-! ### Calls and their steps -/

/-- What a caller asks for, and what builds clients for it and speaks to them. -/
structure Call (σ δ : Type) where
  /-- What builds clients and speaks to them. -/
  backend : Backend σ δ
  /-- The endpoint that is called. -/
  endpoint : Endpoint
  /-- What the caller gives. -/
  params : CallParams
  /-- How clients connect. -/
  config : Connection

/-- How far a call has come. -/
inductive Stage (δ : Type) where
  /-- It has no client yet. -/
  | waiting
  /-- The attempt with the given number is to be started. -/
  | ready (c : Client δ) (n : UInt32)
  /-- It has been started, and will come to this after some time; nothing if it never ends. -/
  | running (c : Client δ) (n : UInt32) (fate : Option (Attempt × Duration))
  /-- The call waits before the attempt with the given number. -/
  | pausing (c : Client δ) (n : UInt32)
  /-- The caller has a result. -/
  | finished (result : Except FailedCall CallResult)

/-- What is noted of a step. -/
inductive Event (σ δ : Type) where
  /-- A call got its client. -/
  | obtained (i : ℕ) (c : Client δ)
  /-- An attempt was handed to a client, in the given surroundings. -/
  | started (i : ℕ) (c : Client δ) (n : UInt32) (x : σ)
  /-- An attempt was refused by a closed client. -/
  | refused (i : ℕ) (c : Client δ) (n : UInt32)
  /-- An attempt came to an end. -/
  | ended (i : ℕ) (c : Client δ) (n : UInt32) (a : Attempt)
  /-- A call began to wait before the attempt with the given number. -/
  | paused (i : ℕ) (c : Client δ) (n : UInt32) (pause : Duration)
  /-- A client was evicted. -/
  | evicted (c : Client δ)

/-- What a step leads to. -/
structure Effect (σ δ : Type) where
  /-- How far the call has come then. -/
  stage : Stage δ
  /-- The registry after the step. -/
  registry : Registry δ
  /-- What the surroundings remember then. -/
  surroundings : σ
  /-- What is noted of the step, the latest first. -/
  events : List (Event σ δ)

namespace Call

/-- The request that every attempt makes. -/
def request (k : Call σ δ) : CallRequest := .prepare k.endpoint k.params

/-- The limit of an attempt. -/
def limit (k : Call σ δ) : Option Duration := k.request.deadline

/-- What an attempt comes to that starts in the given surroundings, if the client does this
with it. -/
def fate (k : Call σ δ) (x : σ) (behaviour : Behaviour) : Option (Attempt × Duration) :=
  behaviour.within (k.backend.timer.cut k.limit x)

/-- What an attempt on a client comes to in the given surroundings; nothing if it never
ends. -/
def outcome? (k : Call σ δ) (c : Client δ) (x : σ) : Option Attempt :=
  (k.fate x (k.backend.perform c k.request x).1).map Prod.fst

/-- The step that ends an attempt: the call is over, or waits before the next one. -/
def settle (k : Call σ δ) (i : ℕ) (r : Registry δ) (x : σ) (c : Client δ) (n : UInt32)
    (a : Attempt) : Effect σ δ :=
  match RetryPolicy.next ⟨k.endpoint.maxRetries⟩ n a.outcome with
  | .finish _ => ⟨.finished a.finish, r, x, [.ended i c n a]⟩
  | .retry m pause => ⟨.pausing c m, r, x, [.paused i c m pause, .ended i c n a]⟩

/-- The next step of the call with number `i`. -/
def step (k : Call σ δ) (i : ℕ) (r : Registry δ) (x : σ) : Stage δ → Effect σ δ
  | .waiting =>
    match k.endpoint.validate with
    | .error f => ⟨.finished (.error (.beforeCall f)), r, x, []⟩
    | .ok () =>
      match r.getOrCreate (k.backend.create k.endpoint k.config) k.endpoint k.config x with
      | (.error f, r, x) => ⟨.finished (.error (.beforeCall f)), r, x, []⟩
      | (.ok c, r, x) => ⟨.ready c 0, r, x, [.obtained i c]⟩
  | .ready c n =>
    let (behaviour, x') := r.request (k.backend.perform c k.request) c x
    ⟨.running c n (k.fate x behaviour), r, x',
      [if r.isClosed c then .refused i c n else .started i c n x]⟩
  | .running c n none => ⟨.running c n none, r, x, []⟩
  | .running c n (some (a, _)) => k.settle i r x c n a
  | .pausing c n => ⟨.ready c n, r, x, []⟩
  | .finished result => ⟨.finished result, r, x, []⟩

end Call

/-! ### Scenes -/

/-- Whose turn it is. -/
inductive Turn where
  /-- A call takes its next step. -/
  | call (i : ℕ)
  /-- The client of an endpoint is evicted. -/
  | evict (e : Endpoint) (config : Connection)
  /-- All clients are evicted. -/
  | evictAll

/-- The registry with all calls on it. -/
structure Scene (σ δ : Type) where
  /-- The registry. -/
  registry : Registry δ
  /-- What the surroundings remember. -/
  surroundings : σ
  /-- How far each call has come. -/
  stages : ℕ → Stage δ
  /-- What has been noted, the latest first. -/
  record : List (Event σ δ)

namespace Scene

/-- No call has taken a step. -/
def start (x : σ) : Scene σ δ := ⟨.empty, x, fun _ => .waiting, []⟩

/-- The scene that a step of the call with number `i` leads to. -/
def after (s : Scene σ δ) (i : ℕ) (e : Effect σ δ) : Scene σ δ :=
  ⟨e.registry, e.surroundings, Function.update s.stages i e.stage, e.events ++ s.record⟩

/-- The scene after the given clients have been evicted. -/
def without (s : Scene σ δ) (r : Registry δ) (gone : List (Client δ)) : Scene σ δ :=
  { s with registry := r, record := gone.map .evicted ++ s.record }

/-- The scene after a turn. -/
def step (calls : ℕ → Call σ δ) (s : Scene σ δ) : Turn → Scene σ δ
  | .call i => s.after i ((calls i).step i s.registry s.surroundings (s.stages i))
  | .evict e config =>
    s.without (s.registry.remove e config).2 (s.registry.get? e config).toList
  | .evictAll => s.without s.registry.clear.2 (s.registry.entries.map Prod.snd)

/-- The scene after the turns of a schedule. -/
def run (calls : ℕ → Call σ δ) (s : Scene σ δ) (schedule : List Turn) : Scene σ δ :=
  schedule.foldl (step calls) s

@[simp] theorem run_nil (calls : ℕ → Call σ δ) (s : Scene σ δ) : s.run calls [] = s := rfl

@[simp] theorem run_cons (calls : ℕ → Call σ δ) (s : Scene σ δ) (t : Turn)
    (schedule : List Turn) : s.run calls (t :: schedule) = (s.step calls t).run calls schedule :=
  rfl

theorem run_append (calls : ℕ → Call σ δ) (s : Scene σ δ) (before later : List Turn) :
    s.run calls (before ++ later) = (s.run calls before).run calls later :=
  List.foldl_append

theorem step_call (calls : ℕ → Call σ δ) {s : Scene σ δ} {i : ℕ} {g : Stage δ}
    (h : s.stages i = g) :
    s.step calls (.call i) = s.after i ((calls i).step i s.registry s.surroundings g) := by
  subst h
  rfl

@[simp] theorem stages_after_self (s : Scene σ δ) (i : ℕ) (e : Effect σ δ) :
    (s.after i e).stages i = e.stage := Function.update_self ..

theorem record_after (s : Scene σ δ) (i : ℕ) (e : Effect σ δ) :
    (s.after i e).record = e.events ++ s.record := rfl

theorem stages_after_of_ne (s : Scene σ δ) {i j : ℕ} (h : j ≠ i) (e : Effect σ δ) :
    (s.after i e).stages j = s.stages j := Function.update_of_ne h ..

end Scene

section

variable (calls : ℕ → Call σ δ) {s : Scene σ δ} {i : ℕ} {c : Client δ} {n : UInt32}

/-- An attempt is started, or refused, with the request of the call. -/
theorem Scene.step_ready (h : s.stages i = .ready c n) :
    s.step calls (.call i) = s.after i
      ⟨.running c n ((calls i).fate s.surroundings
          ((calls i).backend.stepOf s.registry c (calls i).request s.surroundings).1),
        s.registry,
        ((calls i).backend.stepOf s.registry c (calls i).request s.surroundings).2,
        [if s.registry.isClosed c then .refused i c n else .started i c n s.surroundings]⟩ := by
  rw [step_call calls h]
  rfl

theorem Scene.step_running {a : Attempt} {time : Duration}
    (h : s.stages i = .running c n (some (a, time))) :
    s.step calls (.call i) = s.after i ((calls i).settle i s.registry s.surroundings c n a) := by
  rw [step_call calls h, Call.step]

/-- What is there at once comes of the attempt. -/
@[simp] theorem Call.fate_now (k : Call σ δ) (x : σ) (a : Attempt) :
    k.fate x (.now a) = some (a, ⟨0⟩) := Timed.within_now _ a

theorem Scene.step_pausing (h : s.stages i = .pausing c n) :
    s.step calls (.call i) = s.after i ⟨.ready c n, s.registry, s.surroundings, []⟩ := by
  rw [step_call calls h, Call.step]

theorem Call.settle_of_finish {k : Call σ δ} {r : Registry δ} {x : σ} {a : Attempt} {b : Bool}
    (h : RetryPolicy.next ⟨k.endpoint.maxRetries⟩ n a.outcome = .finish b) :
    k.settle i r x c n a = ⟨.finished a.finish, r, x, [.ended i c n a]⟩ := by
  rw [settle, h]

theorem Call.settle_of_retry {k : Call σ δ} {r : Registry δ} {x : σ} {a : Attempt} {m : UInt32}
    {pause : Duration} (h : RetryPolicy.next ⟨k.endpoint.maxRetries⟩ n a.outcome = .retry m pause) :
    k.settle i r x c n a
      = ⟨.pausing c m, r, x, [.paused i c m pause, .ended i c n a]⟩ := by
  rw [settle, h]

end

/-! ### Calls that nobody interrupts -/

/-- The wait that an event says the call with number `i` began. -/
def Event.pauseOf? (i : ℕ) : Event σ δ → Option Duration
  | .paused j _ _ pause => if j = i then some pause else none
  | _ => none

/-- The waits of the call with number `i`, the latest first. -/
def Scene.pauses (s : Scene σ δ) (i : ℕ) : List Duration := s.record.filterMap (Event.pauseOf? i)

theorem Scene.pauses_after (s : Scene σ δ) (i j : ℕ) (e : Effect σ δ) :
    (s.after i e).pauses j = e.events.filterMap (Event.pauseOf? j) ++ s.pauses j :=
  List.filterMap_append

/-- From a scene with the given waits, the call with number `i` has come to what `o`
says: a report, or an attempt that never ends. -/
structure Scene.EndsIn (calls : ℕ → Call σ δ) (s : Scene σ δ) (i : ℕ) (before : List Duration)
    (o : Option Report × Registry δ × σ) : Prop where
  /-- The caller has the result of the report, after its waits. -/
  reported : ∀ report, o.1 = some report →
    s.stages i = .finished report.result ∧ s.pauses i = report.pauses.reverse ++ before
  /-- Without a report, an attempt never ends. -/
  never : o.1 = none → ∃ c n, s.stages i = .running c n none
  /-- The registry is as the report leaves it. -/
  registry : s.registry = o.2.1
  /-- So are the surroundings. -/
  surroundings : s.surroundings = o.2.2

/-- From the start of an attempt, a call that nobody interrupts makes the attempts of
`attempts`. -/
theorem run_attempts (calls : ℕ → Call σ δ) (i : ℕ) (r : Registry δ) (c : Client δ)
    (n : UInt32) (x : σ) (s : Scene σ δ) (hstage : s.stages i = .ready c n)
    (hregistry : s.registry = r) (hsurroundings : s.surroundings = x) :
    ∃ m, (s.run calls (List.replicate m (.call i))).EndsIn calls i (s.pauses i)
      ((attempts ⟨(calls i).endpoint.maxRetries⟩ (calls i).backend.timer (calls i).limit
          ((calls i).backend.stepOf r c (calls i).request) n x).1.map Run.report,
        r, (attempts ⟨(calls i).endpoint.maxRetries⟩ (calls i).backend.timer (calls i).limit
          ((calls i).backend.stepOf r c (calls i).request) n x).2) := by
  induction n, x using attempts.induct ⟨(calls i).endpoint.maxRetries⟩ (calls i).backend.timer
    (calls i).limit ((calls i).backend.stepOf r c (calls i).request) generalizing s with
  | case1 n x h =>
    subst hregistry hsurroundings
    refine ⟨1, ?_⟩
    have hfate : (calls i).fate s.surroundings
        ((calls i).backend.stepOf s.registry c (calls i).request s.surroundings).1 = none := h
    rw [attempts_of_never h, List.replicate_one, Scene.run_cons, Scene.run_nil,
      Scene.step_ready calls hstage, hfate]
    exact ⟨fun _ h => (nomatch h), fun _ => ⟨c, n, Scene.stages_after_self ..⟩, rfl, rfl⟩
  | case2 n x a time h b hnext =>
    subst hregistry hsurroundings
    have hrunning := Scene.step_ready calls hstage
    have hfate : (calls i).fate s.surroundings ((calls i).backend.stepOf s.registry c
        (calls i).request s.surroundings).1 = some (a, time) := h
    rw [hfate] at hrunning
    refine ⟨2, ?_⟩
    rw [attempts_of_finish h hnext, List.replicate_succ, List.replicate_one, Scene.run_cons,
      hrunning, Scene.run_cons, Scene.step_running calls (Scene.stages_after_self ..),
      Call.settle_of_finish hnext, Scene.run_nil]
    refine ⟨fun report hreport => ?_, fun h => (nomatch h), rfl, rfl⟩
    cases hreport
    refine ⟨Scene.stages_after_self .., ?_⟩
    rw [Scene.pauses_after, Scene.pauses_after]
    split <;> rfl
  | case3 n x a time h m pause hnext ih =>
    subst hregistry hsurroundings
    have hrunning := Scene.step_ready calls hstage
    have hfate : (calls i).fate s.surroundings ((calls i).backend.stepOf s.registry c
        (calls i).request s.surroundings).1 = some (a, time) := h
    rw [hfate] at hrunning
    -- the attempt starts and ends, and the wait ends
    have hthree : ∃ s' : Scene σ δ, s.run calls (List.replicate 3 (.call i)) = s' ∧
        s'.stages i = .ready c m ∧ s'.registry = s.registry ∧
        s'.surroundings = ((calls i).backend.stepOf s.registry c (calls i).request
          s.surroundings).2 ∧ s'.pauses i = pause :: s.pauses i := by
      rw [List.replicate_succ, List.replicate_succ, List.replicate_one, Scene.run_cons,
        hrunning, Scene.run_cons, Scene.step_running calls (Scene.stages_after_self ..),
        Call.settle_of_retry hnext, Scene.run_cons,
        Scene.step_pausing calls (Scene.stages_after_self ..), Scene.run_nil]
      refine ⟨_, rfl, Scene.stages_after_self .., rfl, rfl, ?_⟩
      rw [Scene.pauses_after, Scene.pauses_after, Scene.pauses_after]
      split <;> simp [List.filterMap_cons, Event.pauseOf?]
    obtain ⟨s', hs', hstage', hregistry', hsurroundings', hpauses'⟩ := hthree
    obtain ⟨k, hk⟩ := ih s' hstage' hregistry' hsurroundings'
    refine ⟨3 + k, ?_⟩
    rw [attempts_of_retry h hnext, List.replicate_add, Scene.run_append, hs']
    refine ⟨fun report hreport => ?_, fun hnone => hk.never ?_, hk.registry, hk.surroundings⟩
    · -- the report of the rest, with this wait before its own
      rw [Option.map_map] at hreport
      obtain ⟨run, hrun, rfl⟩ := Option.map_eq_some_iff.mp hreport
      obtain ⟨hover, hpauses⟩ := hk.reported run.report (by rw [hrun]; rfl)
      refine ⟨hover, hpauses.trans ?_⟩
      rw [hpauses']
      simp
    · rw [Option.map_map] at hnone
      rw [Option.map_eq_none_iff] at hnone ⊢
      exact hnone

/-- **A call that nobody interrupts** comes to what `call` does, with the same waits, and
leaves the registry and the surroundings as `call` does. -/
theorem run_alone (calls : ℕ → Call σ δ) (s : Scene σ δ) (i : ℕ) (h : s.stages i = .waiting) :
    ∃ m, (s.run calls (List.replicate m (.call i))).EndsIn calls i (s.pauses i)
      (call (calls i).backend (calls i).endpoint (calls i).params (calls i).config s.registry
        s.surroundings) := by
  -- the first step decides whether there will be attempts
  have hstep := Scene.step_call calls h
  cases hvalid : (calls i).endpoint.validate with
  | error f =>
    refine ⟨1, ?_⟩
    rw [call_of_invalid hvalid, List.replicate_one, Scene.run_cons, Scene.run_nil, hstep,
      Call.step, hvalid]
    refine ⟨fun report hreport => ?_, fun h => (nomatch h), rfl, rfl⟩
    cases hreport
    exact ⟨Scene.stages_after_self .., rfl⟩
  | ok u =>
    rcases hclient : s.registry.getOrCreate ((calls i).backend.create (calls i).endpoint
      (calls i).config) (calls i).endpoint (calls i).config s.surroundings with ⟨f | c, r, x⟩
    · refine ⟨1, ?_⟩
      rw [call_of_error hvalid hclient, List.replicate_one, Scene.run_cons, Scene.run_nil, hstep,
        Call.step, hvalid]
      simp only [hclient]
      refine ⟨fun report hreport => ?_, fun h => (nomatch h), rfl, rfl⟩
      cases hreport
      exact ⟨Scene.stages_after_self .., rfl⟩
    · have hready : s.step calls (.call i) = s.after i ⟨.ready c 0, r, x, [.obtained i c]⟩ := by
        rw [hstep, Call.step, hvalid]
        simp only [hclient]
      obtain ⟨m, hm⟩ := run_attempts calls i r c 0 x (s.step calls (.call i))
        (by rw [hready]; exact Scene.stages_after_self ..) (by rw [hready]; rfl)
        (by rw [hready]; rfl)
      refine ⟨m + 1, ?_⟩
      rw [call_of_client hvalid hclient rfl, List.replicate_succ, Scene.run_cons]
      rw [hready] at hm ⊢
      exact hm

end Switchboard.Concurrent
