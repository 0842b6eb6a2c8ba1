import Switchboard.Call.Preparation
import Switchboard.Registry

/-!
# Calls

A call validates its endpoint, takes a client from the registry, and makes
attempts until one does not time out or the retry budget is spent.

## Main definitions

* `Backend σ δ` — how clients are built and what they do.
* `Run` — the attempts of a call.
* `attempts` — makes them.
* `call` — a whole call.
-/

namespace Switchboard

/-- How clients are built and what they do.  `δ` is what does a client's work,
`σ` what the surroundings remember between one use and the next. -/
structure Backend (σ δ : Type) where
  /-- Builds what does the work of a client. -/
  create : Endpoint → Connection → σ → Except Failure δ × σ
  /-- What a client does with a request. -/
  perform : Client δ → CallRequest → σ → Behaviour × σ
  /-- The timer that cuts attempts off and ends the waits between them. -/
  timer : Timer σ

/-- The attempts of a call. -/
structure Run where
  /-- What came of the last attempt. -/
  last : Attempt
  /-- What came of those before it, each with the wait that followed, in order. -/
  retried : List (Attempt × Duration)
  /-- How long the attempts and the waits took together. -/
  elapsed : Duration
  deriving Inhabited

namespace Run

/-- The number of attempts. -/
def count (r : Run) : Nat := r.retried.length + 1

/-- The waits between them, in order. -/
def pauses (r : Run) : List Duration := r.retried.map Prod.snd

/-- A single attempt. -/
def single (a : Attempt) (time : Duration) : Run := ⟨a, [], time⟩

/-- The attempts of a call after one that was tried again.  That one took `time`, and the
wait that follows takes `waited`. -/
def after (a : Attempt) (time pause waited : Duration) (r : Run) : Run where
  last := r.last
  retried := (a, pause) :: r.retried
  elapsed := ⟨time.nanoseconds + waited.nanoseconds + r.elapsed.nanoseconds⟩

@[simp] theorem pauses_single (a : Attempt) (time : Duration) : (single a time).pauses = [] := rfl

@[simp] theorem pauses_after (a : Attempt) (time pause waited : Duration) (r : Run) :
    (r.after a time pause waited).pauses = pause :: r.pauses := rfl

end Run

/-- Another attempt is only made within the budget. -/
theorem RetryPolicy.lt_of_next_retry {p : RetryPolicy} {n m : UInt32} {o : Outcome}
    {d : Duration} (h : p.next n o = .retry m d) : n < p.maxRetries ∧ m = n + 1 := by
  cases o <;> simp only [RetryPolicy.next, reduceCtorEq] at h
  split at h <;> simp_all

/-- Each attempt takes one from what the budget has left. -/
theorem RetryPolicy.left_lt_of_next_retry {p : RetryPolicy} {n m : UInt32} {o : Outcome}
    {d : Duration} (h : p.next n o = .retry m d) :
    p.maxRetries.toNat - m.toNat < p.maxRetries.toNat - n.toNat := by
  obtain ⟨lt, rfl⟩ := lt_of_next_retry h
  have hn : n.toNat < p.maxRetries.toNat := lt
  have hp := p.maxRetries.toNat_lt
  have : (n + 1).toNat = n.toNat + 1 := by
    rw [UInt32.toNat_add, UInt32.toNat_one, Nat.mod_eq_of_lt (by omega)]
  omega

section

variable {σ δ : Type}

/-- The attempts of a call from the one with number `n` on, each under the same
limit; nothing if one of them never ends.  `step` is what the client does with
the request, and `t` is the timer. -/
def attempts (p : RetryPolicy) (t : Timer σ) (limit : Option Duration)
    (step : σ → Behaviour × σ) (n : UInt32) (s : σ) : Option Run × σ :=
  match (step s).1.within (t.cut limit s) with
  | none => (none, (step s).2)
  | some (a, time) =>
    match _h : p.next n a.outcome with
    | .finish _ => (some (.single a time), (step s).2)
    | .retry m pause =>
      let rest := attempts p t limit step m (step s).2
      (rest.1.map (Run.after a time pause (t.lasts (step s).2 pause)), rest.2)
termination_by p.maxRetries.toNat - n.toNat
decreasing_by exact RetryPolicy.left_lt_of_next_retry (by assumption)

/-- What a call came to. -/
structure Report where
  /-- What the caller sees. -/
  result : Except FailedCall CallResult
  /-- What came of the attempts that were tried again, each with the wait that followed, in
  order. -/
  retried : List (Attempt × Duration)
  /-- How long the call took. -/
  elapsed : Duration
  deriving Inhabited

/-- The waits between the attempts, in order. -/
def Report.pauses (r : Report) : List Duration := r.retried.map Prod.snd

/-- The report of a call that failed before any attempt. -/
def Report.beforeCall (f : Failure) : Report := ⟨.error (.beforeCall f), [], ⟨0⟩⟩

/-- The report of the attempts of a call. -/
def Run.report (r : Run) : Report := ⟨r.last.finish, r.retried, r.elapsed⟩

@[simp] theorem Run.pauses_report (r : Run) : r.report.pauses = r.pauses := rfl

/-- A call; nothing if it never ends. -/
def call (b : Backend σ δ) (e : Endpoint) (params : CallParams) (config : Connection)
    (r : Registry δ) (s : σ) : Option Report × Registry δ × σ :=
  match e.validate with
  | .error f => (some (.beforeCall f), r, s)
  | .ok () =>
    match r.getOrCreate (b.create e config) e config s with
    | (.error f, r, s) => (some (.beforeCall f), r, s)
    | (.ok c, r, s) =>
      let request := CallRequest.prepare e params
      let step := r.request (b.perform c request) c
      let run := attempts ⟨e.maxRetries⟩ b.timer request.deadline step 0 s
      (run.1.map Run.report, r, run.2)

/-- The text of an orchestrator. -/
def orchestratorText (r : Registry δ) : String :=
  "CallOrchestrator \x7b cache: " ++ r.text ++ ", .. \x7d"

end

end Switchboard
