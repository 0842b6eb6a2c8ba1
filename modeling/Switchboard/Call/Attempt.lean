import Switchboard.Call.Decoding
import Switchboard.Retry
import Switchboard.Timed
import Switchboard.Timer

/-!
# Attempts

What came of one attempt, how long it took, and what the caller sees if it was
the last.

## Main definitions

* `Attempt` — a response or a failure.
* `Attempt.outcome` — whether the attempt counts as a success or a timeout.
* `Attempt.finish` — what the caller sees.
* `Behaviour` — what a client does with a request, and when.
* `Attempt.cutOff` — what comes of it at its limit.
* `Timer.cut` — what comes of it when the timer goes off, and when.
-/

namespace Switchboard

/-- What came of an attempt: a response, which may report a failure itself, or a
failure without one. -/
abbrev Attempt := Except Failure CallResponse

namespace Attempt

/-- The failure that an attempt ended in, if it did. -/
def failure? : Attempt → Option Failure
  | .ok r => r.failure
  | .error f => some f

/-- How an attempt ended. -/
def outcome (a : Attempt) : Outcome :=
  match a.failure? with
  | none => .succeeded
  | some f => if f.isTimeout then .timedOut else .failed

/-- The result of an attempt in the shape that all protocols share. -/
def result : Attempt → CallResult
  | .ok r => ⟨r.status, r.body.value, r.headers, r.failure.map Failure.message⟩
  | .error f => .failed f

/-- What the caller sees of the last attempt.  The line that is logged with it is left out,
and with it the number of attempts, which nothing else shows. -/
def finish (a : Attempt) : Except FailedCall CallResult :=
  match a.failure? with
  | none => .ok a.result
  | some f => .error (.withResult f a.result)

@[simp] theorem failure?_error (f : Failure) : failure? (.error f) = some f := rfl

@[simp] theorem failure?_ok (r : CallResponse) : failure? (.ok r) = r.failure := rfl

@[simp] theorem result_error (f : Failure) : result (.error f) = .failed f := rfl

/-- The result carries the message of the failure, and no message without one. -/
theorem error_result (a : Attempt) : a.result.error = a.failure?.map Failure.message := by
  cases a <;> rfl

end Attempt

/-! ### Time -/

/-- What a client does with a request, and when. -/
abbrev Behaviour := Timed Attempt

/-- What an attempt comes to that was cut off at its limit. -/
def Attempt.cutOff (limit : Duration) : Attempt :=
  .error (.timeout ("deadline of " ++ toString limit.wholeMillis ++ "ms exceeded"))

/-- What an attempt comes to when the timer for its limit goes off, and how long that takes,
if it begins in the given surroundings; nothing without a limit. -/
def Timer.cut {σ : Type} (t : Timer σ) (limit : Option Duration) (s : σ) :
    Option (Attempt × Duration) :=
  limit.map fun l => (.cutOff l, t.lasts s l)

@[simp] theorem Timer.cut_some {σ : Type} (t : Timer σ) (l : Duration) (s : σ) :
    t.cut (some l) s = some (.cutOff l, t.lasts s l) := rfl

end Switchboard
