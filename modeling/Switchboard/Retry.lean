import Switchboard.Duration
import Switchboard.Power

/-!
# Retrying after a timeout

An attempt that ran out of time is repeated as long as the budget lasts; any
other outcome ends the call.  Before attempt `n + 1` the caller waits `2 ^ n`
seconds, and never more than `2 ^ 16`.

## Main definitions

* `Outcome` — how an attempt ended.
* `RetryPolicy.next` — what to do after an attempt.
* `backoffBefore` — the wait before an attempt.
* `RetryPolicy.maxAttempts` — the number of attempts that the budget allows.
-/

namespace Switchboard

/-- How an attempt ended. -/
inductive Outcome where
  /-- With an answer. -/
  | succeeded
  /-- At its deadline. -/
  | timedOut
  /-- With any other failure. -/
  | failed
  deriving DecidableEq, Repr, Inhabited

/-- What to do after an attempt. -/
inductive Transition where
  /-- Wait, then make the attempt with the given number. -/
  | retry (attempt : UInt32) (backoff : Duration)
  /-- Stop, with or without success. -/
  | finish (success : Bool)
  deriving DecidableEq, Repr, Inhabited

/-- The greatest power of two that a wait takes, in seconds. -/
def maxBackoffExponent : Nat := 16

/-- The wait before an attempt: none before the first. -/
def backoffBefore (attempt : UInt32) : Duration :=
  if attempt = 0 then ⟨0⟩
  else .ofSeconds (2 ^ min (attempt.toNat - 1) maxBackoffExponent)

/-- The retry budget of a call. -/
structure RetryPolicy where
  /-- How often a call that ran out of time is tried again. -/
  maxRetries : UInt32
  deriving DecidableEq, Repr, Inhabited

namespace RetryPolicy

/-- The number of attempts that the budget allows, as far as thirty-two bits can
count it. -/
def maxAttempts (p : RetryPolicy) : UInt32 :=
  if p.maxRetries = 0xFFFFFFFF then p.maxRetries else p.maxRetries + 1

/-- What to do after the attempt with the given number. -/
def next (p : RetryPolicy) (attempt : UInt32) : Outcome → Transition
  | .succeeded => .finish true
  | .failed => .finish false
  | .timedOut =>
    if attempt < p.maxRetries then .retry (attempt + 1) (backoffBefore (attempt + 1))
    else .finish false

@[simp] theorem next_succeeded (p : RetryPolicy) (n : UInt32) :
    p.next n .succeeded = .finish true := rfl

@[simp] theorem next_failed (p : RetryPolicy) (n : UInt32) :
    p.next n .failed = .finish false := rfl

/-- Below the budget, a timeout leads to the next attempt. -/
theorem next_timedOut_of_lt {p : RetryPolicy} {n : UInt32} (h : n < p.maxRetries) :
    p.next n .timedOut = .retry (n + 1) (backoffBefore (n + 1)) := if_pos h

end RetryPolicy

end Switchboard
