import Switchboard.Duration
import Switchboard.Json.Record

/-!
# Timeouts

How long one attempt may take.  A timeout is configured as a number of
milliseconds: a positive number is used as it is, `-1` lifts the limit, and any
other number asks for the default.

## Main definitions

* `Timeout` — the three policies.
* `Timeout.ofMillis`, `Timeout.ofDuration`, `Timeout.millis` — the configured
  forms.
* `Timeout.deadline` — the limit on an attempt.
-/

namespace Switchboard

/-- How long one attempt may take. -/
inductive Timeout where
  /-- The default limit. -/
  | standard
  /-- No limit. -/
  | unbounded
  /-- The given limit. -/
  | fixed (d : Duration)
  deriving DecidableEq, Repr, Inhabited

namespace Timeout

/-- The default limit is thirty seconds. -/
def standardLimit : Duration := .ofSeconds 30

/-- The timeout configured as a number of milliseconds. -/
def ofMillis (n : Int) : Timeout :=
  if n = -1 then .unbounded
  else if 0 < n then .fixed (.ofMillis n.toNat)
  else .standard

/-- The timeout given as a span of time; an empty span asks for the default. -/
def ofDuration (d : Duration) : Timeout :=
  if d.nanoseconds = 0 then .standard else .fixed d

/-- The limit on an attempt, if there is one. -/
def deadline : Timeout → Option Duration
  | .standard => some standardLimit
  | .unbounded => none
  | .fixed d => some d

/-- The number of milliseconds that a timeout is written as: whole milliseconds,
and no more than sixty-four bits hold. -/
def millis : Timeout → Int
  | .standard => 0
  | .unbounded => -1
  | .fixed d => min d.wholeMillis (2 ^ 63 - 1)

/-- Reads the written form, a number of milliseconds. -/
def ofDocument? (d : Json.Document) : Option Timeout :=
  d.signed64?.map ofMillis

@[simp] theorem deadline_standard : deadline .standard = some standardLimit := rfl

@[simp] theorem deadline_unbounded : deadline .unbounded = none := rfl

@[simp] theorem deadline_fixed (d : Duration) : deadline (.fixed d) = some d := rfl

end Timeout

end Switchboard
