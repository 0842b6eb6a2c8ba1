/-!
# Durations

A span of time in whole nanoseconds.

## Main definitions

* `Duration` — the span.
* `Duration.ofMillis`, `Duration.ofSeconds` — spans in other units.
* `Duration.wholeMillis`, `Duration.wholeSeconds` — spans counted in other
  units, rounded down.
* `Duration.roundUp` — a span rounded up to whole milliseconds.
-/

namespace Switchboard

/-- A span of time. -/
structure Duration where
  /-- The length in nanoseconds. -/
  nanoseconds : Nat
  deriving DecidableEq, Repr, Inhabited

namespace Duration

/-- The span of a number of milliseconds. -/
def ofMillis (n : Nat) : Duration := ⟨n * 1000000⟩

/-- The span of a number of seconds. -/
def ofSeconds (n : Nat) : Duration := ⟨n * 1000000000⟩

/-- The number of whole milliseconds. -/
def wholeMillis (d : Duration) : Nat := d.nanoseconds / 1000000

/-- The number of whole seconds. -/
def wholeSeconds (d : Duration) : Nat := d.nanoseconds / 1000000000

/-- The nanoseconds beyond the last whole second. -/
def subsecond (d : Duration) : Nat := d.nanoseconds % 1000000000

/-- The span rounded up to whole milliseconds. -/
def roundUp (d : Duration) : Duration := ofMillis ((d.nanoseconds + 999999) / 1000000)

@[simp] theorem wholeMillis_ofMillis (n : Nat) : (ofMillis n).wholeMillis = n := by
  simp only [wholeMillis, ofMillis]; omega

@[simp] theorem wholeSeconds_ofSeconds (n : Nat) : (ofSeconds n).wholeSeconds = n := by
  simp only [wholeSeconds, ofSeconds]; omega

end Duration

end Switchboard
