import Switchboard.Duration

/-!
# Timers

Whoever waits for a span of time sets a timer and goes on when it goes off.  How long
that takes is for the timer to say: one that counts whole milliseconds goes off with the
first of them that is not too early.

## Main definitions

* `Timer σ` — when a timer goes off.
* `Timer.exact` — a timer that is never late.
* `Timer.ticking` — a timer that counts whole milliseconds.
-/

namespace Switchboard

/-- When a timer goes off.  `σ` is what the surroundings remember. -/
structure Timer (σ : Type) where
  /-- How long it takes until a timer goes off that is set to a span of time in the given
  surroundings. -/
  lasts : σ → Duration → Duration

namespace Timer

variable {σ : Type}

/-- A timer that is never late. -/
def exact : Timer σ := ⟨fun _ d => d⟩

/-- A timer that counts whole milliseconds, set when one begins. -/
def ticking : Timer σ := ⟨fun _ d => d.roundUp⟩

/-- The same timer in surroundings that also keep a record. -/
def recording {ν : Type} (t : Timer σ) : Timer (σ × ν) := ⟨fun p d => t.lasts p.1 d⟩

@[simp] theorem lasts_exact (s : σ) (d : Duration) : (exact : Timer σ).lasts s d = d := rfl

@[simp] theorem lasts_ticking (s : σ) (d : Duration) :
    (ticking : Timer σ).lasts s d = d.roundUp := rfl

@[simp] theorem lasts_recording {ν : Type} (t : Timer σ) (s : σ) (record : ν) (d : Duration) :
    t.recording.lasts (s, record) d = t.lasts s d := rfl

end Timer

end Switchboard
