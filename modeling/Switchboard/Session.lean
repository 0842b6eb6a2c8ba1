import Switchboard.Timed

/-!
# Conversations

A conversation is a sequence of exchanges with the surroundings, each of which
takes its time.  When the time that is left for the whole is used up, nothing
more is said.

## Main definitions

* `Session σ α` — a conversation; `σ` is what the surroundings remember.
* `Session.exchange` — a single exchange.
* `Session.run` — what comes of a conversation.
-/

namespace Switchboard

/-- What comes of a conversation for which the given time is left, and what the
surroundings remember afterwards. -/
def Session (σ α : Type) : Type := Option Duration → σ → Timed α × σ

namespace Session

variable {σ α β : Type}

/-- Nothing is said. -/
protected def pure (a : α) : Session σ α := fun _ s => (.now a, s)

/-- What comes of a conversation after some time. -/
def later (time : Duration) : Timed α × σ → Timed α × σ
  | (.after d a, s) => (.after ⟨time.nanoseconds + d.nanoseconds⟩ a, s)
  | (.never, s) => (.never, s)

/-- The time that is left after a part of it; nothing if it was not enough. -/
def spend (time : Duration) : Option Duration → Option (Option Duration)
  | none => some none
  | some l =>
    if time.nanoseconds ≤ l.nanoseconds then some (some ⟨l.nanoseconds - time.nanoseconds⟩)
    else none

/-- One conversation after another, if there is time for it. -/
protected def bind (m : Session σ α) (f : α → Session σ β) : Session σ β := fun left s =>
  match m left s with
  | (.never, s) => (.never, s)
  | (.after d a, s) =>
    match spend d left with
    | some left => later d (f a left s)
    | none => (.never, s)

instance : Monad (Session σ) where
  pure := Session.pure
  bind := Session.bind

/-- A single exchange. -/
def exchange (e : σ → Timed α × σ) : Session σ α := fun _ s => e s

/-- What comes of a conversation within a limit. -/
def run (m : Session σ α) (limit : Option Duration) (s : σ) : Timed α × σ := m limit s

@[simp] theorem run_pure (a : α) (limit : Option Duration) (s : σ) :
    (pure a : Session σ α).run limit s = (.now a, s) := rfl

@[simp] theorem run_exchange (e : σ → Timed α × σ) (limit : Option Duration) (s : σ) :
    (exchange e).run limit s = e s := rfl

end Session

end Switchboard
