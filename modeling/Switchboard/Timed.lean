import Switchboard.Duration

/-!
# Things that take time

Something that happens after a time, or never, and what is left of it if there is a
limit.

## Main definitions

* `Timed α` — something that happens, and when.
* `Timed.within` — what happens if something else happens after some time instead.
-/

namespace Switchboard

/-- Something that happens, and when. -/
inductive Timed (α : Type) where
  /-- It happens after a time. -/
  | after (delay : Duration) (what : α)
  /-- It never happens. -/
  | never
  deriving Repr, Inhabited

namespace Timed

variable {α β : Type}

/-- Something that happens at once. -/
def now (a : α) : Timed α := .after ⟨0⟩ a

/-- What happens, seen through a function. -/
def map (f : α → β) : Timed α → Timed β
  | .after d a => .after d (f a)
  | .never => .never

/-- What happens, and the time it takes, if after some time something else happens
instead; nothing if neither ever does.  What happens exactly then has made it. -/
def within (instead : Option (α × Duration)) : Timed α → Option (α × Duration)
  | .after delay a =>
    match instead with
    | none => some (a, delay)
    | some (b, limit) =>
      if delay.nanoseconds ≤ limit.nanoseconds then some (a, delay) else some (b, limit)
  | .never => instead

@[simp] theorem map_now (f : α → β) (a : α) : (now a).map f = now (f a) := rfl

@[simp] theorem within_none_after (d : Duration) (a : α) :
    within none (.after d a) = some (a, d) := rfl

@[simp] theorem within_never (instead : Option (α × Duration)) :
    within instead .never = instead := rfl

end Timed

end Switchboard
