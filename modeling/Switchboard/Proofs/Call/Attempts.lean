import Mathlib.Data.ENat.Lattice
import Switchboard.Orchestrator
import Switchboard.Simulation.Script

/-!
# The attempts of a call

A call makes attempts until one settles it, that is, comes to anything but a
timeout, or until the budget is spent.  Nothing of an attempt that timed out is
left in what the caller sees.

## Main definitions

* `Attempt.TimedOut` — the three ways in which an attempt can time out.
* `surroundingsBefore`, `attempt?` — what the attempts would come to if they went
  on for ever.
* `firstSettled` — the number of the first attempt that settles the call.
* `Backend.recording` — a backend that keeps the requests it is handed.

## Main results

* `attempts_eq` — the attempts from any number on.
* `call_eq_of_attempts` — **how many attempts a call makes, with which request and
  which waits, and what it comes to.**
-/

namespace Switchboard

variable {σ δ : Type}

/-! ### Timeouts -/

/-- An attempt timed out if it failed so, be it at its own or at the caller's
limit, or if it got a response that says so. -/
def Attempt.TimedOut : Attempt → Prop
  | .ok r => ∃ detail, r.failure = some (.timeout detail)
  | .error f => ∃ detail, f = .timeout detail

theorem Failure.isTimeout_iff {f : Failure} :
    f.isTimeout = true ↔ ∃ detail, f = .timeout detail := by
  obtain ⟨kind, detail⟩ := f
  simp [isTimeout, timeout]

theorem Attempt.timedOut_iff {a : Attempt} :
    a.TimedOut ↔ ∃ detail, a.failure? = some (.timeout detail) := by
  cases a with
  | ok r => rfl
  | error f => simp [TimedOut]

theorem Attempt.outcome_eq_timedOut_iff {a : Attempt} : a.outcome = .timedOut ↔ a.TimedOut := by
  rw [timedOut_iff, outcome]
  cases a.failure? with
  | none => simp
  | some f =>
    by_cases hf : f.isTimeout = true
    · simp [hf, Failure.isTimeout_iff.mp hf]
    · have hno := fun h => hf (Failure.isTimeout_iff.mpr h)
      simpa [hf] using hno

/-! ### What the attempts come to -/

/-- There is always time for what happens at once. -/
theorem Timed.within_now {α : Type} (instead : Option (α × Duration)) (a : α) :
    (Timed.now a).within instead = some (a, ⟨0⟩) := by
  cases instead with
  | none => rfl
  | some o => simp [within, now]

/-- The surroundings before the attempt with the given number, if all attempts
before it are made. -/
def surroundingsBefore (step : σ → Behaviour × σ) (s : σ) : ℕ → σ
  | 0 => s
  | i + 1 => (step (surroundingsBefore step s i)).2

/-- What the attempt with the given number comes to and how long it takes;
nothing if it never ends. -/
def attempt? (t : Timer σ) (limit : Option Duration) (step : σ → Behaviour × σ) (s : σ) (i : ℕ) :
    Option (Attempt × Duration) :=
  (step (surroundingsBefore step s i)).1.within (t.cut limit (surroundingsBefore step s i))

@[simp] theorem surroundingsBefore_zero (step : σ → Behaviour × σ) (s : σ) :
    surroundingsBefore step s 0 = s := rfl

theorem surroundingsBefore_succ (step : σ → Behaviour × σ) (s : σ) (i : ℕ) :
    surroundingsBefore step s (i + 1) = surroundingsBefore step (step s).2 i := by
  induction i with
  | zero => rfl
  | succ i ih => rw [surroundingsBefore, ih, surroundingsBefore]

theorem attempt?_succ (t : Timer σ) (limit : Option Duration) (step : σ → Behaviour × σ) (s : σ)
    (i : ℕ) : attempt? t limit step s (i + 1) = attempt? t limit step (step s).2 i := by
  rw [attempt?, surroundingsBefore_succ, attempt?]

/-- The number of the first attempt that settles the call; `⊤` if all time out. -/
noncomputable def firstSettled (a : ℕ → Attempt) : ℕ∞ :=
  ⨅ (i : ℕ) (_ : ¬ (a i).TimedOut), (i : ℕ∞)

theorem le_firstSettled {a : ℕ → Attempt} {m : ℕ} (h : ∀ i < m, (a i).TimedOut) :
    (m : ℕ∞) ≤ firstSettled a := by
  refine le_iInf₂ fun i hi => ?_
  exact Nat.cast_le.mpr (Nat.le_of_not_lt fun hlt => hi (h i hlt))

theorem firstSettled_le {a : ℕ → Attempt} {m : ℕ} (h : ¬ (a m).TimedOut) :
    firstSettled a ≤ m := iInf₂_le m h

/-- Within a budget of retries, the attempts that time out before the last one. -/
theorem exists_last (a : ℕ → Attempt) (budget : ℕ) :
    ∃ m ≤ budget, (∀ i < m, (a i).TimedOut) ∧ (¬ (a m).TimedOut ∨ m = budget) ∧
      (m : ℕ∞) = min (firstSettled a) budget := by
  induction budget with
  | zero => exact ⟨0, le_rfl, fun i hi => absurd hi (Nat.not_lt_zero i), Or.inr rfl, by simp⟩
  | succ budget ih =>
    obtain ⟨m, hle, hbefore, hlast, hmin⟩ := ih
    by_cases hm : (a m).TimedOut
    · -- the smaller budget was spent, and one more retry is made
      obtain rfl := hlast.resolve_left fun h => h hm
      have hall : ∀ i < m + 1, (a i).TimedOut := fun i hi =>
        (Nat.lt_succ_iff_lt_or_eq.mp hi).elim (hbefore i) fun h => h ▸ hm
      exact ⟨m + 1, le_rfl, hall, Or.inr rfl, (min_eq_right (le_firstSettled hall)).symm⟩
    · have heq : firstSettled a = m := le_antisymm (firstSettled_le hm) (le_firstSettled hbefore)
      refine ⟨m, Nat.le_succ_of_le hle, hbefore, Or.inl hm, ?_⟩
      rw [heq, min_eq_left (Nat.cast_le.mpr (Nat.le_succ_of_le hle))]

/-! ### The attempts from a number on -/

/-- An attempt that never ends is the last. -/
theorem attempts_of_never {p : RetryPolicy} {t : Timer σ} {limit : Option Duration}
    {step : σ → Behaviour × σ} {n : UInt32} {s : σ} (h : attempt? t limit step s 0 = none) :
    attempts p t limit step n s = (none, (step s).2) := by
  rw [attempt?, surroundingsBefore_zero] at h
  rw [attempts]
  split
  · rfl
  · next hw => rw [h] at hw; cases hw

/-- An attempt after which the policy ends the call. -/
theorem attempts_of_finish {p : RetryPolicy} {t : Timer σ} {limit : Option Duration}
    {step : σ → Behaviour × σ} {n : UInt32} {s : σ} {a : Attempt} {time : Duration} {b : Bool}
    (ha : attempt? t limit step s 0 = some (a, time)) (hnext : p.next n a.outcome = .finish b) :
    attempts p t limit step n s = (some (.single a time), (step s).2) := by
  rw [attempt?, surroundingsBefore_zero] at ha
  rw [attempts]
  split
  · next hw => rw [ha] at hw; cases hw
  · next a' time' hw =>
    rw [ha] at hw
    cases hw
    split
    · rfl
    · next hr => rw [hnext] at hr; cases hr

/-- An attempt after which the policy asks for another. -/
theorem attempts_of_retry {p : RetryPolicy} {t : Timer σ} {limit : Option Duration}
    {step : σ → Behaviour × σ} {n m : UInt32} {s : σ} {a : Attempt} {time pause : Duration}
    (ha : attempt? t limit step s 0 = some (a, time))
    (hnext : p.next n a.outcome = .retry m pause) :
    attempts p t limit step n s =
      ((attempts p t limit step m (step s).2).1.map
          (Run.after a time pause (t.lasts (step s).2 pause)),
        (attempts p t limit step m (step s).2).2) := by
  rw [attempt?, surroundingsBefore_zero] at ha
  rw [attempts]
  split
  · next hw => rw [ha] at hw; cases hw
  · next a' time' hw =>
    rw [ha] at hw
    cases hw
    split
    · next hr => rw [hnext] at hr; cases hr
    · next hr => rw [hnext] at hr; cases hr; rfl

theorem RetryPolicy.next_of_settled {p : RetryPolicy} {n : UInt32} {a : Attempt}
    (h : ¬ a.TimedOut ∨ n.toNat = p.maxRetries.toNat) : ∃ b, p.next n a.outcome = .finish b := by
  cases ho : a.outcome with
  | succeeded => exact ⟨true, rfl⟩
  | failed => exact ⟨false, rfl⟩
  | timedOut =>
    have hn := h.resolve_left fun h => h (Attempt.outcome_eq_timedOut_iff.mp ho)
    have hlt : ¬ n < p.maxRetries := fun hlt => absurd hn (Nat.ne_of_lt hlt)
    exact ⟨false, if_neg hlt⟩

theorem toNat_succ_of_lt {n max : UInt32} (h : n < max) : (n + 1).toNat = n.toNat + 1 := by
  have hlt : n.toNat < max.toNat := h
  have hmax := max.toNat_lt
  rw [UInt32.toNat_add, UInt32.toNat_one, Nat.mod_eq_of_lt (by omega)]

/-- The wait before the attempt after the one with the given number. -/
theorem backoffBefore_succ {n max : UInt32} (h : n < max) :
    backoffBefore (n + 1) = .ofSeconds (2 ^ min n.toNat 16) := by
  have hsucc := toNat_succ_of_lt h
  have hne : n + 1 ≠ 0 := fun h0 => by
    rw [h0] at hsucc
    exact absurd hsucc (Nat.succ_ne_zero _).symm
  rw [backoffBefore, if_neg hne, hsucc, Nat.add_sub_cancel, maxBackoffExponent]

/-- The attempts from the number `n` on: `m` that time out, and one that settles the
call or spends the budget. -/
theorem attempts_eq (p : RetryPolicy) (t : Timer σ) (limit : Option Duration)
    (step : σ → Behaviour × σ) (m : ℕ) : ∀ (n : UInt32) (s : σ) (a : ℕ → Attempt × Duration),
      (∀ i ≤ m, attempt? t limit step s i = some (a i)) →
      (∀ i < m, (a i).1.TimedOut) →
      n.toNat + m ≤ p.maxRetries.toNat →
      (¬ (a m).1.TimedOut ∨ n.toNat + m = p.maxRetries.toNat) →
      ∃ run, attempts p t limit step n s = (some run, surroundingsBefore step s (m + 1)) ∧
        run.last = (a m).1 ∧
        run.retried = (List.range m).map fun i =>
          ((a i).1, .ofSeconds (2 ^ min (n.toNat + i) 16)) := by
  induction m with
  | zero =>
    intro n s a hends _ _ hlast
    obtain ⟨b, hnext⟩ := RetryPolicy.next_of_settled (n := n) hlast
    exact ⟨_, attempts_of_finish (hends 0 le_rfl) hnext, rfl, rfl⟩
  | succ m ih =>
    intro n s a hends hbefore hbudget hlast
    have hlt : n < p.maxRetries := UInt32.lt_iff_toNat_lt.mpr (by omega)
    have hsucc := toNat_succ_of_lt hlt
    have hnext : p.next n (a 0).1.outcome = .retry (n + 1) (backoffBefore (n + 1)) := by
      rw [Attempt.outcome_eq_timedOut_iff.mpr (hbefore 0 (Nat.succ_pos m))]
      exact RetryPolicy.next_timedOut_of_lt hlt
    -- the attempts that follow are those of the surroundings after this one
    obtain ⟨run, hrun, hrlast, hretried⟩ := ih (n + 1) (step s).2 (fun i => a (i + 1))
      (fun i hi => by rw [← attempt?_succ]; exact hends (i + 1) (Nat.succ_le_succ hi))
      (fun i hi => hbefore (i + 1) (Nat.succ_lt_succ hi))
      (by omega) (by rw [hsucc]; exact hlast.imp_right fun h => by omega)
    refine ⟨run.after (a 0).1 (a 0).2 (backoffBefore (n + 1))
      (t.lasts (step s).2 (backoffBefore (n + 1))), ?_, hrlast, ?_⟩
    · rw [attempts_of_retry (hends 0 (Nat.zero_le _)) hnext, hrun, surroundingsBefore_succ step s]
      rfl
    · rw [Run.after, hretried, backoffBefore_succ hlt, hsucc, List.range_succ_eq_map,
        List.map_cons, List.map_map, Nat.add_zero]
      refine congrArg _ (List.map_congr_left fun i _ => ?_)
      rw [Function.comp_apply, Nat.succ_eq_add_one, Nat.add_assoc, Nat.add_comm 1 i]

/-! ### The requests that are made -/

/-- A backend that keeps the requests its clients are handed, the latest last. -/
def Backend.recording (b : Backend σ δ) : Backend (σ × List CallRequest) δ where
  timer := b.timer.recording
  create e config s := ((b.create e config s.1).1, (b.create e config s.1).2, s.2)
  perform c q s := ((b.perform c q s.1).1, (b.perform c q s.1).2, s.2 ++ [q])

/-- What a client does with the request of a call; a closed one refuses it. -/
def Backend.stepOf (b : Backend σ δ) (r : Registry δ) (c : Client δ) (q : CallRequest) :
    σ → Behaviour × σ :=
  r.request (b.perform c q) c

theorem Backend.stepOf_recording (b : Backend σ δ) (r : Registry δ) (c : Client δ)
    (q : CallRequest) (s : σ) (log : List CallRequest) :
    b.recording.stepOf r c q (s, log) = ((b.stepOf r c q s).1, (b.stepOf r c q s).2,
      log ++ if r.isClosed c then [] else [q]) := by
  rw [stepOf, stepOf, Registry.request, Registry.request]
  cases r.isClosed c with
  | true => simp
  | false => simp [recording]

/-- The record grows by the same request with every attempt. -/
theorem surroundingsBefore_recording (b : Backend σ δ) (r : Registry δ) (c : Client δ)
    (q : CallRequest) (s : σ) (i : ℕ) :
    surroundingsBefore (b.recording.stepOf r c q) (s, []) i
      = (surroundingsBefore (b.stepOf r c q) s i,
          if r.isClosed c then [] else List.replicate i q) := by
  induction i with
  | zero => simp
  | succ i ih =>
    rw [surroundingsBefore, ih, Backend.stepOf_recording, surroundingsBefore]
    cases r.isClosed c with
    | true => rfl
    | false => simp [List.replicate_succ']

theorem attempt?_recording (b : Backend σ δ) (r : Registry δ) (c : Client δ) (q : CallRequest)
    (limit : Option Duration) (s : σ) (i : ℕ) :
    attempt? b.recording.timer limit (b.recording.stepOf r c q) (s, []) i
      = attempt? b.timer limit (b.stepOf r c q) s i := by
  rw [attempt?, surroundingsBefore_recording, Backend.stepOf_recording, attempt?]
  rfl

theorem getOrCreate_recording (b : Backend σ δ) (e : Endpoint) (config : Connection)
    (r : Registry δ) (s : σ) (log : List CallRequest) :
    r.getOrCreate (b.recording.create e config) e config (s, log)
      = ((r.getOrCreate (b.create e config) e config s).1,
          (r.getOrCreate (b.create e config) e config s).2.1,
          (r.getOrCreate (b.create e config) e config s).2.2, log) := by
  simp only [Registry.getOrCreate, Registry.enterMissing, Backend.recording]
  cases r.lookup (.of e config) with
  | some c => rfl
  | none => rcases b.create e config s with ⟨f | d, s'⟩ <;> rfl

/-! ### Getting a client -/

/-- A client that a call gets is the one that is kept, or has just been built. -/
theorem Registry.getOrCreate_ok {create : σ → Except Failure δ × σ} {e : Endpoint}
    {config : Connection} {r r' : Registry δ} {s s' : σ} {c : Client δ}
    (h : r.getOrCreate create e config s = (.ok c, r', s')) :
    (r.lookup (.of e config) = some c ∧ r' = r) ∨ r.lookup (.of e config) = none ∧
      ∃ d, (create s).1 = .ok d ∧ c = (r.enter e (.of e config) d).1 ∧
        r' = (r.enter e (.of e config) d).2 := by
  rw [getOrCreate] at h
  cases hlookup : r.lookup (.of e config) with
  | some kept =>
    rw [hlookup] at h
    cases h
    exact Or.inl ⟨rfl, rfl⟩
  | none =>
    simp only [hlookup, enterMissing] at h
    rcases hcreate : create s with ⟨f | d, x⟩
    · rw [hcreate] at h
      cases h
    · rw [hcreate] at h
      cases h
      exact Or.inr ⟨rfl, d, rfl, rfl, rfl⟩

/-- A client that cannot be built leaves the registry as it is. -/
theorem Registry.registry_of_getOrCreate_error {create : σ → Except Failure δ × σ} {e : Endpoint}
    {config : Connection} {r r' : Registry δ} {s s' : σ} {f : Failure}
    (h : r.getOrCreate create e config s = (.error f, r', s')) : r' = r := by
  rw [getOrCreate] at h
  cases hlookup : r.lookup (.of e config) with
  | some kept =>
    rw [hlookup] at h
    cases h
  | none =>
    simp only [hlookup, enterMissing] at h
    rcases hcreate : create s with ⟨f | d, x⟩
    · rw [hcreate] at h
      cases h
      rfl
    · rw [hcreate] at h
      cases h

/-! ### Calls -/

/-- A call to an endpoint that is not valid. -/
theorem call_of_invalid {b : Backend σ δ} {e : Endpoint} {config : Connection}
    {r : Registry δ} {s : σ} {params : CallParams} {f : Failure} (h : e.validate = .error f) :
    call b e params config r s = (some (.beforeCall f), r, s) := by
  rw [call, h]

/-- A call that gets no client. -/
theorem call_of_error {b : Backend σ δ} {e : Endpoint} {config : Connection}
    {r r' : Registry δ} {s s' : σ} {params : CallParams} {f : Failure}
    (hvalid : e.validate = .ok ())
    (hclient : r.getOrCreate (b.create e config) e config s = (.error f, r', s')) :
    call b e params config r s = (some (.beforeCall f), r', s') := by
  rw [call, hvalid, hclient]

/-- A call that has got its client makes its attempts. -/
theorem call_of_client {b : Backend σ δ} {e : Endpoint} {config : Connection}
    {r r' : Registry δ} {s s' : σ} {c : Client δ} {params : CallParams}
    {run : Option Run × σ} (hvalid : e.validate = .ok ())
    (hclient : r.getOrCreate (b.create e config) e config s = (.ok c, r', s'))
    (hrun : attempts ⟨e.maxRetries⟩ b.timer e.timeout.deadline
      (b.stepOf r' c (.prepare e params)) 0 s' = run) :
    call b e params config r s = (run.1.map Run.report, r', run.2) := by
  rw [← hrun, call, hvalid, hclient]
  rfl

/-- **What a call comes to.**  Whatever its attempts come to, as long as each that is
made comes to something, it makes one more than time out before the first that does
not, within the budget; each that is tried again is followed by one wait, which doubles up
to a limit; all make the same request; and the caller sees the last one alone. -/
theorem call_eq_of_attempts (b : Backend σ δ) (e : Endpoint) (params : CallParams)
    (config : Connection) (r r' : Registry δ) (s s' : σ) (c : Client δ)
    (a : ℕ → Attempt × Duration) (hvalid : e.validate = .ok ())
    (hclient : r.getOrCreate (b.create e config) e config s = (.ok c, r', s'))
    (hends : ∀ i ≤ e.maxRetries.toNat, (∀ j < i, (a j).1.TimedOut) →
      attempt? b.timer e.timeout.deadline (b.stepOf r' c (.prepare e params)) s' i
        = some (a i)) :
    ∃ (n : ℕ) (report : Report),
      (n : ℕ∞) = min (firstSettled fun i => (a i).1) e.maxRetries.toNat + 1 ∧
      call b e params config r s
        = (some report, r', surroundingsBefore (b.stepOf r' c (.prepare e params)) s' n) ∧
      report.result = (a (n - 1)).1.finish ∧
      report.retried
        = (List.range (n - 1)).map (fun i => ((a i).1, .ofSeconds (2 ^ min i 16))) ∧
      (call b.recording e params config r (s, [])).2.2.2
        = if r'.isClosed c then [] else List.replicate n (.prepare e params) := by
  obtain ⟨m, hle, hbefore, hlast, hmin⟩ := exists_last (fun i => (a i).1) e.maxRetries.toNat
  have hends' : ∀ i ≤ m, _ := fun i hi =>
    hends i (le_trans hi hle) fun j hj => hbefore j (lt_of_lt_of_le hj hi)
  have hbudget : (0 : UInt32).toNat + m ≤ e.maxRetries.toNat := by simpa using hle
  have hspent : ¬ (a m).1.TimedOut ∨ (0 : UInt32).toNat + m = e.maxRetries.toNat := by
    simpa using hlast
  obtain ⟨run, hrun, hrlast, hretried⟩ :=
    attempts_eq ⟨e.maxRetries⟩ b.timer e.timeout.deadline _ m 0 s' a hends' hbefore hbudget hspent
  -- the same attempts, with a record of their requests
  have hrecorded : r.getOrCreate (b.recording.create e config) e config (s, [])
      = (.ok c, r', s', []) := by
    rw [getOrCreate_recording, hclient]
  obtain ⟨run', hrun', -⟩ :=
    attempts_eq ⟨e.maxRetries⟩ b.recording.timer e.timeout.deadline
      (b.recording.stepOf r' c (.prepare e params)) m 0 (s', []) a
      (fun i hi => by rw [attempt?_recording]; exact hends' i hi) hbefore hbudget hspent
  refine ⟨m + 1, run.report, ?_, ?_, ?_, ?_, ?_⟩
  · rw [Nat.cast_add, Nat.cast_one, hmin]
  · rw [call_of_client hvalid hclient hrun]
    rfl
  · rw [Run.report, hrlast, Nat.add_sub_cancel]
  · rw [Run.report, hretried, Nat.add_sub_cancel]
    simp only [UInt32.toNat_zero, Nat.zero_add]
  · rw [call_of_client hvalid hrecorded hrun', surroundingsBefore_recording]

/-- An endpoint that is tried three more times, half a second each. -/
def patientEndpoint : Endpoint :=
  { Endpoint.make "orders" "https://orders" .rest with
    timeout := .fixed (.ofMillis 500), maxRetries := 3 }

/-- A server that is silent at first, then says that it ran out of time, then fails. -/
def slowServer : Simulation.Script where
  steps := [.never, .after (.ofMillis 10) (.ok ⟨504, [], .empty, some (.timeout "upstream")⟩),
    .now (.error (.protocol "HTTP 500"))]
  troubles := []
  seen := []

/-- What the requests to that server come to. -/
def slowAttempts : ℕ → Attempt × Duration
  | 0 => (.cutOff (.ofMillis 500), .ofMillis 500)
  | 1 => (.ok ⟨504, [], .empty, some (.timeout "upstream")⟩, .ofMillis 10)
  | _ => (.error (.protocol "HTTP 500"), ⟨0⟩)

theorem call_slowServer :
    ∃ report, (call Simulation.Script.backend patientEndpoint .none .standard .empty slowServer).1
        = some report ∧
      report.retried = [(.cutOff (.ofMillis 500), .ofSeconds 1),
        (.ok ⟨504, [], .empty, some (.timeout "upstream")⟩, .ofSeconds 2)] ∧
      report.result = Attempt.finish (.error (.protocol "HTTP 500")) := by
  have hbefore : ∀ i < 2, (slowAttempts i).1.TimedOut := fun i hi =>
    match i, hi with
    | 0, _ => ⟨_, rfl⟩
    | 1, _ => ⟨_, rfl⟩
  have hlast : ¬ (slowAttempts 2).1.TimedOut := fun h => by
    obtain ⟨detail, h⟩ := h
    cases h
  have hfirst : firstSettled (fun i => (slowAttempts i).1) = (2 : ℕ) :=
    le_antisymm (firstSettled_le hlast) (le_firstSettled hbefore)
  obtain ⟨n, report, hn, hcall, hresult, hretried, -⟩ :=
    call_eq_of_attempts Simulation.Script.backend patientEndpoint .none .standard .empty _
      slowServer slowServer _ slowAttempts (by rfl) (by rfl) fun i _ hprev =>
        match i, hprev with
        | 0, _ => rfl
        | 1, _ => rfl
        | 2, _ => rfl
        | i + 3, hprev => absurd (hprev 2 (by omega)) hlast
  have hthree : n = 3 := by
    rw [hfirst, min_eq_left (Nat.cast_le.mpr (by decide))] at hn
    exact_mod_cast hn
  subst hthree
  exact ⟨report, by rw [hcall], hretried, hresult⟩

end Switchboard
