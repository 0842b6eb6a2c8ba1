import Switchboard.Proofs.Call.Reports
import Switchboard.Proofs.Network.Sending

/-!
# The traffic of a call

A request that has an effect must not be sent twice without need.  A call sends its request
again only after an attempt that timed out: not once a response has come, and not if the
request was turned down, in which case it is not sent at all.

The attempts of a call are told apart by keeping the record of each on its own.  What is
noted of the attempts, in whatever way, depends on the surroundings in which they start; so
these are found once, for everything that is noted.

## Main definitions

* `noting` — what a client does, with a note of every attempt.
* `Visits` — the surroundings in which the attempts of a run start.
* `Round`, `callRounds` — what is sent in each attempt of a call and what comes of it.
* `Frugal` — nothing is sent without need.

## Main results

* `attempts_noting` — what is noted of the attempts from any number on.
* `stepOf_recording` — what is recorded of an attempt.
* `call_frugal` — **a call sends nothing without need.**
-/

namespace Switchboard

variable {σ δ : Type}

/-! ### Notes -/

/-- What a client does, with a note of every attempt. -/
def noting {ν : Type} (note : σ → List ν) (step : σ → Behaviour × σ) (p : σ × List ν) :
    Behaviour × (σ × List ν) :=
  ((step p.1).1, (step p.1).2, p.2 ++ note p.1)

/-- What an attempt comes to that starts in the given surroundings; nothing if it never
ends. -/
def outcome? (t : Timer σ) (limit : Option Duration) (step : σ → Behaviour × σ) (s : σ) :
    Option Attempt :=
  ((step s).1.within (t.cut limit s)).map Prod.fst

/-- The attempts from the number `n` on start in the surroundings `visited`, where `run` is
what comes of them. -/
structure Visits (p : RetryPolicy) (t : Timer σ) (limit : Option Duration)
    (step : σ → Behaviour × σ) (n : UInt32) (run : Option Run) (visited : List σ) : Prop where
  /-- There is one at least. -/
  ne_nil : visited ≠ []
  /-- They stay within the budget. -/
  budget : n.toNat + visited.length ≤ p.maxRetries.toNat + 1
  /-- All but the last time out. -/
  retried : ∀ s ∈ visited.dropLast, ∃ a, outcome? t limit step s = some a ∧ a.TimedOut
  /-- The last is what the run ends with. -/
  last : ∀ s, visited.getLast? = some s → outcome? t limit step s = run.map Run.last
  /-- Between two of them there is one wait. -/
  pauses : ∀ r, run = some r → r.pauses.length + 1 = visited.length

section

variable {p : RetryPolicy} {t : Timer σ} {limit : Option Duration} {step : σ → Behaviour × σ}
  {n m : UInt32} {s : σ}

theorem visits_singleton {run : Option Run} (hn : n.toNat ≤ p.maxRetries.toNat)
    (hlast : outcome? t limit step s = run.map Run.last)
    (hpauses : ∀ r, run = some r → r.pauses = []) : Visits p t limit step n run [s] where
  ne_nil := List.cons_ne_nil _ _
  budget := Nat.succ_le_succ hn
  retried := fun _ hs => absurd hs List.not_mem_nil
  last := fun x hx => by
    cases hx
    exact hlast
  pauses := fun r hr => by rw [hpauses r hr]; rfl

theorem Visits.cons {run : Option Run} {visited : List σ} {a : Attempt}
    {time pause waited : Duration} (h : Visits p t limit step m run visited)
    (ha : outcome? t limit step s = some a) (hnext : p.next n a.outcome = .retry m pause) :
    Visits p t limit step n (run.map (Run.after a time pause waited)) (s :: visited) := by
  obtain ⟨hlt, rfl⟩ := RetryPolicy.lt_of_next_retry hnext
  have htimedOut : a.TimedOut := by
    refine Attempt.outcome_eq_timedOut_iff.mp ?_
    cases houtcome : a.outcome with
    | timedOut => rfl
    | succeeded => rw [houtcome] at hnext; cases hnext
    | failed => rw [houtcome] at hnext; cases hnext
  constructor
  case ne_nil => exact List.cons_ne_nil _ _
  case budget =>
    have hbudget := h.budget
    rw [toNat_succ_of_lt hlt] at hbudget
    rw [List.length_cons]
    omega
  case retried =>
    rw [List.dropLast_cons_of_ne_nil h.ne_nil]
    exact List.forall_mem_cons.mpr ⟨⟨a, ha, htimedOut⟩, h.retried⟩
  case last =>
    intro x hx
    rw [List.getLast?_cons_of_ne_nil h.ne_nil] at hx
    rw [h.last x hx, Option.map_map]
    rfl
  case pauses =>
    intro r hr
    obtain ⟨rest, hrest, rfl⟩ := Option.map_eq_some_iff.mp hr
    rw [Run.pauses_after, List.length_cons, h.pauses rest hrest, List.length_cons]

end

/-- Notes change nothing about the attempts, and whatever is noted is noted of the
surroundings in which they start. -/
theorem attempts_noting (p : RetryPolicy) (t : Timer σ) (limit : Option Duration)
    (step : σ → Behaviour × σ) (n : UInt32) (s : σ) (hn : n.toNat ≤ p.maxRetries.toNat) :
    ∃ visited, Visits p t limit step n (attempts p t limit step n s).1 visited ∧
      ∀ (ν : Type) (note : σ → List ν) (log : List ν),
        attempts p t.recording limit (noting note step) n (s, log)
          = ((attempts p t limit step n s).1, (attempts p t limit step n s).2,
              log ++ visited.flatMap note) := by
  -- what an attempt comes to does not depend on the notes
  have hsame : ∀ (ν : Type) (note : σ → List ν) (s : σ) (log : List ν),
      attempt? t.recording limit (noting note step) (s, log) 0 = attempt? t limit step s 0 :=
    fun _ _ _ _ => rfl
  induction n, s using attempts.induct p t limit step with
  | case1 n s h =>
    have hnone : outcome? t limit step s = none := by rw [outcome?, h]; rfl
    refine ⟨[s], ?_, fun ν note log => ?_⟩
    · rw [attempts_of_never h]
      exact visits_singleton hn hnone fun _ hr => by cases hr
    · rw [attempts_of_never h, attempts_of_never ((hsame ν note s log).trans h),
        List.flatMap_singleton]
      rfl
  | case2 n s a time h b hnext =>
    have hsome : outcome? t limit step s = some a := by rw [outcome?, h]; rfl
    refine ⟨[s], ?_, fun ν note log => ?_⟩
    · rw [attempts_of_finish h hnext]
      exact visits_singleton hn hsome fun r hr => by cases hr; rfl
    · rw [attempts_of_finish h hnext, attempts_of_finish ((hsame ν note s log).trans h) hnext,
        List.flatMap_singleton]
      rfl
  | case3 n s a time h m pause hnext ih =>
    have hsome : outcome? t limit step s = some a := by rw [outcome?, h]; rfl
    obtain ⟨hlt, hm⟩ := RetryPolicy.lt_of_next_retry hnext
    have hm' : m.toNat ≤ p.maxRetries.toNat := by
      rw [hm, toNat_succ_of_lt hlt]
      exact hlt
    -- the attempts that follow find the note of this one
    obtain ⟨visited, hvisits, hrest⟩ := ih hm'
    refine ⟨s :: visited, ?_, fun ν note log => ?_⟩
    · rw [attempts_of_retry h hnext]
      exact hvisits.cons hsome hnext
    · have hnoted : (noting note step (s, log)).2 = ((step s).2, log ++ note s) := rfl
      rw [attempts_of_retry h hnext, attempts_of_retry ((hsame ν note s log).trans h) hnext,
        hnoted, hrest, Timer.lasts_recording, List.flatMap_cons, ← List.append_assoc]

/-! ### Attempts on their own records -/

/-- What is sent in an attempt, and what comes of it; nothing if it never ends. -/
structure Round where
  /-- What is sent, in order. -/
  sent : List Transmission
  /-- How long it is until the timer goes off that is set to the limit, if there is one. -/
  allowed : Option Duration
  /-- What comes of it. -/
  outcome : Option Attempt

namespace Round

/-- Whether the attempt timed out. -/
def timedOut (round : Round) : Bool := round.outcome.any fun a => a.outcome = .timedOut

/-- The attempt that starts in the given surroundings, on a record of its own. -/
def of (t : Timer σ) (limit : Option Duration)
    (step : σ × List Transmission → Behaviour × (σ × List Transmission)) (s : σ) : Round where
  sent := (step (s, [])).2.2
  allowed := limit.map (t.lasts s)
  outcome := ((step (s, [])).1.within (t.cut limit s)).map Prod.fst

end Round

/-- The attempt that starts in the given surroundings and sends what is said of them. -/
def roundOf (t : Timer σ) (limit : Option Duration) (step : σ → Behaviour × σ)
    (sent : σ → List Transmission) (s : σ) : Round :=
  ⟨sent s, limit.map (t.lasts s), outcome? t limit step s⟩

/-- What a client does over a network with a record, where every attempt has its own. -/
def inRounds (t : Timer σ) (limit : Option Duration)
    (step : σ × List Transmission → Behaviour × (σ × List Transmission)) (p : σ × List Round) :
    Behaviour × (σ × List Round) :=
  ((step (p.1, [])).1, (step (p.1, [])).2.1, p.2 ++ [.of t limit step p.1])

/-- The attempts of a call over a network, in order. -/
def callRounds (fs : FileSystem) (net : Network σ) (e : Endpoint) (params : CallParams)
    (config : Connection) (r : Registry ProtocolClient) (s : σ) : List Round :=
  match e.validate, r.getOrCreate ((networked fs net).create e config) e config s with
  | .ok (), (.ok c, r', s') =>
    (attempts ⟨e.maxRetries⟩ net.timer.recording e.timeout.deadline
      (inRounds net.timer e.timeout.deadline
        ((networked fs net.recording).stepOf r' c (.prepare e params))) 0 (s', [])).2.2
  | _, _ => []

/-- What is sent in an attempt with the client `c`: nothing once it is closed. -/
def sentIn (net : Network σ) (r : Registry ProtocolClient) (c : Client ProtocolClient)
    (q : CallRequest) (s : σ) : List Transmission :=
  if r.isClosed c then [] else c.driver.sentBy net q s

section

variable (fs : FileSystem) (net : Network σ) (r : Registry ProtocolClient)
  (c : Client ProtocolClient) (q : CallRequest)

/-- A record of what is sent is a note of every attempt. -/
theorem stepOf_recording :
    (networked fs net.recording).stepOf r c q
      = noting (sentIn net r c q) ((networked fs net).stepOf r c q) := by
  funext ⟨s, log⟩
  rw [noting, Backend.stepOf, Backend.stepOf, Registry.request, Registry.request, sentIn]
  cases r.isClosed c with
  | true => exact congrArg (fun log => (_, s, log)) (List.append_nil log).symm
  | false => exact ProtocolClient.perform_record net c.driver q s log

/-- A record of every attempt is one as well. -/
theorem inRounds_recording (limit : Option Duration) :
    inRounds net.timer limit ((networked fs net.recording).stepOf r c q)
      = noting (fun s => [roundOf net.timer limit ((networked fs net).stepOf r c q)
          (sentIn net r c q) s])
        ((networked fs net).stepOf r c q) := by
  funext ⟨s, log⟩
  rw [inRounds, Round.of, stepOf_recording]
  rfl

theorem sends_sentIn (s : σ) :
    c.driver.Sends q (sentIn net r c q s) ((networked fs net).stepOf r c q s).1 := by
  rw [Backend.stepOf, Registry.request, sentIn]
  cases r.isClosed c with
  | true => exact ProtocolClient.sends_nil _ q _
  | false => exact ProtocolClient.sends_sentBy net c.driver q s

end

/-! ### One attempt -/

/-- There is time for it. -/
def Duration.Fits (time : Duration) (limit : Option Duration) : Prop :=
  ∀ l, limit = some l → time.nanoseconds ≤ l.nanoseconds

/-- The client is in time if it finishes before the timer goes off. -/
theorem Timed.within_of_fits {t : Timer σ} {limit : Option Duration} {s : σ} {time : Duration}
    {a : Attempt} (h : time.Fits (limit.map (t.lasts s))) :
    Timed.within (t.cut limit s) (.after time a) = some (a, time) := by
  cases limit with
  | none => rfl
  | some l => exact if_pos (h (t.lasts s l) rfl)

/-- What there is within a limit has happened, or the limit has passed. -/
theorem Timed.within_eq_some {t : Timer σ} {limit : Option Duration} {s : σ} {b : Behaviour}
    {a : Attempt} {time : Duration} (h : b.within (t.cut limit s) = some (a, time)) :
    b.what? = some a ∨ ∃ l, a = Attempt.cutOff l := by
  cases b with
  | never =>
    obtain ⟨l, -, hl⟩ := Option.map_eq_some_iff.mp h
    exact Or.inr ⟨l, (congrArg Prod.fst hl).symm⟩
  | after delay b =>
    cases limit with
    | none =>
      cases h
      exact Or.inl rfl
    | some l =>
      rw [Timer.cut_some, within] at h
      split at h
      · cases h
        exact Or.inl rfl
      · cases h
        exact Or.inr ⟨_, rfl⟩

theorem Attempt.not_refused_cutOff (l : Duration) : ¬ (Attempt.cutOff l).Refused := by
  rintro ⟨f, hf, hrefusal⟩
  cases hf
  cases hrefusal

/-- A request that was turned down did not time out. -/
theorem Attempt.Refused.not_timedOut {a : Attempt} (h : a.Refused) : ¬ a.TimedOut := by
  obtain ⟨f, hf, hrefusal⟩ := h
  intro htimedOut
  obtain ⟨detail, hdetail⟩ := Attempt.timedOut_iff.mp htimedOut
  rw [hf] at hdetail
  cases hdetail
  cases hrefusal

theorem Round.timedOut_iff {round : Round} :
    round.timedOut = true ↔ ∃ a, round.outcome = some a ∧ a.TimedOut := by
  rw [timedOut, Option.any_eq_true]
  simp only [decide_eq_true_eq, Attempt.outcome_eq_timedOut_iff]

/-- What is sent in one attempt with the request `q`. -/
structure Round.Plain (q : CallRequest) (round : Round) : Prop where
  /-- At most one request goes to the target. -/
  once : round.sent.countP Transmission.isTarget ≤ 1
  /-- None goes there if the request is turned down. -/
  refused : ∀ a, round.outcome = some a → a.Refused → ∀ t ∈ round.sent, t.isTarget = false
  /-- Nothing goes to a gRPC server if the path of the method is malformed. -/
  malformed : ∀ f, Grpc.pathOf q = .error f → ∀ t ∈ round.sent, t.isHttp = true
  /-- If a complete response comes over HTTP in time, its request is all that is sent, and the
  attempt does not time out. -/
  answered : ∀ r time reply bs, .http r (.after time (.ok reply)) ∈ round.sent →
    reply.body = .ok bs → time.Fits round.allowed →
    round.sent = [.http r (.after time (.ok reply))] ∧ ∃ a, round.outcome = some a ∧ ¬ a.TimedOut

theorem plain_of_sends {p : ProtocolClient} {q : CallRequest} {t : Timer σ}
    {limit : Option Duration} {step : σ → Behaviour × σ} {s : σ} {sent : σ → List Transmission}
    (h : p.Sends q (sent s) (step s).1) : Round.Plain q (roundOf t limit step sent s) where
  once := h.sparing.once
  refused := by
    intro a ha hrefused
    obtain ⟨⟨a', time⟩, hwithin, rfl⟩ := Option.map_eq_some_iff.mp ha
    rcases Timed.within_eq_some hwithin with hwhat | ⟨l, hl⟩
    · exact h.sparing.refused a' hwhat hrefused
    · have hcut : a' = Attempt.cutOff l := hl
      exact absurd (hcut ▸ hrefused) (Attempt.not_refused_cutOff l)
  malformed := h.malformed
  answered := by
    intro r time reply bs ht hbody hfits
    obtain ⟨hlength, a, ha, htimedOut⟩ := h.answered r time reply bs ht hbody
    refine ⟨?_, a, ?_, htimedOut⟩
    · obtain ⟨only, hone⟩ := List.length_eq_one_iff.mp hlength
      have hmem : .http r (.after time (.ok reply)) ∈ sent s := ht
      rw [hone] at hmem
      rw [roundOf, hone, List.mem_singleton.mp hmem]
    · show outcome? t limit step s = some a
      rw [outcome?, ha, Timed.within_of_fits hfits]
      rfl

/-! ### Whole calls -/

/-- A call sends nothing without need, where `rounds` are its attempts, in order, with the
request `q`, and `report` is its report. -/
structure Frugal (e : Endpoint) (q : CallRequest) (rounds : List Round)
    (report : Option Report) : Prop where
  /-- A request that is turned down is not sent, and not tried again. -/
  refused : ∀ before round after a, rounds = before ++ round :: after →
    round.outcome = some a → a.Refused → (∀ t ∈ round.sent, t.isTarget = false) ∧ after = []
  /-- With a malformed path nothing is sent to a gRPC server. -/
  malformed : ∀ f, Grpc.pathOf q = .error f → ∀ round ∈ rounds, ∀ t ∈ round.sent, t.isHttp = true
  /-- After a complete response over HTTP that comes in time nothing more is sent, and there is
  no more wait than those before the attempt. -/
  answered : ∀ before round after r time reply bs, rounds = before ++ round :: after →
    .http r (.after time (.ok reply)) ∈ round.sent → reply.body = .ok bs →
    time.Fits round.allowed →
    round.sent = [.http r (.after time (.ok reply))] ∧ after = [] ∧
      ∃ rep, report = some rep ∧ rep.pauses.length = before.length
  /-- There is at most one more request to the target than attempts that timed out. -/
  timeouts : (rounds.flatMap Round.sent).countP Transmission.isTarget
    ≤ rounds.countP Round.timedOut + 1
  /-- There is at most one more than retries. -/
  budget : (rounds.flatMap Round.sent).countP Transmission.isTarget ≤ e.maxRetries.toNat + 1

theorem frugal_nil (e : Endpoint) (q : CallRequest) (report : Option Report) :
    Frugal e q [] report where
  refused := fun before _ _ _ h => absurd h.symm (List.append_ne_nil_of_right_ne_nil before
    (List.cons_ne_nil _ _))
  malformed := fun _ _ _ h => absurd h List.not_mem_nil
  answered := fun before _ _ _ _ _ _ h => absurd h.symm
    (List.append_ne_nil_of_right_ne_nil before (List.cons_ne_nil _ _))
  timeouts := Nat.zero_le _
  budget := Nat.zero_le _

/-- There are no more requests to the target than attempts. -/
theorem countP_sent_le {q : CallRequest} {rounds : List Round}
    (h : ∀ round ∈ rounds, round.Plain q) :
    (rounds.flatMap Round.sent).countP Transmission.isTarget ≤ rounds.length := by
  induction rounds with
  | nil => exact le_rfl
  | cons round rounds ih =>
    obtain ⟨hround, hrounds⟩ := List.forall_mem_cons.mp h
    rw [List.flatMap_cons, List.countP_append, List.length_cons]
    have hone := hround.once
    have hrest := ih hrounds
    omega

/-- An attempt after which there is another. -/
theorem mem_dropLast_of_after {α : Type} {before after : List α} {a : α} (h : after ≠ []) :
    a ∈ (before ++ a :: after).dropLast := by
  rw [List.dropLast_append_of_ne_nil (List.cons_ne_nil a after), List.dropLast_cons_of_ne_nil h]
  exact List.mem_append_right _ List.mem_cons_self

/-- The attempts of a run. -/
theorem frugal_of_visits {e : Endpoint} {q : CallRequest} {t : Timer σ}
    {step : σ → Behaviour × σ} {run : Option Run} {visited : List σ}
    {sent : σ → List Transmission}
    (h : Visits ⟨e.maxRetries⟩ t e.timeout.deadline step 0 run visited)
    (hplain : ∀ s, (roundOf t e.timeout.deadline step sent s).Plain q) :
    Frugal e q (visited.map (roundOf t e.timeout.deadline step sent)) (run.map Run.report) := by
  obtain ⟨rounds, hrounds⟩ : ∃ rounds : List Round,
      rounds = visited.map (roundOf t e.timeout.deadline step sent) := ⟨_, rfl⟩
  rw [← hrounds]
  have hall : ∀ round ∈ rounds, round.Plain q := by
    intro round hround
    rw [hrounds] at hround
    obtain ⟨s, -, rfl⟩ := List.mem_map.mp hround
    exact hplain s
  have hlength : rounds.length = visited.length := by rw [hrounds, List.length_map]
  have hretried : ∀ round ∈ rounds.dropLast, round.timedOut = true := by
    intro round hround
    rw [hrounds, ← List.map_dropLast] at hround
    obtain ⟨s, hs, rfl⟩ := List.mem_map.mp hround
    exact Round.timedOut_iff.mpr (h.retried s hs)
  -- there is another attempt only after one that timed out
  have hlast : ∀ before round after a, rounds = before ++ round :: after →
      round.outcome = some a → ¬ a.TimedOut → after = [] := by
    intro before round after a hsplit ha htimedOut
    by_contra hafter
    have hmem : round ∈ rounds.dropLast := hsplit ▸ mem_dropLast_of_after hafter
    obtain ⟨a', ha', htimedOut'⟩ := Round.timedOut_iff.mp (hretried round hmem)
    rw [ha] at ha'
    cases ha'
    exact htimedOut htimedOut'
  constructor
  case refused =>
    intro before round after a hsplit ha hrefused
    have hround : round ∈ rounds := hsplit ▸ List.mem_append_right _ List.mem_cons_self
    exact ⟨(hall round hround).refused a ha hrefused,
      hlast before round after a hsplit ha hrefused.not_timedOut⟩
  case malformed => exact fun f hf round hround => (hall round hround).malformed f hf
  case answered =>
    intro before round after r time reply bs hsplit ht hbody hfits
    have hround : round ∈ rounds := hsplit ▸ List.mem_append_right _ List.mem_cons_self
    obtain ⟨hsent, a, ha, htimedOut⟩ := (hall round hround).answered r time reply bs ht hbody hfits
    obtain rfl := hlast before round after a hsplit ha htimedOut
    refine ⟨hsent, rfl, ?_⟩
    -- the last attempt has come to something, so there is a run
    have hend : visited.getLast?.map (roundOf t e.timeout.deadline step sent) = some round := by
      rw [← List.getLast?_map, ← hrounds, hsplit, List.getLast?_concat]
    obtain ⟨s, hs, rfl⟩ := Option.map_eq_some_iff.mp hend
    have hrun : some a = run.map Run.last := ha.symm.trans (h.last s hs)
    obtain ⟨last, hlast', -⟩ := Option.map_eq_some_iff.mp hrun.symm
    refine ⟨last.report, by rw [hlast']; rfl, ?_⟩
    have hpauses := h.pauses last hlast'
    rw [← hlength, hsplit, List.length_append, List.length_singleton] at hpauses
    exact Nat.succ.inj hpauses
  case timeouts =>
    have hcount : rounds.dropLast.countP Round.timedOut ≤ rounds.countP Round.timedOut :=
      (List.dropLast_sublist rounds).countP_le
    rw [List.countP_eq_length.mpr hretried, List.length_dropLast] at hcount
    have hsent := countP_sent_le hall
    omega
  case budget =>
    have hbudget : 0 + visited.length ≤ e.maxRetries.toNat + 1 := h.budget
    have hsent := countP_sent_le hall
    omega

section

variable (fs : FileSystem) (net : Network σ) (e : Endpoint) (config : Connection)
  (r : Registry ProtocolClient) (s : σ)

/-- To build a client nothing is sent. -/
theorem getOrCreate_recorded (log : List Transmission) :
    r.getOrCreate ((networked fs net.recording).create e config) e config (s, log)
      = ((r.getOrCreate ((networked fs net).create e config) e config s).1,
          (r.getOrCreate ((networked fs net).create e config) e config s).2.1,
          (r.getOrCreate ((networked fs net).create e config) e config s).2.2, log) := by
  simp only [Registry.getOrCreate, Registry.enterMissing, networked]
  cases r.lookup (.of e config) with
  | some c => rfl
  | none =>
    rcases (ProtocolClient.setUp fs e config).mapError SetupTrouble.failure with f | d <;> rfl

end

section

variable {fs : FileSystem} {net : Network σ} {e : Endpoint} {config : Connection}
  {r r' : Registry ProtocolClient} {s s' : σ} {c : Client ProtocolClient}

/-- A call that makes no attempt sends nothing. -/
theorem traffic_of_hindered (params : CallParams) (h : Hindered (networked fs net) e config r s) :
    (call (networked fs net.recording) e params config r (s, [])).1
        = (call (networked fs net) e params config r s).1 ∧
      (call (networked fs net.recording) e params config r (s, [])).2.2.2 = [] ∧
      callRounds fs net e params config r s = [] := by
  cases hvalid : e.validate with
  | error f =>
    rw [call_of_invalid hvalid, call_of_invalid hvalid, callRounds, hvalid]
    exact ⟨rfl, rfl, rfl⟩
  | ok _ =>
    obtain ⟨f, hf⟩ := h.resolve_left fun ⟨f, hf⟩ => by rw [hvalid] at hf; cases hf
    have hrecorded := getOrCreate_recorded fs net e config r s []
    rcases hclient : r.getOrCreate ((networked fs net).create e config) e config s
      with ⟨client, r', s'⟩
    rw [hclient] at hf hrecorded
    cases hf
    rw [call_of_error hvalid hclient, call_of_error hvalid hrecorded, callRounds, hvalid, hclient]
    exact ⟨rfl, rfl, rfl⟩

/-- What a call with a client sends is what it sends in the surroundings in which its attempts
start. -/
theorem exists_visited (params : CallParams) (hvalid : e.validate = .ok ())
    (hclient : r.getOrCreate ((networked fs net).create e config) e config s = (.ok c, r', s')) :
    let step := (networked fs net).stepOf r' c (.prepare e params)
    let sent := sentIn net r' c (.prepare e params)
    ∃ run visited, Visits ⟨e.maxRetries⟩ net.timer e.timeout.deadline step 0 run visited ∧
      (call (networked fs net) e params config r s).1 = run.map Run.report ∧
      (call (networked fs net.recording) e params config r (s, [])).1 = run.map Run.report ∧
      (call (networked fs net.recording) e params config r (s, [])).2.2.2
        = visited.flatMap sent ∧
      callRounds fs net e params config r s
        = visited.map (roundOf net.timer e.timeout.deadline step sent) ∧
      attemptsMade (networked fs net) e params config r s
        = visited.filterMap (outcome? net.timer e.timeout.deadline step) := by
  intro step sent
  obtain ⟨visited, hvisits, hnoted⟩ :=
    attempts_noting ⟨e.maxRetries⟩ net.timer e.timeout.deadline step 0 s' (Nat.zero_le _)
  have hrecorded : r.getOrCreate ((networked fs net.recording).create e config) e config (s, [])
      = (.ok c, r', s', []) := by
    rw [getOrCreate_recorded, hclient]
  have hrun : attempts ⟨e.maxRetries⟩ net.timer.recording e.timeout.deadline
      ((networked fs net.recording).stepOf r' c (.prepare e params)) 0 (s', [])
        = ((attempts ⟨e.maxRetries⟩ net.timer e.timeout.deadline step 0 s').1,
            (attempts ⟨e.maxRetries⟩ net.timer e.timeout.deadline step 0 s').2,
            visited.flatMap sent) := by
    rw [stepOf_recording]
    exact hnoted _ sent []
  refine ⟨_, visited, hvisits, ?_, ?_, ?_, ?_, ?_⟩
  · rw [call_of_client hvalid hclient rfl]
    rfl
  · rw [call_of_client hvalid hrecorded hrun]
  · rw [call_of_client hvalid hrecorded hrun]
  · rw [callRounds, hvalid, hclient]
    show (attempts _ _ _
      (inRounds net.timer _ ((networked fs net.recording).stepOf r' c _)) 0 (s', [])).2.2 = _
    rw [inRounds_recording, hnoted, List.nil_append]
    exact (List.map_eq_flatMap ..).symm
  · rw [attemptsMade, hvalid, hclient]
    show (attempts _ net.timer.recording _
      (noting (fun s => (outcome? net.timer e.timeout.deadline step s).toList) step) 0
      (s', [])).2.2 = _
    rw [hnoted, List.nil_append, List.filterMap_eq_flatMap_toList]

end

/-- **A call sends nothing without need**, over every network and with every client.  Its
traffic can be recorded without changing it, and divided into that of its attempts.  An
attempt that turns the request down does not send it and is the last; so is one that gets a
complete response over HTTP; and there are no more requests to the target than attempts that
timed out and one, and than retries and one. -/
theorem call_frugal (fs : FileSystem) (net : Network σ) (e : Endpoint) (params : CallParams)
    (config : Connection) (r : Registry ProtocolClient) (s : σ) :
    let recorded := call (networked fs net.recording) e params config r (s, [])
    let rounds := callRounds fs net e params config r s
    recorded.1 = (call (networked fs net) e params config r s).1 ∧
    recorded.2.2.2 = rounds.flatMap Round.sent ∧
    rounds.filterMap Round.outcome = attemptsMade (networked fs net) e params config r s ∧
    Frugal e (.prepare e params) rounds recorded.1 := by
  intro recorded rounds
  by_cases h : Hindered (networked fs net) e config r s
  · obtain ⟨hreport, hlog, hrounds⟩ := traffic_of_hindered params h
    have hnil : rounds = [] := hrounds
    refine ⟨hreport, ?_, ?_, ?_⟩
    · rw [hnil]
      exact hlog
    · rw [hnil, attemptsMade_of_hindered h]
      rfl
    · rw [hnil]
      exact frugal_nil e _ _
  · cases hvalid : e.validate with
    | error f => exact absurd (Or.inl ⟨f, hvalid⟩) h
    | ok _ =>
      rcases hclient : r.getOrCreate ((networked fs net).create e config) e config s
        with ⟨f | c, r', s'⟩
      · exact absurd (Or.inr ⟨f, by rw [hclient]⟩) h
      · obtain ⟨run, visited, hvisits, hreport, hrecorded, hlog, hrounds, hmade⟩ :=
          exists_visited params hvalid hclient
        have hvisited : rounds = _ := hrounds
        refine ⟨hrecorded.trans hreport.symm, ?_, ?_, ?_⟩
        · rw [hvisited, List.flatMap_map]
          exact hlog
        · rw [hvisited, List.filterMap_map, hmade]
          rfl
        · rw [hvisited]
          show Frugal _ _ _ recorded.1
          rw [show recorded.1 = _ from hrecorded]
          exact frugal_of_visits hvisits fun s =>
            plain_of_sends (sends_sentIn fs net r' c (.prepare e params) s)

end Switchboard
