import Switchboard.CommandLine.Calling
import Switchboard.Proofs.Call.Attempts

/-!
# Reports and attempts

What came of a call is told in two ways: as a failure, and as the result of the last
attempt, which carries a message if that failed.  Both say the same, and a failure
without a result stands for a call that made no attempt.

To say so, the attempts are made with a log.  It is kept around what a client does, so
that it also has the attempts that an evicted client refuses.

## Main definitions

* `logged` — what a client does, with a log of what comes of it.
* `attemptsMade` — what came of each attempt of a call.
* `Hindered` — a call makes no attempt.
* `Report.AccountsFor`, `CommandLine.AccountsFor` — a report is true to the attempts.

## Main results

* `attempts_logged` — the log of the attempts from any number on.
* `exists_report` — a call with a limit on its attempts ends.
* `report_cases` — what a report is the report of.
* `call_accountsFor` — **a report is true to the attempts of its call**, also on the
  command line.
-/

namespace Switchboard

variable {σ δ : Type}

/-! ### The log of the attempts -/

/-- What a client does, with a log of what comes of it under a limit.  Nothing comes of
an attempt that never ends. -/
def logged (t : Timer σ) (limit : Option Duration) (step : σ → Behaviour × σ)
    (p : σ × List Attempt) : Behaviour × (σ × List Attempt) :=
  ((step p.1).1, (step p.1).2,
    p.2 ++ (((step p.1).1.within (t.cut limit p.1)).map Prod.fst).toList)

/-- The attempts `made` from the number `n` on are those of the run. -/
structure Run.Made (p : RetryPolicy) (n : UInt32) (run : Run) (made : List Attempt) : Prop where
  /-- The run ends with the last of them. -/
  last : made.getLast? = some run.last
  /-- Between two of them there is one wait. -/
  pauses : made.length = run.pauses.length + 1
  /-- All but the last timed out. -/
  retried : ∀ a ∈ made.dropLast, a.TimedOut
  /-- If the last timed out as well, the budget is spent. -/
  spent : run.last.TimedOut → n.toNat + made.length = p.maxRetries.toNat + 1

theorem Run.Made.ne_nil {p : RetryPolicy} {n : UInt32} {run : Run} {made : List Attempt}
    (h : run.Made p n made) : made ≠ [] := by
  intro hnil
  have hlast := h.last
  rw [hnil] at hlast
  cases hlast

theorem Run.made_single {p : RetryPolicy} {n : UInt32} {a : Attempt} {time : Duration} {b : Bool}
    (hn : n.toNat ≤ p.maxRetries.toNat) (hnext : p.next n a.outcome = .finish b) :
    (Run.single a time).Made p n [a] where
  last := rfl
  pauses := rfl
  retried := fun _ h => absurd h List.not_mem_nil
  spent := fun h => by
    have houtcome : a.outcome = .timedOut := Attempt.outcome_eq_timedOut_iff.mpr h
    -- a timeout within the budget would have led to a retry
    have hlast : ¬ n < p.maxRetries := fun hlt => by
      rw [houtcome, RetryPolicy.next_timedOut_of_lt hlt] at hnext
      cases hnext
    have hge : ¬ n.toNat < p.maxRetries.toNat := hlast
    rw [List.length_singleton]
    omega

theorem Run.Made.after {p : RetryPolicy} {n m : UInt32} {a : Attempt} {run : Run}
    {made : List Attempt} {time pause waited : Duration} (h : run.Made p m made)
    (hnext : p.next n a.outcome = .retry m pause) :
    (run.after a time pause waited).Made p n (a :: made) := by
  obtain ⟨hlt, rfl⟩ := RetryPolicy.lt_of_next_retry hnext
  have htimedOut : a.TimedOut := by
    refine Attempt.outcome_eq_timedOut_iff.mp ?_
    cases houtcome : a.outcome with
    | timedOut => rfl
    | succeeded => rw [houtcome] at hnext; cases hnext
    | failed => rw [houtcome] at hnext; cases hnext
  constructor
  case last =>
    rw [List.getLast?_cons_of_ne_nil h.ne_nil]
    exact h.last
  case pauses =>
    show made.length + 1 = run.pauses.length + 1 + 1
    rw [h.pauses]
  case retried =>
    rw [List.dropLast_cons_of_ne_nil h.ne_nil]
    exact List.forall_mem_cons.mpr ⟨htimedOut, h.retried⟩
  case spent =>
    intro hlast
    have hspent := h.spent hlast
    rw [toNat_succ_of_lt hlt] at hspent
    rw [List.length_cons]
    omega

/-- What the log has after an attempt that ends. -/
theorem logged_of_attempt {t : Timer σ} {limit : Option Duration} {step : σ → Behaviour × σ}
    {s : σ} {a : Attempt} {time : Duration} (h : attempt? t limit step s 0 = some (a, time))
    (log : List Attempt) :
    (logged t limit step (s, log)).2 = ((step s).2, log ++ [a]) := by
  rw [attempt?, surroundingsBefore_zero] at h
  rw [logged, h]
  rfl

/-- A log changes nothing about the attempts, and what is added to it are the attempts
that the run was made of. -/
theorem attempts_logged (p : RetryPolicy) (t : Timer σ) (limit : Option Duration)
    (step : σ → Behaviour × σ) (n : UInt32) (s : σ) (hn : n.toNat ≤ p.maxRetries.toNat)
    (log : List Attempt) :
    ∃ made, attempts p t.recording limit (logged t limit step) n (s, log)
        = ((attempts p t limit step n s).1, (attempts p t limit step n s).2, log ++ made) ∧
      ∀ run, (attempts p t limit step n s).1 = some run → run.Made p n made := by
  -- what an attempt comes to does not depend on the log
  have hsame : ∀ (s : σ) (log : List Attempt),
      attempt? t.recording limit (logged t limit step) (s, log) 0 = attempt? t limit step s 0 :=
    fun _ _ => rfl
  induction n, s using attempts.induct p t limit step generalizing log with
  | case1 n s h =>
    -- nothing comes of this attempt, and there is no run
    refine ⟨[], ?_, ?_⟩
    · rw [attempts_of_never h, attempts_of_never ((hsame s log).trans h), logged, h]
      rfl
    · intro run hrun
      rw [attempts_of_never h] at hrun
      cases hrun
  | case2 n s a time h b hnext =>
    -- the policy ends the call with this attempt
    refine ⟨[a], ?_, ?_⟩
    · rw [attempts_of_finish h hnext, attempts_of_finish ((hsame s log).trans h) hnext,
        logged_of_attempt h]
    · intro run hrun
      rw [attempts_of_finish h hnext] at hrun
      cases hrun
      exact Run.made_single hn hnext
  | case3 n s a time h m pause hnext ih =>
    obtain ⟨hlt, hm⟩ := RetryPolicy.lt_of_next_retry hnext
    have hm' : m.toNat ≤ p.maxRetries.toNat := by
      rw [hm, toNat_succ_of_lt hlt]
      exact hlt
    -- the attempts that follow find this one in the log
    obtain ⟨made, hrest, hmade⟩ := ih hm' (log ++ [a])
    refine ⟨a :: made, ?_, ?_⟩
    · rw [attempts_of_retry h hnext, attempts_of_retry ((hsame s log).trans h) hnext,
        logged_of_attempt h, hrest, List.append_assoc]
      rfl
    · intro run hrun
      rw [attempts_of_retry h hnext] at hrun
      obtain ⟨rest, hrun', rfl⟩ := Option.map_eq_some_iff.mp hrun
      exact (hmade rest hrun').after hnext

/-- Under a limit, every attempt ends. -/
theorem exists_attempt (t : Timer σ) (limit : Duration) (step : σ → Behaviour × σ) (s : σ) :
    ∃ a, attempt? t (some limit) step s 0 = some a := by
  rw [attempt?, Timer.cut_some]
  cases (step (surroundingsBefore step s 0)).1 with
  | never => exact ⟨_, rfl⟩
  | after delay a =>
    rw [Timed.within]
    split
    · exact ⟨_, rfl⟩
    · exact ⟨_, rfl⟩

theorem exists_run (p : RetryPolicy) (t : Timer σ) (limit : Duration)
    (step : σ → Behaviour × σ) (n : UInt32) (s : σ) :
    ∃ run, (attempts p t (some limit) step n s).1 = some run := by
  induction n, s using attempts.induct p t (some limit) step with
  | case1 n s h =>
    obtain ⟨a, ha⟩ := exists_attempt t limit step s
    rw [attempt?, surroundingsBefore_zero, h] at ha
    cases ha
  | case2 n s a time h b hnext =>
    rw [attempts_of_finish h hnext]
    exact ⟨_, rfl⟩
  | case3 n s a time h m pause hnext ih =>
    rw [attempts_of_retry h hnext]
    obtain ⟨rest, hrest⟩ := ih
    rw [hrest]
    exact ⟨_, rfl⟩

/-! ### The attempts of a call -/

/-- What came of each attempt of a call, in order.  There is none if the endpoint or its
client is at fault. -/
def attemptsMade (b : Backend σ δ) (e : Endpoint) (params : CallParams) (config : Connection)
    (r : Registry δ) (s : σ) : List Attempt :=
  match e.validate, r.getOrCreate (b.create e config) e config s with
  | .ok (), (.ok c, r', s') =>
    (attempts ⟨e.maxRetries⟩ b.timer.recording e.timeout.deadline
      (logged b.timer e.timeout.deadline (b.stepOf r' c (.prepare e params))) 0 (s', [])).2.2
  | _, _ => []

/-- A report is true to the attempts of a call, where `retries` is how often it may try
again. -/
structure Report.AccountsFor (report : Report) (retries : ℕ) (made : List Attempt) : Prop where
  /-- A success is that of the last attempt, and its result has no message. -/
  success : ∀ result, report.result = .ok result →
    result.error = none ∧ ∃ response, made.getLast? = some (.ok response) ∧ response.failure = none
  /-- A failure with a result is that of the last attempt, and the result has its message. -/
  failure : ∀ failed result, report.result = .error failed → failed.result = some result →
    result.error = some failed.failure.message ∧
      ∃ a, made.getLast? = some a ∧ a.failure? = some failed.failure
  /-- A failure without a result stands for a call without an attempt. -/
  unattempted : (∃ failed, report.result = .error failed ∧ failed.result = none) ↔ made = []
  /-- Such a call does not wait. -/
  unpaused : made = [] → report.pauses = []
  /-- A timeout is reported when the budget is spent. -/
  timeout : ∀ failed, report.result = .error failed → failed.result.isSome →
    failed.failure.isTimeout → made.length = retries + 1 ∧ ∀ a ∈ made, a.TimedOut

theorem Report.accountsFor_beforeCall (f : Failure) (retries : ℕ) :
    (Report.beforeCall f).AccountsFor retries [] where
  success := fun _ h => by cases h
  failure := fun _ _ h hresult => by cases h; cases hresult
  unattempted := ⟨fun _ => rfl, fun _ => ⟨_, rfl, rfl⟩⟩
  unpaused := fun _ => rfl
  timeout := fun _ h hresult => by cases h; cases hresult

/-! ### What the caller sees of the last attempt -/

theorem Attempt.finish_eq_ok_iff {a : Attempt} {result : CallResult} :
    a.finish = .ok result ↔ a.failure? = none ∧ result = a.result := by
  rw [finish]
  cases a.failure? with
  | none => simp [eq_comm]
  | some f => simp

theorem Attempt.finish_eq_error_iff {a : Attempt} {failed : FailedCall} :
    a.finish = .error failed ↔
      ∃ f, a.failure? = some f ∧ failed = .withResult f a.result := by
  rw [finish]
  cases a.failure? with
  | none => simp
  | some f => simp [eq_comm]

theorem Attempt.eq_ok_of_failure? {a : Attempt} (h : a.failure? = none) :
    ∃ response : CallResponse, a = .ok response ∧ response.failure = none := by
  cases a with
  | ok response => exact ⟨response, rfl, h⟩
  | error f => cases h

theorem Run.Made.accountsFor {p : RetryPolicy} {run : Run} {made : List Attempt}
    (h : run.Made p 0 made) : run.report.AccountsFor p.maxRetries.toNat made := by
  constructor
  case success =>
    intro result hresult
    obtain ⟨hnone, rfl⟩ := Attempt.finish_eq_ok_iff.mp hresult
    obtain ⟨response, hresponse, hfailure⟩ := Attempt.eq_ok_of_failure? hnone
    refine ⟨?_, response, ?_, hfailure⟩
    · rw [Attempt.error_result, hnone]
      rfl
    · rw [h.last, hresponse]
  case failure =>
    intro failed result hfailed hresult
    obtain ⟨f, hf, rfl⟩ := Attempt.finish_eq_error_iff.mp hfailed
    cases hresult
    refine ⟨?_, run.last, h.last, hf⟩
    rw [Attempt.error_result, hf]
    rfl
  case unattempted =>
    constructor
    · rintro ⟨failed, hfailed, hnone⟩
      obtain ⟨f, -, rfl⟩ := Attempt.finish_eq_error_iff.mp hfailed
      cases hnone
    · exact fun hnil => absurd hnil h.ne_nil
  case unpaused => exact fun hnil => absurd hnil h.ne_nil
  case timeout =>
    intro failed hfailed _ htimeout
    obtain ⟨f, hf, rfl⟩ := Attempt.finish_eq_error_iff.mp hfailed
    obtain ⟨detail, rfl⟩ := Failure.isTimeout_iff.mp htimeout
    have hlast : run.last.TimedOut := Attempt.timedOut_iff.mpr ⟨detail, hf⟩
    have hlength := h.spent hlast
    rw [UInt32.toNat_zero, Nat.zero_add] at hlength
    refine ⟨hlength, fun a ha => ?_⟩
    -- the attempts before the last timed out, or there would be no later one
    rw [← List.dropLast_append_getLast? _ h.last] at ha
    rcases List.mem_append.mp ha with ha | ha
    · exact h.retried a ha
    · exact List.mem_singleton.mp ha ▸ hlast

/-! ### Calls -/

/-- The endpoint is not valid, or there is no client for it and none can be built: no
attempt is made. -/
def Hindered (b : Backend σ δ) (e : Endpoint) (config : Connection) (r : Registry δ) (s : σ) :
    Prop :=
  (∃ f, e.validate = .error f) ∨
    ∃ f, (r.getOrCreate (b.create e config) e config s).1 = .error f

section

variable {b : Backend σ δ} {e : Endpoint} {params : CallParams} {config : Connection}
  {r : Registry δ} {s : σ}

theorem attemptsMade_of_hindered (h : Hindered b e config r s) :
    attemptsMade b e params config r s = [] := by
  rcases h with ⟨f, hf⟩ | ⟨f, hf⟩
  · rw [attemptsMade, hf]
  · rcases hclient : r.getOrCreate (b.create e config) e config s with ⟨client, r', s'⟩
    rw [hclient] at hf
    cases hf
    rw [attemptsMade, hclient]
    cases e.validate <;> rfl

/-- No client is handed a request. -/
theorem recording_of_hindered (h : Hindered b e config r s) :
    (call b.recording e params config r (s, [])).2.2.2 = [] := by
  cases hvalid : e.validate with
  | error f => rw [call_of_invalid hvalid]
  | ok _ =>
    obtain ⟨f, hf⟩ := h.resolve_left fun ⟨f, hf⟩ => by rw [hvalid] at hf; cases hf
    have hrecorded := getOrCreate_recording b e config r s []
    rw [hf] at hrecorded
    rw [call_of_error hvalid hrecorded]

/-- A call with a limit on its attempts ends. -/
theorem exists_report {limit : Duration} (h : e.timeout.deadline = some limit) :
    ∃ report, (call b e params config r s).1 = some report := by
  cases hvalid : e.validate with
  | error f => exact ⟨_, by rw [call_of_invalid hvalid]⟩
  | ok _ =>
    rcases hclient : r.getOrCreate (b.create e config) e config s with ⟨f | c, r', s'⟩
    · exact ⟨_, by rw [call_of_error hvalid hclient]⟩
    · obtain ⟨run, hrun⟩ := exists_run ⟨e.maxRetries⟩ b.timer limit
        (b.stepOf r' c (.prepare e params)) 0 s'
      rw [call_of_client hvalid hclient rfl, h, hrun]
      exact ⟨_, rfl⟩

/-- A call is hindered and makes no attempt, or its report is that of its attempts. -/
theorem report_cases {report : Report} (h : (call b e params config r s).1 = some report) :
    (Hindered b e config r s ∧ ∃ f, report = .beforeCall f) ∨
      ¬ Hindered b e config r s ∧ ∃ run : Run, report = run.report ∧
        run.Made ⟨e.maxRetries⟩ 0 (attemptsMade b e params config r s) := by
  cases hvalid : e.validate with
  | error f =>
    -- the endpoint is at fault
    rw [call_of_invalid hvalid] at h
    exact .inl ⟨.inl ⟨f, hvalid⟩, f, (Option.some.inj h).symm⟩
  | ok _ =>
    rcases hclient : r.getOrCreate (b.create e config) e config s with ⟨client, r', s'⟩
    cases client with
    | error f =>
      -- its client is
      rw [call_of_error hvalid hclient] at h
      exact .inl ⟨.inr ⟨f, by rw [hclient]⟩, f, (Option.some.inj h).symm⟩
    | ok c =>
      have hready : ¬ Hindered b e config r s := by
        rintro (⟨f, hf⟩ | ⟨f, hf⟩)
        · rw [hvalid] at hf; cases hf
        · rw [hclient] at hf; cases hf
      -- the log of the attempts starts empty
      obtain ⟨made, hlogged, hmade⟩ := attempts_logged ⟨e.maxRetries⟩ b.timer
        e.timeout.deadline (b.stepOf r' c (.prepare e params)) 0 s' (Nat.zero_le _) []
      have hattempts : attemptsMade b e params config r s = made := by
        rw [attemptsMade, hvalid, hclient]
        simp only [hlogged, List.nil_append]
      rw [call_of_client hvalid hclient rfl] at h
      obtain ⟨run, hrun, rfl⟩ := Option.map_eq_some_iff.mp h
      exact .inr ⟨hready, run, rfl, hattempts ▸ hmade run hrun⟩

theorem accountsFor_of_call {report : Report}
    (h : (call b e params config r s).1 = some report) :
    report.AccountsFor e.maxRetries.toNat (attemptsMade b e params config r s) ∧
      (attemptsMade b e params config r s = [] ↔ Hindered b e config r s) := by
  rcases report_cases h with ⟨hhindered, f, rfl⟩ | ⟨hready, run, rfl, hmade⟩
  · have hnone : attemptsMade b e params config r s = [] := attemptsMade_of_hindered hhindered
    rw [hnone]
    exact ⟨Report.accountsFor_beforeCall f _, fun _ => hhindered, fun _ => rfl⟩
  · exact ⟨hmade.accountsFor, fun hnil => absurd hnil hmade.ne_nil, fun h => absurd h hready⟩

end

/-! ### The command line -/

/-- The map of a result tells whether there is a message. -/
theorem CallResult.contains_error_toMap (r : CallResult) :
    Dictionary.contains "error" r.toMap = r.error.isSome := by
  cases herror : r.error with
  | none => simp [Dictionary.contains, toMap, herror, Dictionary.get?_insert]
  | some message => simp [Dictionary.contains, toMap, herror, Dictionary.get?_insert]

namespace CommandLine

/-- What came of each attempt of the call that the arguments ask for, in order. -/
def attemptsMade (b : Backend σ δ) (fs : FileSystem) (environment : Option String)
    (args : CallArguments) (s : σ) : List Attempt :=
  match find fs environment args with
  | .error _ => []
  | .ok (e, connection) =>
    Switchboard.attemptsMade b e ((args.params.map CallParams.ofMap).getD .none) connection .empty s

/-- What the command line says is true to the attempts of a call. -/
structure AccountsFor (out : Except CallError CallOutcome) (made : List Attempt) : Prop where
  /-- The call has succeeded if the map of its result has no message. -/
  success : ∀ outcome, out = .ok outcome →
    (outcome.success = true ↔ Dictionary.contains "error" outcome.result.toMap = false)
  /-- There is no outcome of a call without an attempt. -/
  unattempted : (∃ error, out = .error error) ↔ made = []

theorem accountsFor_error (error : CallError) : AccountsFor (.error error) [] where
  success := fun _ h => by cases h
  unattempted := ⟨fun _ => rfl, fun _ => ⟨error, rfl⟩⟩

theorem accountsFor_ok {result : CallResult} {success : Bool} {made : List Attempt}
    (hmade : made ≠ []) (hsuccess : success = result.error.isNone) :
    AccountsFor (.ok ⟨result, success⟩) made where
  success := by
    rintro outcome ⟨⟩
    rw [CallResult.contains_error_toMap, hsuccess]
    cases result.error <;> simp
  unattempted := by
    constructor
    · rintro ⟨error, herror⟩
      cases herror
    · exact fun hnil => absurd hnil hmade

theorem accountsFor_conclude {report : Report} {retries : ℕ} {made : List Attempt}
    (h : report.AccountsFor retries made) : AccountsFor (conclude report.result) made := by
  cases hresult : report.result with
  | ok result =>
    obtain ⟨hnone, response, hlast, -⟩ := h.success result hresult
    have hmade : made ≠ [] := fun hnil => by rw [hnil] at hlast; cases hlast
    exact accountsFor_ok hmade (by rw [hnone]; rfl)
  | error failed =>
    cases hattached : failed.result with
    | none =>
      have hmade : made = [] := h.unattempted.mp ⟨failed, hresult, hattached⟩
      rw [conclude, hattached, hmade]
      exact accountsFor_error _
    | some result =>
      obtain ⟨hmessage, a, hlast, -⟩ := h.failure failed result hresult hattached
      have hmade : made ≠ [] := fun hnil => by rw [hnil] at hlast; cases hlast
      rw [conclude, hattached]
      exact accountsFor_ok hmade (by rw [hmessage]; rfl)

theorem accountsFor_of_perform {b : Backend σ δ} {fs : FileSystem} {environment : Option String}
    {args : CallArguments} {s : σ} {out : Except CallError CallOutcome}
    (h : (perform b fs environment args s).1 = some out) :
    AccountsFor out (attemptsMade b fs environment args s) := by
  rw [perform] at h
  rw [attemptsMade]
  cases hfind : find fs environment args with
  | error error =>
    -- the catalog or the name is at fault
    rw [hfind] at h
    cases h
    exact accountsFor_error error
  | ok found =>
    obtain ⟨e, connection⟩ := found
    rw [hfind] at h
    obtain ⟨report, hreport, rfl⟩ := Option.map_eq_some_iff.mp h
    exact accountsFor_conclude (accountsFor_of_call hreport).1

/-- A command that ends without an outcome has handed no request to any client. -/
theorem recording_of_error {b : Backend σ δ} {fs : FileSystem} {environment : Option String}
    {args : CallArguments} {s : σ} {error : CallError}
    (h : (perform b fs environment args s).1 = some (.error error)) :
    (perform b.recording fs environment args (s, [])).2.2 = [] := by
  have hmade := (accountsFor_of_perform h).unattempted.mp ⟨error, rfl⟩
  rw [perform] at h ⊢
  rw [attemptsMade] at hmade
  cases hfind : find fs environment args with
  | error error => rfl
  | ok found =>
    obtain ⟨e, connection⟩ := found
    rw [hfind] at h hmade
    obtain ⟨report, hreport, -⟩ := Option.map_eq_some_iff.mp h
    exact recording_of_hindered ((accountsFor_of_call hreport).2.mp hmade)

end CommandLine

/-- **A report is true to the attempts of its call**, whatever clients do and whatever
the registry holds: it names the failure that the last attempt ended in, if it did, its
result has the message of that failure, and there is no result exactly if there was no
attempt.  What the command line says is as true.  There is a report at least of every call
with a limit on its attempts.

What clients do includes that they refuse requests from some attempt on, as one does that
is evicted during the call. -/
theorem call_accountsFor (b : Backend σ δ) (s : σ) :
    (∀ e params config r,
      (e.timeout.deadline.isSome → (call b e params config r s).1.isSome) ∧
      ∀ report, (call b e params config r s).1 = some report →
        report.AccountsFor e.maxRetries.toNat (attemptsMade b e params config r s) ∧
        (attemptsMade b e params config r s = [] ↔ Hindered b e config r s) ∧
        (Hindered b e config r s → (call b.recording e params config r (s, [])).2.2.2 = [])) ∧
    ∀ fs environment args out, (CommandLine.perform b fs environment args s).1 = some out →
      CommandLine.AccountsFor out (CommandLine.attemptsMade b fs environment args s) ∧
      ∀ error, out = .error error →
        (CommandLine.perform b.recording fs environment args (s, [])).2.2 = [] := by
  constructor
  · intro e params config r
    refine ⟨fun hlimit => ?_, fun report h => ?_⟩
    · obtain ⟨limit, hlimit⟩ := Option.isSome_iff_exists.mp hlimit
      exact Option.isSome_iff_exists.mpr (exists_report hlimit)
    · obtain ⟨haccounts, hnone⟩ := accountsFor_of_call h
      exact ⟨haccounts, hnone, recording_of_hindered⟩
  · intro fs environment args out h
    refine ⟨CommandLine.accountsFor_of_perform h, ?_⟩
    rintro error rfl
    exact CommandLine.recording_of_error h

/-- An endpoint that is tried once more, after half a second. -/
def hastyEndpoint : Endpoint := { patientEndpoint with maxRetries := 1 }

/-- A catalog that has this endpoint. -/
def hastyCatalog : String :=
  "\x7b\"endpoints\": [\x7b\"friendly_name\": \"orders\", \"url\": \"https://orders\", " ++
    "\"type\": \"rest\", \"timeout_ms\": 500, \"max_retries\": 1\x7d]\x7d"

/-- The files of a process with that catalog. -/
def hastyFiles : FileSystem :=
  .ofList [("polycall.json", .file (Text.Utf8.encode hastyCatalog))]

/-- A server that does not answer. -/
def deadServer : Simulation.Script where
  steps := [.never, .never]
  troubles := []
  seen := []

/-- What the caller is told of it: a timeout, after two attempts and a wait. -/
def deadServerReport : Report where
  result := .error (.withResult (.timeout "deadline of 500ms exceeded")
    (.failed (.timeout "deadline of 500ms exceeded")))
  retried := [(.cutOff (.ofMillis 500), .ofSeconds 1)]
  elapsed := .ofSeconds 2

theorem call_accountsFor_deadServer :
    (call Simulation.Script.backend hastyEndpoint .none .standard .empty deadServer).1
        = some deadServerReport ∧
      (attemptsMade Simulation.Script.backend hastyEndpoint .none .standard .empty
        deadServer).length = 2 ∧
    ∃ outcome, (CommandLine.perform Simulation.Script.backend hastyFiles none
        ⟨none, "orders", none⟩ deadServer).1 = some (.ok outcome) ∧
      outcome.success = false ∧ Dictionary.contains "error" outcome.result.toMap = true := by
  obtain ⟨hcalls, hcommands⟩ := call_accountsFor Simulation.Script.backend deadServer
  have hreport : (call Simulation.Script.backend hastyEndpoint .none .standard .empty
      deadServer).1 = some deadServerReport := by
    with_unfolding_all rfl
  have hends : ((CommandLine.perform Simulation.Script.backend hastyFiles none
      ⟨none, "orders", none⟩ deadServer).1.map fun out =>
        out.toOption.map CommandLine.CallOutcome.success) = some (some false) := by
    decide +kernel
  refine ⟨hreport, ?_, ?_⟩
  · obtain ⟨haccounts, -⟩ := (hcalls _ _ _ _).2 _ hreport
    exact (haccounts.timeout _ rfl rfl rfl).1
  · obtain ⟨out, hout, hsuccess⟩ := Option.map_eq_some_iff.mp hends
    obtain ⟨haccounts, -⟩ := hcommands _ _ _ out hout
    cases out with
    | error error => cases hsuccess
    | ok outcome =>
      have hfailed : outcome.success = false := Option.some.inj hsuccess
      have hiff := haccounts.success outcome rfl
      rw [hfailed] at hiff
      exact ⟨outcome, hout, hfailed, by simpa using hiff⟩

end Switchboard
