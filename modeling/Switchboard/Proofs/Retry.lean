import Mathlib.Data.Set.Card
import Switchboard.Proofs.Call.Attempts

/-!
# How many attempts a budget allows

The retry machine starts before the attempt with the number zero, and what an attempt comes
to leads it before the next one or to its end.  It makes one attempt more than its budget has
retries at most, and numbers them in turn.  Thirty-two bits hold that many for every budget
but the greatest, whose last attempt is left out of the count that the policy gives.

## Main definitions

* `RetryState` — where the machine stands.
* `RetryPolicy.advance`, `RetryPolicy.stateAfter` — where an attempt leads, and a run of them.
* `RetryPolicy.attemptCount` — the number of attempts that a run makes.

## Main results

* `RetryPolicy.stateAfter_eq_attempt_iff` — which attempts are made, and their numbers.
* `RetryPolicy.exists_run_attemptCount` — a call makes as many attempts as the machine.
* `RetryPolicy.attemptCount_within` — **how many attempts a run makes.**
* `RetryPolicy.not_attemptCount_le_greatest` — the greatest budget allows one more than thirty-two
  bits can count.
-/

namespace Switchboard

/-- Where the retry machine stands. -/
inductive RetryState where
  /-- Before the attempt with the given number. -/
  | attempt (number : UInt32)
  /-- At its end, with or without success. -/
  | finished (success : Bool)
  deriving DecidableEq, Repr

namespace RetryPolicy

/-- Where the machine goes when an attempt comes to an outcome; at its end it stays. -/
def advance (p : RetryPolicy) : RetryState → Outcome → RetryState
  | .attempt n, o =>
    match p.next n o with
    | .retry m _ => .attempt m
    | .finish success => .finished success
  | .finished success, _ => .finished success

/-- Where the machine stands after a number of steps, if the attempts come to the given
outcomes in turn. -/
def stateAfter (p : RetryPolicy) (outcomes : ℕ → Outcome) : ℕ → RetryState
  | 0 => .attempt 0
  | i + 1 => p.advance (p.stateAfter outcomes i) (outcomes i)

/-- The steps before which the machine stands at an attempt. -/
def attemptSteps (p : RetryPolicy) (outcomes : ℕ → Outcome) : Set ℕ :=
  {i | ∃ n, p.stateAfter outcomes i = .attempt n}

/-- The number of attempts that the machine makes. -/
noncomputable def attemptCount (p : RetryPolicy) (outcomes : ℕ → Outcome) : ℕ∞ :=
  (p.attemptSteps outcomes).encard

section

variable {p : RetryPolicy} {outcomes : ℕ → Outcome}

/-! ### One step -/

/-- Another attempt is made after a timeout within the budget, and after nothing else. -/
theorem advance_eq_attempt_iff {st : RetryState} {o : Outcome} {m : UInt32} :
    p.advance st o = .attempt m ↔
      ∃ n, st = .attempt n ∧ o = .timedOut ∧ n < p.maxRetries ∧ m = n + 1 := by
  constructor
  · intro h
    cases st with
    | finished success => cases h
    | attempt n =>
      rw [advance] at h
      cases hnext : p.next n o with
      | finish success => rw [hnext] at h; cases h
      | retry m' pause =>
        rw [hnext] at h
        cases h
        obtain ⟨hlt, hm⟩ := lt_of_next_retry hnext
        refine ⟨n, rfl, ?_, hlt, hm⟩
        cases o with
        | timedOut => rfl
        | succeeded => cases hnext
        | failed => cases hnext
  · rintro ⟨n, rfl, rfl, hlt, rfl⟩
    rw [advance, next_timedOut_of_lt hlt]

/-! ### A run -/

/-- Thirty-two bits hold the number of every attempt within the budget. -/
theorem toNat_ofNat_of_le {i : ℕ} (h : i ≤ p.maxRetries.toNat) : (UInt32.ofNat i).toNat = i :=
  UInt32.toNat_ofNat_of_lt' (lt_of_le_of_lt h p.maxRetries.toNat_lt)

/-- The machine stands before an attempt as long as the budget lasts and all attempts
timed out, and the number of the attempt is the number of those before it. -/
theorem stateAfter_eq_attempt_iff {i : ℕ} {n : UInt32} :
    p.stateAfter outcomes i = .attempt n ↔
      n.toNat = i ∧ i ≤ p.maxRetries.toNat ∧ ∀ j < i, outcomes j = .timedOut := by
  induction i generalizing n with
  | zero =>
    rw [stateAfter, RetryState.attempt.injEq, ← UInt32.toNat_inj, UInt32.toNat_zero]
    constructor
    · intro h
      exact ⟨h.symm, Nat.zero_le _, by simp⟩
    · intro h
      exact h.1.symm
  | succ i ih =>
    rw [stateAfter, advance_eq_attempt_iff]
    constructor
    · rintro ⟨k, hstate, hout, hlt, rfl⟩
      obtain ⟨hk, -, hbefore⟩ := ih.mp hstate
      have hlt' : k.toNat < p.maxRetries.toNat := hlt
      refine ⟨by rw [toNat_succ_of_lt hlt, hk], by omega, ?_⟩
      intro j hj
      rcases Nat.lt_succ_iff_lt_or_eq.mp hj with hj | rfl
      · exact hbefore j hj
      · exact hout
    · rintro ⟨hn, hle, hbefore⟩
      have hi := toNat_ofNat_of_le (Nat.le_of_succ_le hle)
      have hlt : UInt32.ofNat i < p.maxRetries := by
        rw [UInt32.lt_iff_toNat_lt, hi]
        exact hle
      have hstate : p.stateAfter outcomes i = .attempt (UInt32.ofNat i) := by
        apply ih.mpr
        refine ⟨hi, Nat.le_of_succ_le hle, ?_⟩
        intro j hj
        exact hbefore j (Nat.lt_succ_of_lt hj)
      refine ⟨UInt32.ofNat i, hstate, hbefore i (Nat.lt_succ_self i), hlt, ?_⟩
      rw [← UInt32.toNat_inj, toNat_succ_of_lt hlt, hi, hn]

theorem mem_attemptSteps {i : ℕ} :
    i ∈ p.attemptSteps outcomes ↔
      i ≤ p.maxRetries.toNat ∧ ∀ j < i, outcomes j = .timedOut := by
  constructor
  · rintro ⟨n, hn⟩
    exact (stateAfter_eq_attempt_iff.mp hn).2
  · intro h
    exact ⟨UInt32.ofNat i, stateAfter_eq_attempt_iff.mpr ⟨toNat_ofNat_of_le h.1, h⟩⟩

/-! ### Counting -/

theorem attemptSteps_subset :
    p.attemptSteps outcomes ⊆ {i | i < p.maxRetries.toNat + 1} := by
  intro i hi
  exact Nat.lt_succ_of_le (mem_attemptSteps.mp hi).1

/-- One attempt more than there are retries, at most. -/
theorem attemptCount_le : p.attemptCount outcomes ≤ (p.maxRetries.toNat + 1 : ℕ) := by
  rw [← Set.Nat.encard_range]
  exact Set.encard_le_encard attemptSteps_subset

/-- The budget is spent exactly if all attempts before the last one time out. -/
theorem attemptCount_eq_iff :
    p.attemptCount outcomes = (p.maxRetries.toNat + 1 : ℕ) ↔
      ∀ i < p.maxRetries.toNat, outcomes i = .timedOut := by
  constructor
  · intro h
    -- as many steps as there are numbers up to the last one, so they are those
    have hall : p.attemptSteps outcomes = {i | i < p.maxRetries.toNat + 1} := by
      apply (Set.finite_lt_nat _).eq_of_subset_of_encard_le' attemptSteps_subset
      rw [Set.Nat.encard_range, ← h, attemptCount]
    have hlast : p.maxRetries.toNat ∈ p.attemptSteps outcomes := by
      rw [hall]
      exact Nat.lt_succ_self p.maxRetries.toNat
    exact (mem_attemptSteps.mp hlast).2
  · intro h
    have hall : p.attemptSteps outcomes = {i | i < p.maxRetries.toNat + 1} := by
      apply subset_antisymm attemptSteps_subset
      intro i hi
      have hle : i ≤ p.maxRetries.toNat := Nat.le_of_lt_succ hi
      rw [mem_attemptSteps]
      refine ⟨hle, ?_⟩
      intro j hj
      exact h j (lt_of_lt_of_le hj hle)
    rw [attemptCount, hall, Set.Nat.encard_range]

/-- What the policy counts is all that its budget allows, but for the last attempt of the
greatest one. -/
theorem toNat_maxAttempts (p : RetryPolicy) :
    p.maxAttempts.toNat + (if p.maxRetries = 0xFFFFFFFF then 1 else 0)
      = p.maxRetries.toNat + 1 := by
  rw [maxAttempts]
  split
  · rfl
  · next hne =>
    have hne' : p.maxRetries.toNat ≠ 4294967295 := fun h => hne (UInt32.toNat_inj.mp h)
    have hmax := p.maxRetries.toNat_lt
    have hlt : p.maxRetries < 0xFFFFFFFF :=
      UInt32.lt_iff_toNat_lt.mpr (show p.maxRetries.toNat < 4294967295 by omega)
    rw [toNat_succ_of_lt hlt, Nat.add_zero]

end

/-- The attempts of a call are those of the machine, if each of them comes to something. -/
theorem exists_run_attemptCount {σ : Type} (p : RetryPolicy) (t : Timer σ)
    (limit : Option Duration) (step : σ → Behaviour × σ) (s : σ) (a : ℕ → Attempt × Duration)
    (hends : ∀ i ∈ p.attemptSteps (fun i => (a i).1.outcome),
      attempt? t limit step s i = some (a i)) :
    ∃ run s', attempts p t limit step 0 s = (some run, s') ∧
      run.count = p.attemptCount fun i => (a i).1.outcome := by
  obtain ⟨m, hle, hbefore, hlast, -⟩ := exists_last (fun i => (a i).1) p.maxRetries.toNat
  have hsteps : p.attemptSteps (fun i => (a i).1.outcome) = {i | i < m + 1} := by
    ext i
    rw [mem_attemptSteps, Set.mem_ofPred_eq]
    constructor
    · rintro ⟨hi, hall⟩
      by_contra hbeyond
      -- the attempt with the number `m` timed out, so that the budget was spent with it
      have hout := Attempt.outcome_eq_timedOut_iff.mp (hall m (by omega))
      have hspent := hlast.resolve_left fun h => h hout
      omega
    · intro hi
      refine ⟨by omega, ?_⟩
      intro j hj
      exact Attempt.outcome_eq_timedOut_iff.mpr (hbefore j (by omega))
  have hmade : ∀ i ≤ m, attempt? t limit step s i = some (a i) := by
    intro i hi
    apply hends
    rw [hsteps]
    exact Nat.lt_succ_of_le hi
  obtain ⟨run, hrun, -, hretried⟩ := attempts_eq p t limit step m 0 s a hmade hbefore
    (by simpa using hle) (by simpa using hlast)
  refine ⟨run, _, hrun, ?_⟩
  rw [attemptCount, hsteps, Set.Nat.encard_range, Run.count, hretried, List.length_map,
    List.length_range]

/-- **How many attempts a run makes.**  For every budget and whatever the attempts come to, it
is what the policy says at most, and as many exactly if all attempts before the last one time
out; the policy says one less than it allows at the greatest budget, and there alone.  The
number that the machine gives an attempt is that of the attempts before it, which all timed
out, and so it never starts again from zero. -/
theorem attemptCount_within (p : RetryPolicy) (outcomes : ℕ → Outcome) :
    p.attemptCount outcomes
        ≤ (p.maxAttempts.toNat + if p.maxRetries = 0xFFFFFFFF then 1 else 0 : ℕ) ∧
      (p.attemptCount outcomes
          = (p.maxAttempts.toNat + if p.maxRetries = 0xFFFFFFFF then 1 else 0 : ℕ) ↔
        ∀ i < p.maxRetries.toNat, outcomes i = .timedOut) ∧
      ∀ i n, p.stateAfter outcomes i = .attempt n ↔
        n.toNat = i ∧ i ≤ p.maxRetries.toNat ∧ ∀ j < i, outcomes j = .timedOut := by
  rw [toNat_maxAttempts]
  exact ⟨attemptCount_le, attemptCount_eq_iff, fun _ _ => stateAfter_eq_attempt_iff⟩

/-- With the greatest budget, a run in which every attempt times out makes more attempts than
the policy says. -/
theorem not_attemptCount_le_greatest :
    (⟨0xFFFFFFFF⟩ : RetryPolicy).maxAttempts.toNat = 4294967295 ∧
      (⟨0xFFFFFFFF⟩ : RetryPolicy).attemptCount (fun _ => .timedOut) = 4294967296 ∧
      ¬ (⟨0xFFFFFFFF⟩ : RetryPolicy).attemptCount (fun _ => .timedOut)
        ≤ (⟨0xFFFFFFFF⟩ : RetryPolicy).maxAttempts.toNat := by
  have hmax : (⟨0xFFFFFFFF⟩ : RetryPolicy).maxAttempts.toNat = 4294967295 := rfl
  have hcount : (⟨0xFFFFFFFF⟩ : RetryPolicy).attemptCount (fun _ => .timedOut) = 4294967296 :=
    attemptCount_eq_iff.mpr fun _ _ => rfl
  refine ⟨hmax, hcount, ?_⟩
  rw [hmax, hcount]
  exact not_le.mpr (Nat.cast_lt.mpr (Nat.lt_succ_self 4294967295))

end RetryPolicy

end Switchboard
