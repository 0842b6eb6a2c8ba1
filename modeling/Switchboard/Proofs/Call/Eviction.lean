import Switchboard.Proofs.Call.Interleaving
import Switchboard.Proofs.Registry.Consistency

/-!
# What eviction does to calls that are running

However calls and evictions follow one another, a client that was evicted is handed no
attempt afterwards, while one that it has been handed ends as it would have ended
anyway.  A call that still has an attempt to start on it ends there, and a call that
gets its client later gets another one.

A turn does one of nine things to a scene (`Move`).  Each of them keeps three groups of
facts: which clients are kept, closed and on record (`Live`), how the stage of a call
goes with what was noted of it (`Agrees`), and what was noted before each event
(`Proper`).

## Main definitions

* `Proper` — what must have been noted before an event.
* `Stage.Follows`, `Stage.left` — what comes after a stage, and how far it is to the end.
* `Orderly` — what callers can rely on.

## Main results

* `step_move` — every turn is one of the nine moves.
* `Sound.step` — each move keeps what holds of a scene.
* `Move.follows`, `Sound.left_run` — every turn of a call takes it to what comes next, and
  nearer to its end.
* `orderly_run` — **what holds after any schedule.**
-/

namespace Switchboard

variable {σ δ : Type}

/-! ### Evicting clients -/

namespace Registry

/-- The registry after the clients under the names that do not pass a test have been
evicted. -/
def evicting (keep : String → Bool) (r : Registry δ) : Registry δ :=
  (r.dropped keep).foldl (fun r c => r.close c) (r.keepOnly keep)

theorem remove_eq_evicting {r : Registry δ} (h : r.entries.Ordered) (e : Endpoint)
    (config : Connection) :
    ∃ keep, (r.remove e config).2 = r.evicting keep ∧
      (r.get? e config).toList = r.dropped keep := by
  refine ⟨fun k => !decide (k = (Fingerprint.of e config).digits), ?_, ?_⟩
  · rw [evicting, dropped_name h, keepOnly_name, remove, take]
    cases r.lookup (.of e config) <;> rfl
  · rw [dropped_name h, get?]

theorem clear_eq_evicting (r : Registry δ) :
    r.clear.2 = r.evicting (fun _ => false) ∧
      r.entries.map Prod.snd = r.dropped (fun _ => false) := by
  have hall : ∀ es : List (String × Client δ), es.filter (fun _ => true) = es :=
    fun es => List.filter_eq_self.mpr fun _ _ => rfl
  constructor
  · simp [evicting, clear, drain, dropped, keepOnly, hall]
  · simp [dropped, hall]

theorem mem_closed_foldl_close {n : ℕ} {cs : List (Client δ)} {r : Registry δ} :
    n ∈ (cs.foldl (fun r c => r.close c) r).closed ↔ (∃ c ∈ cs, c.id = n) ∨ n ∈ r.closed := by
  induction cs generalizing r with
  | nil => simp
  | cons c cs ih =>
    rw [List.foldl_cons, ih, mem_closed_close]
    constructor
    · rintro (⟨d, hd, hn⟩ | rfl | hn)
      · exact Or.inl ⟨d, List.mem_cons_of_mem _ hd, hn⟩
      · exact Or.inl ⟨c, List.mem_cons_self, rfl⟩
      · exact Or.inr hn
    · rintro (⟨d, hd, hn⟩ | hn)
      · rcases List.mem_cons.mp hd with rfl | hd
        · exact Or.inr (Or.inl hn.symm)
        · exact Or.inl ⟨d, hd, hn⟩
      · exact Or.inr (Or.inr hn)

theorem mem_entries_evicting {keep : String → Bool} {r : Registry δ} {p : String × Client δ} :
    p ∈ (r.evicting keep).entries ↔ p ∈ r.entries ∧ keep p.1 = true := by
  rw [evicting, entries_foldl_close, keepOnly, List.mem_filter]

theorem mem_dropped {keep : String → Bool} {r : Registry δ} {c : Client δ} :
    c ∈ r.dropped keep ↔ ∃ k, (k, c) ∈ r.entries ∧ keep k = false := by
  simp [dropped]

end Registry

namespace Concurrent

open Registry (Stored mem_entries_evicting mem_dropped mem_closed_foldl_close)

/-! ### What a turn can come to -/

/-- Nothing comes after this: the call is over, or its attempt never ends. -/
def Stage.Final : Stage δ → Prop
  | .finished _ => True
  | .running _ _ none => True
  | _ => False

/-- What a turn can come to. -/
inductive Move (calls : ℕ → Call σ δ) (s : Scene σ δ) : Turn → Scene σ δ → Prop
  /-- Nothing: the call is over, or its attempt never ends. -/
  | idle (i : ℕ) (h : (s.stages i).Final) : Move calls s (.call i) s
  /-- A call gets no client. -/
  | fail (i : ℕ) (f : Failure) (x : σ) (h : s.stages i = .waiting) :
      Move calls s (.call i)
        (s.after i ⟨.finished (.error (.beforeCall f)), s.registry, x, []⟩)
  /-- A call gets its client. -/
  | obtain (i : ℕ) (c : Client δ) (r : Registry δ) (x : σ) (h : s.stages i = .waiting)
      (hc : s.registry.getOrCreate ((calls i).backend.create (calls i).endpoint (calls i).config)
        (calls i).endpoint (calls i).config s.surroundings = (.ok c, r, x)) :
      Move calls s (.call i) (s.after i ⟨.ready c 0, r, x, [.obtained i c]⟩)
  /-- An attempt is handed to an open client. -/
  | start (i : ℕ) (c : Client δ) (n : UInt32) (x : σ) (h : s.stages i = .ready c n)
      (hopen : c.id ∉ s.registry.closed) :
      Move calls s (.call i) (s.after i
        ⟨.running c n ((calls i).fate s.surroundings
            ((calls i).backend.perform c (calls i).request s.surroundings).1),
          s.registry, x, [.started i c n s.surroundings]⟩)
  /-- An attempt is refused by a closed one. -/
  | refuse (i : ℕ) (c : Client δ) (n : UInt32) (h : s.stages i = .ready c n)
      (hclosed : c.id ∈ s.registry.closed) :
      Move calls s (.call i) (s.after i
        ⟨.running c n (some (.error (Registry.evicted c.endpoint), ⟨0⟩)), s.registry,
          s.surroundings, [.refused i c n]⟩)
  /-- An attempt ends, and the call with it. -/
  | finish (i : ℕ) (c : Client δ) (n : UInt32) (a : Attempt) (time : Duration)
      (h : s.stages i = .running c n (some (a, time))) :
      Move calls s (.call i) (s.after i
        ⟨.finished a.finish, s.registry, s.surroundings, [.ended i c n a]⟩)
  /-- An attempt ends, and the call waits before the next one. -/
  | retry (i : ℕ) (c : Client δ) (n m : UInt32) (a : Attempt) (time pause : Duration)
      (h : s.stages i = .running c n (some (a, time)))
      (hnext : RetryPolicy.next ⟨(calls i).endpoint.maxRetries⟩ n a.outcome = .retry m pause) :
      Move calls s (.call i) (s.after i
        ⟨.pausing c m, s.registry, s.surroundings, [.paused i c m pause, .ended i c n a]⟩)
  /-- A wait ends. -/
  | rest (i : ℕ) (c : Client δ) (n : UInt32) (h : s.stages i = .pausing c n) :
      Move calls s (.call i) (s.after i ⟨.ready c n, s.registry, s.surroundings, []⟩)
  /-- Clients are evicted. -/
  | evict (t : Turn) (keep : String → Bool) (ht : ∀ i, t ≠ .call i) :
      Move calls s t (s.without (s.registry.evicting keep) (s.registry.dropped keep))

theorem Scene.after_same {s : Scene σ δ} {i : ℕ} {g : Stage δ} (h : s.stages i = g) :
    s.after i ⟨g, s.registry, s.surroundings, []⟩ = s := by
  subst h
  rw [after, Function.update_eq_self]
  rfl

/-- **Every turn is one of the nine moves.** -/
theorem step_move (calls : ℕ → Call σ δ) {s : Scene σ δ} (h : Stored s.registry) (t : Turn) :
    Move calls s t (s.step calls t) := by
  cases t with
  | call i =>
    cases hstage : s.stages i with
    | waiting =>
      rw [Scene.step_call calls hstage, Call.step]
      cases (calls i).endpoint.validate with
      | error f => exact .fail i f _ hstage
      | ok u =>
        rcases hclient : s.registry.getOrCreate ((calls i).backend.create (calls i).endpoint
          (calls i).config) (calls i).endpoint (calls i).config s.surroundings with ⟨f | c, r, x⟩
        · have hr := Registry.registry_of_getOrCreate_error hclient
          subst hr
          exact .fail i f x hstage
        · exact .obtain i c r x hstage hclient
    | ready c n =>
      rw [Scene.step_ready calls hstage, Backend.stepOf, Registry.request]
      cases hclosed : s.registry.isClosed c with
      | true =>
        simp only [if_true, Call.fate_now]
        exact .refuse i c n hstage (List.contains_iff_mem.mp hclosed)
      | false =>
        refine .start i c n _ hstage fun hmem => ?_
        rw [Registry.isClosed, List.contains_iff_mem.mpr hmem] at hclosed
        cases hclosed
    | running c n fate =>
      cases fate with
      | none =>
        rw [Scene.step_call calls hstage, Call.step]
        simp only [Scene.after_same hstage]
        exact .idle i (hstage ▸ trivial)
      | some o =>
        obtain ⟨a, time⟩ := o
        rw [Scene.step_running calls hstage]
        cases hnext : RetryPolicy.next ⟨(calls i).endpoint.maxRetries⟩ n a.outcome with
        | finish success =>
          rw [Call.settle_of_finish hnext]
          exact .finish i c n a time hstage
        | retry m pause =>
          rw [Call.settle_of_retry hnext]
          exact .retry i c n m a time pause hstage hnext
    | pausing c n =>
      rw [Scene.step_pausing calls hstage]
      exact .rest i c n hstage
    | finished result =>
      rw [Scene.step_call calls hstage, Call.step, Scene.after_same hstage]
      exact .idle i (hstage ▸ trivial)
  | evict e config =>
    obtain ⟨keep, hremove, hgone⟩ := Registry.remove_eq_evicting h.ordered e config
    rw [Scene.step, hremove, hgone]
    exact .evict _ keep fun i h => by cases h
  | evictAll =>
    obtain ⟨hclear, hgone⟩ := Registry.clear_eq_evicting s.registry
    rw [Scene.step, hclear, hgone]
    exact .evict _ _ fun i h => by cases h

/-! ### Which clients are kept, closed and on record -/

/-- What the registry says goes with what was noted. -/
structure Live (r : Registry δ) (record : List (Event σ δ)) : Prop where
  /-- How clients stand in the registry. -/
  stored : Stored r
  /-- The numbers of those that are kept have been used. -/
  numbered : ∀ k c, (k, c) ∈ r.entries → c.id ≤ r.built
  /-- No two of them have one number. -/
  distinct : ∀ k k' c c', (k, c) ∈ r.entries → (k', c') ∈ r.entries → c.id = c'.id → k = k'
  /-- The numbers of those that are closed have been used. -/
  closed_numbered : ∀ n ∈ r.closed, n ≤ r.built
  /-- What is kept is open. -/
  kept_open : ∀ k c, (k, c) ∈ r.entries → c.id ∉ r.closed
  /-- What was evicted is closed. -/
  evicted_closed : ∀ c, .evicted c ∈ record → c.id ∈ r.closed
  /-- What a call got is kept until it is evicted. -/
  kept_or_evicted : ∀ i c, .obtained i c ∈ record → (∃ k, (k, c) ∈ r.entries) ∨ .evicted c ∈ record

theorem Live.empty : Live (.empty : Registry δ) ([] : List (Event σ δ)) where
  stored := .empty
  numbered := fun _ _ h => absurd h List.not_mem_nil
  distinct := fun _ _ _ _ h => absurd h List.not_mem_nil
  closed_numbered := fun _ h => absurd h List.not_mem_nil
  kept_open := fun _ _ h => absurd h List.not_mem_nil
  evicted_closed := fun _ h => absurd h List.not_mem_nil
  kept_or_evicted := fun _ _ h => absurd h List.not_mem_nil

section

variable {r : Registry δ} {record : List (Event σ δ)}

/-- Noting events that evict nothing, and of clients that are kept only. -/
theorem Live.note (h : Live r record) {es : List (Event σ δ)} (hevicted : ∀ c, .evicted c ∉ es)
    (hobtained : ∀ i c, .obtained i c ∈ es → ∃ k, (k, c) ∈ r.entries) : Live r (es ++ record) := by
  refine { h with evicted_closed := fun c hc => ?_, kept_or_evicted := fun i c hc => ?_ }
  · exact h.evicted_closed c ((List.mem_append.mp hc).resolve_left (hevicted c))
  · rcases List.mem_append.mp hc with hc | hc
    · exact Or.inl (hobtained i c hc)
    · exact (h.kept_or_evicted i c hc).imp_right (List.mem_append_right es)

/-- A client that is built has a number that was never used. -/
theorem Live.enter (h : Live r record) {f : Fingerprint} (hf : r.lookup f = none) (e : Endpoint)
    (d : δ) : Live (r.enter e f d).2 record := by
  have hnew : ∀ p ∈ r.entries, p.1 ≠ f.digits := Dictionary.get?_eq_none_iff.mp hf
  have hmem : ∀ p, p ∈ (r.enter e f d).2.entries ↔
      p = (f.digits, (r.enter e f d).1) ∨ p ∈ r.entries := fun p =>
    Dictionary.mem_insert_iff hnew
  have hfresh : ∀ n ≤ r.built, n ≠ (r.enter e f d).1.id := by
    intro n hn heq
    rw [heq] at hn
    exact Nat.not_succ_le_self _ hn
  constructor
  case stored => exact h.stored.enter e f d
  case numbered =>
    intro k c hc
    rcases (hmem _).mp hc with heq | hc
    · obtain ⟨rfl, rfl⟩ := Prod.mk.inj heq
      exact le_rfl
    · exact Nat.le_succ_of_le (h.numbered k c hc)
  case distinct =>
    intro k k' c c' hc hc' hid
    rcases (hmem _).mp hc with heq | hc
    · obtain ⟨rfl, rfl⟩ := Prod.mk.inj heq
      rcases (hmem _).mp hc' with heq' | hc'
      · exact (Prod.mk.inj heq').1.symm
      · exact absurd hid.symm (hfresh _ (h.numbered k' c' hc'))
    · rcases (hmem _).mp hc' with heq' | hc'
      · obtain ⟨rfl, rfl⟩ := Prod.mk.inj heq'
        exact absurd hid (hfresh _ (h.numbered k c hc))
      · exact h.distinct k k' c c' hc hc' hid
  case closed_numbered => exact fun n hn => Nat.le_succ_of_le (h.closed_numbered n hn)
  case kept_open =>
    intro k c hc hclosed
    rcases (hmem _).mp hc with heq | hc
    · obtain ⟨rfl, rfl⟩ := Prod.mk.inj heq
      exact hfresh _ (h.closed_numbered _ hclosed) rfl
    · exact h.kept_open k c hc hclosed
  case evicted_closed => exact h.evicted_closed
  case kept_or_evicted =>
    intro i c hc
    refine (h.kept_or_evicted i c hc).imp_left fun ⟨k, hk⟩ => ⟨k, (hmem _).mpr (Or.inr hk)⟩

/-- What a call gets is kept afterwards. -/
theorem Live.getOrCreate (h : Live r record) {create : σ → Except Failure δ × σ} {e : Endpoint}
    {config : Connection} {r' : Registry δ} {x x' : σ} {c : Client δ}
    (hc : r.getOrCreate create e config x = (.ok c, r', x')) :
    Live r' record ∧ ∃ k, (k, c) ∈ r'.entries := by
  rcases Registry.getOrCreate_ok hc with ⟨hlookup, rfl⟩ | ⟨hnone, d, -, rfl, rfl⟩
  · exact ⟨h, _, Dictionary.mem_of_get? hlookup⟩
  · exact ⟨h.enter hnone e d, _, Dictionary.mem_of_get? (Registry.lookup_enter ..)⟩

/-- Evicting closes what it takes out, and nothing that is left. -/
theorem Live.evicting (h : Live r record) (keep : String → Bool) :
    Live (r.evicting keep) ((r.dropped keep).map .evicted ++ record) := by
  have hclosed : ∀ n, n ∈ (r.evicting keep).closed ↔
      (∃ c ∈ r.dropped keep, c.id = n) ∨ n ∈ r.closed := fun n => mem_closed_foldl_close
  have hbuilt : (r.evicting keep).built = r.built := Registry.built_foldl_close ..
  constructor
  case stored =>
    have hentries : (r.evicting keep).entries = (r.keepOnly keep).entries :=
      Registry.entries_foldl_close ..
    have hkept := h.stored.keepOnly keep
    exact ⟨hentries ▸ hkept.ordered, hentries ▸ hkept.own⟩
  case numbered =>
    intro k c hc
    rw [hbuilt]
    exact h.numbered k c (mem_entries_evicting.mp hc).1
  case distinct =>
    intro k k' c c' hc hc'
    exact h.distinct k k' c c' (mem_entries_evicting.mp hc).1 (mem_entries_evicting.mp hc').1
  case closed_numbered =>
    intro n hn
    rw [hbuilt]
    rcases (hclosed n).mp hn with ⟨c, hc, rfl⟩ | hn
    · obtain ⟨k, hk, -⟩ := mem_dropped.mp hc
      exact h.numbered k c hk
    · exact h.closed_numbered n hn
  case kept_open =>
    intro k c hc hn
    obtain ⟨hc, hkeep⟩ := mem_entries_evicting.mp hc
    rcases (hclosed _).mp hn with ⟨c', hc', hid⟩ | hn
    · -- the one that was dropped would stand under the same name
      obtain ⟨k', hk', hdrop⟩ := mem_dropped.mp hc'
      obtain rfl := h.distinct k' k c' c hk' hc hid
      rw [hkeep] at hdrop
      cases hdrop
    · exact h.kept_open k c hc hn
  case evicted_closed =>
    intro c hc
    rcases List.mem_append.mp hc with hc | hc
    · obtain ⟨c', hc', heq⟩ := List.mem_map.mp hc
      cases heq
      exact (hclosed _).mpr (Or.inl ⟨c, hc', rfl⟩)
    · exact (hclosed _).mpr (Or.inr (h.evicted_closed c hc))
  case kept_or_evicted =>
    intro i c hc
    have hc : .obtained i c ∈ record := by simpa using hc
    rcases h.kept_or_evicted i c hc with ⟨k, hk⟩ | hc
    · cases hkeep : keep k with
      | true => exact Or.inl ⟨k, mem_entries_evicting.mpr ⟨hk, hkeep⟩⟩
      | false =>
        have hdropped : c ∈ r.dropped keep := mem_dropped.mpr ⟨k, hk, hkeep⟩
        exact Or.inr (List.mem_append_left _ (List.mem_map_of_mem hdropped))
    · exact Or.inr (List.mem_append_right _ hc)

end

theorem Live.move {calls : ℕ → Call σ δ} {s s' : Scene σ δ} {t : Turn} (hm : Move calls s t s')
    (h : Live s.registry s.record) : Live s'.registry s'.record := by
  cases hm with
  | idle => exact h
  | fail => exact h
  | obtain i c r x _ hc =>
    obtain ⟨hr, hkept⟩ := h.getOrCreate hc
    refine hr.note (by simp) fun j d hd => ?_
    cases List.mem_singleton.mp hd
    exact hkept
  | start => exact h.note (by simp) (by simp)
  | refuse => exact h.note (by simp) (by simp)
  | finish => exact h.note (by simp) (by simp)
  | retry => exact h.note (by simp) (by simp)
  | rest => exact h
  | evict _ keep _ => exact h.evicting keep

/-! ### The events of one call -/

/-- Whether an event is of the call with number `i`. -/
def Event.isOf (i : ℕ) : Event σ δ → Bool
  | .obtained j _ | .started j _ _ _ | .refused j _ _ | .ended j _ _ _ | .paused j _ _ _ => j = i
  | .evicted _ => false

/-- The events of the call with number `i`, the latest first. -/
def eventsOf (i : ℕ) (record : List (Event σ δ)) : List (Event σ δ) := record.filter (Event.isOf i)

theorem eventsOf_append (i : ℕ) (es record : List (Event σ δ)) :
    eventsOf i (es ++ record) = eventsOf i es ++ eventsOf i record := List.filter_append ..

theorem eventsOf_self {i : ℕ} {es : List (Event σ δ)} (h : ∀ e ∈ es, e.isOf i = true) :
    eventsOf i es = es := List.filter_eq_self.mpr h

theorem eventsOf_other {i j : ℕ} {es : List (Event σ δ)} (h : ∀ e ∈ es, e.isOf i = true)
    (hj : j ≠ i) : eventsOf j es = [] := by
  refine List.filter_eq_nil_iff.mpr fun e he hof => ?_
  have hi := h e he
  cases e with
  | evicted => cases hi
  | obtained k | started k | refused k | ended k | paused k =>
    exact hj ((of_decide_eq_true hof).symm.trans (of_decide_eq_true hi))

theorem eventsOf_evicted (i : ℕ) (cs : List (Client δ)) :
    eventsOf i (cs.map (.evicted : Client δ → Event σ δ)) = [] := by
  refine List.filter_eq_nil_iff.mpr fun e he hof => ?_
  obtain ⟨c, -, rfl⟩ := List.mem_map.mp he
  cases hof

theorem mem_of_mem_eventsOf {i : ℕ} {e : Event σ δ} {record : List (Event σ δ)}
    (h : e ∈ eventsOf i record) : e ∈ record := List.mem_of_mem_filter h

/-- A turn of a call notes events of that call alone. -/
theorem Move.call {calls : ℕ → Call σ δ} {s s' : Scene σ δ} {i : ℕ}
    (h : Move calls s (.call i) s') :
    s' = s ∨ ∃ e, s' = s.after i e ∧ ∀ x ∈ e.events, x.isOf i = true := by
  have hself : ∀ x : ℕ, decide (x = x) = true := fun x => decide_eq_true rfl
  cases h with
  | idle => exact Or.inl rfl
  | fail => exact Or.inr ⟨_, rfl, by simp⟩
  | obtain => exact Or.inr ⟨_, rfl, by simp [Event.isOf]⟩
  | start => exact Or.inr ⟨_, rfl, by simp [Event.isOf]⟩
  | refuse => exact Or.inr ⟨_, rfl, by simp [Event.isOf]⟩
  | finish => exact Or.inr ⟨_, rfl, by simp [Event.isOf]⟩
  | retry => exact Or.inr ⟨_, rfl, by simp [Event.isOf]⟩
  | rest => exact Or.inr ⟨_, rfl, by simp⟩
  | evict _ _ ht => exact absurd rfl (ht i)

/-- A turn of another call, or an eviction, does nothing to a call. -/
theorem Move.other {calls : ℕ → Call σ δ} {s s' : Scene σ δ} {t : Turn} {j : ℕ}
    (h : Move calls s t s') (hj : t ≠ .call j) :
    s'.stages j = s.stages j ∧ eventsOf j s'.record = eventsOf j s.record := by
  cases t with
  | call i =>
    have hne : j ≠ i := fun heq => hj (by rw [heq])
    rcases h.call with rfl | ⟨e, rfl, hes⟩
    · exact ⟨rfl, rfl⟩
    · refine ⟨Scene.stages_after_of_ne s hne e, ?_⟩
      rw [Scene.record_after, eventsOf_append, eventsOf_other hes hne, List.nil_append]
  | evict | evictAll =>
    cases h with
    | evict =>
      refine ⟨rfl, ?_⟩
      rw [Scene.without, eventsOf_append, eventsOf_evicted, List.nil_append]

/-! ### How the stage of a call goes with its events -/

/-- How the stage of the call `k` with number `i` goes with its events, the latest first. -/
inductive Agrees (k : Call σ δ) (i : ℕ) : Stage δ → List (Event σ δ) → Prop
  /-- Nothing has been noted of a call that has no client. -/
  | waiting : Agrees k i .waiting []
  /-- It has just got one. -/
  | obtained (c : Client δ) : Agrees k i (.ready c 0) [.obtained i c]
  /-- It has waited before the next attempt. -/
  | rested (c : Client δ) (n : UInt32) (pause : Duration) (es : List (Event σ δ))
      (h : .obtained i c ∈ es) : Agrees k i (.ready c n) (.paused i c n pause :: es)
  /-- An attempt was handed to a client, and will come to what the client makes of it. -/
  | started (c : Client δ) (n : UInt32) (x : σ) (es : List (Event σ δ))
      (h : .obtained i c ∈ es) :
      Agrees k i (.running c n (k.fate x (k.backend.perform c k.request x).1))
        (.started i c n x :: es)
  /-- An attempt was refused, and will come to that. -/
  | refused (c : Client δ) (n : UInt32) (es : List (Event σ δ)) (h : .obtained i c ∈ es) :
      Agrees k i (.running c n (some (.error (Registry.evicted c.endpoint), ⟨0⟩)))
        (.refused i c n :: es)
  /-- It waits. -/
  | pausing (c : Client δ) (n : UInt32) (pause : Duration) (es : List (Event σ δ))
      (h : .obtained i c ∈ es) : Agrees k i (.pausing c n) (.paused i c n pause :: es)
  /-- It got no client. -/
  | failed (f : Failure) : Agrees k i (.finished (.error (.beforeCall f))) []
  /-- It is over with its last attempt. -/
  | finished (c : Client δ) (n : UInt32) (a : Attempt) (es : List (Event σ δ)) :
      Agrees k i (.finished a.finish) (.ended i c n a :: es)

/-- The client that a call speaks to. -/
def Stage.client? : Stage δ → Option (Client δ)
  | .ready c _ | .running c _ _ | .pausing c _ => some c
  | .waiting | .finished _ => none

/-- The client that a call speaks to is the one that it got. -/
theorem Agrees.obtained_mem {k : Call σ δ} {i : ℕ} {g : Stage δ} {es : List (Event σ δ)}
    (h : Agrees k i g es) {c : Client δ} (hc : g.client? = some c) : .obtained i c ∈ es := by
  cases h with
  | waiting | failed | finished => cases hc
  | obtained =>
    cases hc
    exact List.mem_singleton_self _
  | rested _ _ _ _ h | started _ _ _ _ h | refused _ _ _ h | pausing _ _ _ _ h =>
    cases hc
    exact List.mem_cons_of_mem _ h

/-- How the stages of all calls go with the record. -/
def Agree (calls : ℕ → Call σ δ) (s : Scene σ δ) : Prop :=
  ∀ i, Agrees (calls i) i (s.stages i) (eventsOf i s.record)

theorem Agree.of_stage {calls : ℕ → Call σ δ} {s : Scene σ δ} (h : Agree calls s) {i : ℕ}
    {g : Stage δ} (hg : s.stages i = g) : Agrees (calls i) i g (eventsOf i s.record) := hg ▸ h i

theorem Agree.after {calls : ℕ → Call σ δ} {s : Scene σ δ} (h : Agree calls s) {i : ℕ}
    {e : Effect σ δ} (hes : ∀ x ∈ e.events, x.isOf i = true)
    (hi : Agrees (calls i) i e.stage (e.events ++ eventsOf i s.record)) :
    Agree calls (s.after i e) := by
  intro j
  rw [Scene.record_after, eventsOf_append]
  by_cases hj : j = i
  · subst hj
    rw [Scene.stages_after_self, eventsOf_self hes]
    exact hi
  · rw [Scene.stages_after_of_ne s hj, eventsOf_other hes hj]
    exact h j

theorem Agree.move {calls : ℕ → Call σ δ} {s s' : Scene σ δ} {t : Turn}
    (hm : Move calls s t s') (h : Agree calls s) : Agree calls s' := by
  cases hm with
  | idle => exact h
  | fail i f x hstage =>
    refine h.after (by simp) ?_
    have hevents := h.of_stage hstage
    generalize eventsOf i s.record = es at hevents
    cases hevents
    exact .failed f
  | obtain i c r x hstage =>
    refine h.after (by simp [Event.isOf]) ?_
    have hevents := h.of_stage hstage
    generalize eventsOf i s.record = es at hevents
    cases hevents
    exact .obtained c
  | start i c n x hstage =>
    exact h.after (by simp [Event.isOf]) (.started c n _ _ ((h.of_stage hstage).obtained_mem rfl))
  | refuse i c n hstage =>
    exact h.after (by simp [Event.isOf]) (.refused c n _ ((h.of_stage hstage).obtained_mem rfl))
  | finish i c n a time hstage =>
    exact h.after (by simp [Event.isOf]) (.finished c n a _)
  | retry i c n m a time pause hstage =>
    have hmem := (h.of_stage hstage).obtained_mem rfl
    exact h.after (by simp [Event.isOf]) (.pausing c m pause _ (List.mem_cons_of_mem _ hmem))
  | rest i c n hstage =>
    refine h.after (by simp) ?_
    have hevents := h.of_stage hstage
    generalize eventsOf i s.record = es at hevents
    cases hevents with
    | pausing _ _ pause es hmem => exact .rested c n pause es hmem
  | evict _ keep ht =>
    intro i
    obtain ⟨hstage, hevents⟩ := (Move.evict t keep ht : Move calls s t _).other (ht i)
    rw [hstage, hevents]
    exact h i

/-! ### What must have been noted before an event -/

/-- What must have been noted before an event. -/
def Proper (calls : ℕ → Call σ δ) (earlier : List (Event σ δ)) : Event σ δ → Prop
  | .obtained _ c => ∀ d, .evicted d ∈ earlier → d.id ≠ c.id
  | .started i c _ _ => .obtained i c ∈ earlier ∧ ∀ d, .evicted d ∈ earlier → d.id ≠ c.id
  | .refused i c _ => .obtained i c ∈ earlier ∧ .evicted c ∈ earlier
  | .ended i c n a =>
    (∃ x, (eventsOf i earlier).head? = some (.started i c n x) ∧
      (calls i).outcome? c x = some a) ∨
    (eventsOf i earlier).head? = some (.refused i c n) ∧
      a = .error (Registry.evicted c.endpoint)
  | .paused i c m pause =>
    ∃ n a, (eventsOf i earlier).head? = some (.ended i c n a) ∧
      RetryPolicy.next ⟨(calls i).endpoint.maxRetries⟩ n a.outcome = .retry m pause
  | .evicted _ => True

/-- All that was noted, the latest first, is proper after what was noted before. -/
def AllProper (calls : ℕ → Call σ δ) : List (Event σ δ) → Prop
  | [] => True
  | e :: earlier => Proper calls earlier e ∧ AllProper calls earlier

theorem AllProper.of_append {calls : ℕ → Call σ δ} {later earlier : List (Event σ δ)} :
    AllProper calls (later ++ earlier) → AllProper calls earlier := by
  induction later with
  | nil => exact id
  | cons e later ih => exact fun h => ih h.2

/-- An event is proper after what was noted before. -/
theorem AllProper.proper {calls : ℕ → Call σ δ} {record later earlier : List (Event σ δ)}
    {e : Event σ δ} (h : AllProper calls record) (hrec : record = later ++ e :: earlier) :
    Proper calls earlier e := by
  subst hrec
  exact h.of_append.1

theorem AllProper.evicted {calls : ℕ → Call σ δ} {record : List (Event σ δ)}
    (cs : List (Client δ)) (h : AllProper calls record) :
    AllProper calls (cs.map .evicted ++ record) := by
  induction cs with
  | nil => exact h
  | cons c cs ih => exact ⟨trivial, ih⟩

/-- What holds of a scene. -/
structure Sound (calls : ℕ → Call σ δ) (s : Scene σ δ) : Prop where
  /-- Which clients are kept, closed and on record. -/
  live : Live s.registry s.record
  /-- How the stages go with the record. -/
  agree : Agree calls s
  /-- What was noted before each event. -/
  proper : AllProper calls s.record

/-- A client that is open was not evicted. -/
theorem Live.ne_of_evicted {r : Registry δ} {record : List (Event σ δ)} (h : Live r record)
    {c : Client δ} (hc : c.id ∉ r.closed) : ∀ d, .evicted d ∈ record → d.id ≠ c.id := by
  intro d hd heq
  exact hc (heq ▸ h.evicted_closed d hd)

/-- A client that a call got is closed only if it was evicted. -/
theorem Live.evicted_of_closed {r : Registry δ} {record : List (Event σ δ)} (h : Live r record)
    {i : ℕ} {c : Client δ} (hc : c.id ∈ r.closed) (hmem : .obtained i c ∈ record) :
    .evicted c ∈ record := by
  refine (h.kept_or_evicted i c hmem).resolve_left fun ⟨k, hk⟩ => ?_
  exact h.kept_open k c hk hc

theorem Sound.proper_move {calls : ℕ → Call σ δ} {s s' : Scene σ δ} {t : Turn}
    (hm : Move calls s t s') (h : Sound calls s) : AllProper calls s'.record := by
  have hobtained : ∀ {i : ℕ} {g : Stage δ} {c : Client δ}, s.stages i = g →
      g.client? = some c → .obtained i c ∈ s.record := fun hstage hc =>
    mem_of_mem_eventsOf ((h.agree.of_stage hstage).obtained_mem hc)
  -- an attempt ends with what was to come of it
  have hended : ∀ {i : ℕ} {c : Client δ} {n : UInt32} {a : Attempt} {time : Duration},
      s.stages i = .running c n (some (a, time)) → Proper calls s.record (.ended i c n a) := by
    intro i c n a time hstage
    have hevents := h.agree.of_stage hstage
    rw [Proper]
    generalize eventsOf i s.record = es at hevents
    generalize hfate : some (a, time) = fate at hevents
    cases hevents with
    | started _ _ x es _ =>
      refine Or.inl ⟨x, rfl, ?_⟩
      rw [Call.outcome?, ← hfate]
      rfl
    | refused _ _ es _ =>
      cases hfate
      exact Or.inr ⟨rfl, rfl⟩
  cases hm with
  | idle => exact h.proper
  | fail => exact h.proper
  | obtain i c r x hstage hc =>
    obtain ⟨hlive, k, hk⟩ := h.live.getOrCreate hc
    exact ⟨hlive.ne_of_evicted (hlive.kept_open k c hk), h.proper⟩
  | start i c n x hstage hopen =>
    exact ⟨⟨hobtained hstage rfl, h.live.ne_of_evicted hopen⟩, h.proper⟩
  | refuse i c n hstage hclosed =>
    have hmem := hobtained hstage rfl
    exact ⟨⟨hmem, h.live.evicted_of_closed hclosed hmem⟩, h.proper⟩
  | finish i c n a time hstage => exact ⟨hended hstage, h.proper⟩
  | retry i c n m a time pause hstage hnext =>
    refine ⟨⟨n, a, ?_, hnext⟩, hended hstage, h.proper⟩
    simp [eventsOf, Event.isOf]
  | rest => exact h.proper
  | evict _ keep _ => exact h.proper.evicted _

theorem Sound.start (calls : ℕ → Call σ δ) (x : σ) : Sound calls (.start x) where
  live := .empty
  agree := fun _ => .waiting
  proper := trivial

/-- **A turn keeps what holds of a scene.** -/
theorem Sound.step {calls : ℕ → Call σ δ} {s : Scene σ δ} (h : Sound calls s) (t : Turn) :
    Sound calls (s.step calls t) := by
  have hm := step_move calls h.live.stored t
  exact ⟨h.live.move hm, h.agree.move hm, h.proper_move hm⟩

theorem Sound.run {calls : ℕ → Call σ δ} {s : Scene σ δ} (schedule : List Turn)
    (h : Sound calls s) : Sound calls (s.run calls schedule) := by
  induction schedule generalizing s with
  | nil => exact h
  | cons t schedule ih => exact ih (h.step t)

/-! ### What becomes of a call -/

/-- How often it is the turn of the call with number `i`. -/
def turns (i : ℕ) (schedule : List Turn) : ℕ :=
  schedule.countP fun
    | .call j => j = i
    | _ => false

@[simp] theorem turns_cons_self (i : ℕ) (schedule : List Turn) :
    turns i (.call i :: schedule) = turns i schedule + 1 := List.countP_cons_of_pos (by simp)

theorem turns_cons_of_ne {i : ℕ} {t : Turn} (h : t ≠ .call i) (schedule : List Turn) :
    turns i (t :: schedule) = turns i schedule := by
  refine List.countP_cons_of_neg fun ht => ?_
  cases t with
  | call j => exact h (congrArg Turn.call (of_decide_eq_true ht))
  | evict | evictAll => cases ht

theorem Move.record {calls : ℕ → Call σ δ} {s s' : Scene σ δ} {t : Turn}
    (h : Move calls s t s') : ∃ es, s'.record = es ++ s.record := by
  cases t with
  | call i =>
    rcases h.call with rfl | ⟨e, rfl, -⟩
    · exact ⟨[], rfl⟩
    · exact ⟨e.events, rfl⟩
  | evict | evictAll =>
    cases h with
    | evict => exact ⟨_, rfl⟩

section

variable {calls : ℕ → Call σ δ} {s : Scene σ δ} {i : ℕ} {c : Client δ} {n : UInt32}

/-- What has been noted stays on record. -/
theorem Sound.record_run (schedule : List Turn) (h : Sound calls s) :
    ∃ es, (s.run calls schedule).record = es ++ s.record := by
  induction schedule generalizing s with
  | nil => exact ⟨[], rfl⟩
  | cons t schedule ih =>
    obtain ⟨es, hes⟩ := (step_move calls h.live.stored t).record
    obtain ⟨es', hes'⟩ := ih (h.step t)
    refine ⟨es' ++ es, ?_⟩
    rw [Scene.run_cons, hes', hes, List.append_assoc]

/-- A call whose latest event is the start of an attempt is at that attempt. -/
theorem Agrees.running_of_started {k : Call σ δ} {g : Stage δ} {es : List (Event σ δ)} {x : σ}
    (h : Agrees k i g es) (hhead : es.head? = some (.started i c n x)) :
    g = .running c n (k.fate x (k.backend.perform c k.request x).1) := by
  cases h with
  | started =>
    cases hhead
    rfl
  | waiting | obtained | rested | refused | pausing | failed | finished => cases hhead

/-- **An attempt that was started delivers what the client makes of it**, whatever happens
to the client in between. -/
theorem Sound.delivers {x : σ} {a : Attempt} (schedule : List Turn) (h : Sound calls s)
    (hhead : (eventsOf i s.record).head? = some (.started i c n x))
    (hends : (calls i).outcome? c x = some a) (hturns : 1 ≤ turns i schedule) :
    ∃ es, eventsOf i (s.run calls schedule).record
      = es ++ .ended i c n a :: eventsOf i s.record := by
  induction schedule generalizing s with
  | nil => exact absurd hturns (Nat.not_succ_le_zero 0)
  | cons t schedule ih =>
    by_cases ht : t = .call i
    · subst ht
      obtain ⟨⟨a', time⟩, hfate, rfl⟩ := Option.map_eq_some_iff.mp hends
      have hrunning := (h.agree i).running_of_started hhead
      rw [hfate] at hrunning
      -- the turn ends the attempt, and the rest of the schedule adds to the record
      have hended : ∃ es, eventsOf i (s.step calls (.call i)).record
          = es ++ .ended i c n a' :: eventsOf i s.record := by
        rw [Scene.step_running calls hrunning, Scene.record_after, eventsOf_append]
        cases hnext : RetryPolicy.next ⟨(calls i).endpoint.maxRetries⟩ n a'.outcome with
        | finish success =>
          rw [Call.settle_of_finish hnext, eventsOf_self (by simp [Event.isOf])]
          exact ⟨[], rfl⟩
        | retry m pause =>
          rw [Call.settle_of_retry hnext, eventsOf_self (by simp [Event.isOf])]
          exact ⟨[_], rfl⟩
      obtain ⟨es, hes⟩ := hended
      obtain ⟨es', hes'⟩ := (h.step (.call i)).record_run schedule
      refine ⟨eventsOf i es' ++ es, ?_⟩
      rw [Scene.run_cons, hes', eventsOf_append, hes, List.append_assoc]
    · obtain ⟨-, hevents⟩ := (step_move calls h.live.stored t).other ht
      rw [turns_cons_of_ne ht] at hturns
      rw [← hevents] at hhead ⊢
      exact ih (h.step t) hhead hturns

/-- What comes after a stage of a call that may try again so often. -/
inductive Stage.Follows (retries : UInt32) : Stage δ → Stage δ → Prop
  /-- The call gets no client. -/
  | failed (f : Failure) : Follows retries .waiting (.finished (.error (.beforeCall f)))
  /-- It gets one. -/
  | obtained (c : Client δ) : Follows retries .waiting (.ready c 0)
  /-- Its attempt is started or refused. -/
  | begun (c : Client δ) (n : UInt32) (fate : Option (Attempt × Duration)) :
    Follows retries (.ready c n) (.running c n fate)
  /-- The attempt ends, and the call with it. -/
  | ended (c : Client δ) (n : UInt32) (a : Attempt) (time : Duration) :
    Follows retries (.running c n (some (a, time))) (.finished a.finish)
  /-- The attempt ends, and the call waits before the next one. -/
  | paused (c : Client δ) (n : UInt32) (a : Attempt) (time : Duration) (h : n < retries) :
    Follows retries (.running c n (some (a, time))) (.pausing c (n + 1))
  /-- The wait ends. -/
  | rested (c : Client δ) (n : UInt32) : Follows retries (.pausing c n) (.ready c n)

theorem Move.follows {s' : Scene σ δ} (h : Move calls s (.call i) s')
    (hgoes : ¬ (s.stages i).Final) :
    (s.stages i).Follows (calls i).endpoint.maxRetries (s'.stages i) := by
  cases h with
  | idle _ hfinal => exact absurd hfinal hgoes
  | fail _ f x hstage =>
    rw [hstage, Scene.stages_after_self]
    exact .failed f
  | obtain _ c r x hstage hc =>
    rw [hstage, Scene.stages_after_self]
    exact .obtained c
  | start _ c n x hstage hopen =>
    rw [hstage, Scene.stages_after_self]
    exact .begun c n _
  | refuse _ c n hstage hclosed =>
    rw [hstage, Scene.stages_after_self]
    exact .begun c n _
  | finish _ c n a time hstage =>
    rw [hstage, Scene.stages_after_self]
    exact .ended c n a time
  | retry _ c n m a time pause hstage hnext =>
    obtain ⟨hlt, rfl⟩ := RetryPolicy.lt_of_next_retry hnext
    rw [hstage, Scene.stages_after_self]
    exact .paused c n a time hlt
  | rest _ c n hstage =>
    rw [hstage, Scene.stages_after_self]
    exact .rested c n
  | evict _ _ ht => exact absurd rfl (ht i)

/-- The greatest number of turns that a call needs to be over. -/
def Stage.left (retries : UInt32) : Stage δ → ℕ
  | .waiting => 3 * retries.toNat + 3
  | .pausing _ n => 3 * (retries.toNat - n.toNat) + 3
  | .ready _ n => 3 * (retries.toNat - n.toNat) + 2
  | .running _ n _ => 3 * (retries.toNat - n.toNat) + 1
  | .finished _ => 0

theorem Stage.Follows.left_lt {retries : UInt32} {g g' : Stage δ} (h : g.Follows retries g') :
    g'.left retries < g.left retries := by
  cases h with
  | paused c n a time hlt =>
    have hnext := toNat_succ_of_lt hlt
    have hle : n.toNat < retries.toNat := hlt
    simp only [Stage.left]
    omega
  | failed | obtained | begun | ended | rested => simp [Stage.left]

theorem Stage.left_le (retries : UInt32) (g : Stage δ) :
    g.left retries ≤ 3 * (retries.toNat + 1) := by
  cases g <;> simp only [Stage.left] <;> omega

theorem Stage.finished_of_left {retries : UInt32} {g : Stage δ} (h : g.left retries ≤ 0) :
    ∃ result, g = .finished result := by
  cases g with
  | finished result => exact ⟨result, rfl⟩
  | waiting | ready | running | pausing => exact absurd h (Nat.not_succ_le_zero _)

/-- A call whose attempts all end stops only when it is over. -/
theorem Agrees.finished_of_final {k : Call σ δ} {g : Stage δ} {es : List (Event σ δ)}
    (h : Agrees k i g es) (hends : ∀ c x, (k.outcome? c x).isSome = true) (hfinal : g.Final) :
    ∃ result, g = .finished result := by
  cases h with
  | failed f => exact ⟨_, rfl⟩
  | finished c n a es => exact ⟨_, rfl⟩
  | started c n x es =>
    have hfate := hends c x
    rw [Call.outcome?, Option.isSome_map] at hfate
    obtain ⟨o, ho⟩ := Option.isSome_iff_exists.mp hfate
    rw [ho] at hfinal
    exact hfinal.elim
  | waiting | obtained | rested | refused | pausing => exact hfinal.elim

/-- Every turn of such a call brings it nearer to its end. -/
theorem Sound.left_run (schedule : List Turn) (h : Sound calls s)
    (hends : ∀ c x, ((calls i).outcome? c x).isSome = true) :
    ((s.run calls schedule).stages i).left (calls i).endpoint.maxRetries
      ≤ (s.stages i).left (calls i).endpoint.maxRetries - turns i schedule := by
  induction schedule generalizing s with
  | nil => exact le_rfl
  | cons t schedule ih =>
    have hrest := ih (h.step t)
    have hm := step_move calls h.live.stored t
    rw [Scene.run_cons]
    by_cases ht : t = .call i
    · subst ht
      rw [turns_cons_self]
      by_cases hfinal : (s.stages i).Final
      · -- it is over and stays so
        obtain ⟨result, hover⟩ := (h.agree i).finished_of_final hends hfinal
        rw [Scene.step_call calls hover, Call.step, Scene.after_same hover, hover] at hrest ⊢
        exact hrest.trans (by simp [Stage.left])
      · have hlt := (hm.follows hfinal).left_lt
        omega
    · rw [turns_cons_of_ne ht]
      rwa [(hm.other ht).1] at hrest

/-- What is left of a call that still has an attempt to start on an evicted client, by the
number of turns that it needs. -/
inductive Doomed (i : ℕ) (c : Client δ) (n : UInt32) (es : List (Event σ δ)) :
    ℕ → Stage δ → List (Event σ δ) → Prop
  /-- It waits before the attempt. -/
  | pausing : Doomed i c n es 3 (.pausing c n) es
  /-- It is to start it. -/
  | ready : Doomed i c n es 2 (.ready c n) es
  /-- It was refused. -/
  | refused : Doomed i c n es 1
      (.running c n (some (.error (Registry.evicted c.endpoint), ⟨0⟩))) (.refused i c n :: es)
  /-- It is over. -/
  | finished : Doomed i c n es 0
      (.finished (Attempt.finish (.error (Registry.evicted c.endpoint))))
      (.ended i c n (.error (Registry.evicted c.endpoint)) :: .refused i c n :: es)

/-- A turn of such a call brings it nearer to its end. -/
theorem Doomed.step {es : List (Event σ δ)} {left : ℕ} (h : Sound calls s)
    (hevicted : .evicted c ∈ s.record)
    (hd : Doomed i c n es left (s.stages i) (eventsOf i s.record)) :
    Doomed i c n es (left - 1) ((s.step calls (.call i)).stages i)
      (eventsOf i (s.step calls (.call i)).record) := by
  generalize hstage : s.stages i = g at hd
  generalize hevents : eventsOf i s.record = now at hd
  cases hd with
  | pausing =>
    rw [Scene.step_pausing calls hstage, Scene.stages_after_self, Scene.record_after,
      List.nil_append, hevents]
    exact .ready
  | ready =>
    have hclosed : s.registry.isClosed c = true :=
      List.contains_iff_mem.mpr (h.live.evicted_closed c hevicted)
    rw [Scene.step_ready calls hstage, Scene.stages_after_self, Scene.record_after,
      eventsOf_append, hevents, Backend.stepOf, Registry.request, if_pos hclosed, if_pos hclosed,
      eventsOf_self (by simp [Event.isOf]), Call.fate_now]
    exact .refused
  | refused =>
    -- a refusal is no timeout
    have hnext : RetryPolicy.next ⟨(calls i).endpoint.maxRetries⟩ n
        (Attempt.outcome (.error (Registry.evicted c.endpoint))) = .finish false := rfl
    rw [Scene.step_running calls hstage, Call.settle_of_finish hnext,
      Scene.stages_after_self, Scene.record_after, eventsOf_append, hevents,
      eventsOf_self (by simp [Event.isOf])]
    exact .finished
  | finished =>
    rw [Scene.step_call calls hstage, Call.step, Scene.after_same hstage, hstage, hevents]
    exact .finished

theorem Doomed.run {es : List (Event σ δ)} {left : ℕ} (schedule : List Turn)
    (h : Sound calls s) (hevicted : .evicted c ∈ s.record)
    (hd : Doomed i c n es left (s.stages i) (eventsOf i s.record)) :
    Doomed i c n es (left - turns i schedule) ((s.run calls schedule).stages i)
      (eventsOf i (s.run calls schedule).record) := by
  induction schedule generalizing s left with
  | nil => exact hd
  | cons t schedule ih =>
    have hm := step_move calls h.live.stored t
    have hevicted' : .evicted c ∈ (s.step calls t).record := by
      obtain ⟨new, hnew⟩ := hm.record
      rw [hnew]
      exact List.mem_append_right _ hevicted
    by_cases ht : t = .call i
    · subst ht
      have hrest := ih (h.step _) hevicted' (hd.step h hevicted)
      rwa [turns_cons_self, Nat.add_comm, ← Nat.sub_sub]
    · obtain ⟨hstage, hevents⟩ := hm.other ht
      rw [turns_cons_of_ne ht]
      refine ih (h.step t) hevicted' ?_
      rw [hstage, hevents]
      exact hd

/-- What is noted of it in the end, or the earlier part of that. -/
theorem Doomed.events {es now : List (Event σ δ)} {left : ℕ} {g : Stage δ}
    (hd : Doomed i c n es left g now) :
    ∃ new, now = new ++ es ∧
      new <:+ [.ended i c n (.error (Registry.evicted c.endpoint)), .refused i c n] := by
  cases hd with
  | pausing | ready => exact ⟨[], rfl, List.nil_suffix⟩
  | refused => exact ⟨[_], rfl, List.suffix_cons _ _⟩
  | finished => exact ⟨[_, _], rfl, List.suffix_refl _⟩

end

/-! ### What callers can rely on -/

/-- What callers can rely on when clients are evicted while calls are running. -/
structure Orderly (calls : ℕ → Call σ δ) (s : Scene σ δ) : Prop where
  /-- No attempt is handed to a client after the client was evicted. -/
  not_started : ∀ c later earlier, s.record = later ++ .evicted c :: earlier →
    ∀ i d n x, .started i d n x ∈ later → d.id ≠ c.id
  /-- An attempt ends with what the client made of it when it was handed over; only one that
  was refused instead does not. -/
  own_outcome : ∀ i c n a later earlier, s.record = later ++ .ended i c n a :: earlier →
    (∃ x, (eventsOf i earlier).head? = some (.started i c n x) ∧
      (calls i).outcome? c x = some a) ∨
    (eventsOf i earlier).head? = some (.refused i c n) ∧
      a = .error (Registry.evicted c.endpoint)
  /-- An attempt that was started delivers its outcome at the next turn of its call, whatever
  happens in between. -/
  delivers : ∀ i c n x a, (eventsOf i s.record).head? = some (.started i c n x) →
    (calls i).outcome? c x = some a → ∀ schedule, 1 ≤ turns i schedule →
    ∃ es, eventsOf i (s.run calls schedule).record
      = es ++ .ended i c n a :: eventsOf i s.record
  /-- A turn of a call takes it to what comes next, unless it is over or its attempt never
  ends. -/
  advances : ∀ i, ¬ (s.stages i).Final → (s.stages i).Follows (calls i).endpoint.maxRetries
    ((s.step calls (.call i)).stages i)
  /-- A call whose attempts all end is over after three turns for each that it may make. -/
  completes : ∀ i, (∀ c x, ((calls i).outcome? c x).isSome = true) → ∀ schedule,
    3 * ((calls i).endpoint.maxRetries.toNat + 1) ≤ turns i schedule →
    ∃ result, (s.run calls schedule).stages i = .finished result
  /-- A call that is over shows its last attempt, or why it got no client. -/
  result : ∀ i result, s.stages i = .finished result →
    (∃ c n a, (eventsOf i s.record).head? = some (.ended i c n a) ∧ result = a.finish) ∨
    ∃ f, result = .error (.beforeCall f)
  /-- Only an evicted client refuses an attempt. -/
  refused : ∀ i c n later earlier, s.record = later ++ .refused i c n :: earlier →
    .evicted c ∈ earlier
  /-- A call that still has an attempt to start on an evicted client is refused it and notes
  nothing else: it starts nothing and does not wait again. -/
  no_retry : ∀ i c n, s.stages i = .ready c n ∨ s.stages i = .pausing c n →
    .evicted c ∈ s.record → ∀ schedule, ∃ es,
      eventsOf i (s.run calls schedule).record = es ++ eventsOf i s.record ∧
      es <:+ [.ended i c n (.error (Registry.evicted c.endpoint)), .refused i c n]
  /-- It ends so after three turns, with a failure of the client and a result without a
  status. -/
  ends : ∀ i c n, s.stages i = .ready c n ∨ s.stages i = .pausing c n →
    .evicted c ∈ s.record → ∀ schedule, 3 ≤ turns i schedule → ∃ f result,
      (s.run calls schedule).stages i = .finished (.error (.withResult f result)) ∧
      f.kind = .clientInit ∧ result.status = 0
  /-- A call that gets its client after an eviction gets another one. -/
  fresh : ∀ c later earlier, s.record = later ++ .evicted c :: earlier →
    ∀ i d, .obtained i d ∈ later → d.id ≠ c.id

/-- What was noted after an eviction was noted after more than that. -/
theorem split_of_mem {later earlier record : List (Event σ δ)} {e e' : Event σ δ}
    (hrec : record = later ++ e :: earlier) (hmem : e' ∈ later) :
    ∃ later' between, record = later' ++ e' :: (between ++ e :: earlier) := by
  obtain ⟨later', between, rfl⟩ := List.append_of_mem hmem
  exact ⟨later', between, by rw [hrec, List.append_assoc, List.cons_append]⟩

/-- A call that still has an attempt to start on an evicted client. -/
theorem Doomed.of_stage {s : Scene σ δ} {i : ℕ} {c : Client δ} {n : UInt32}
    (h : s.stages i = .ready c n ∨ s.stages i = .pausing c n) :
    ∃ left ≤ 3, Doomed i c n (eventsOf i s.record) left (s.stages i) (eventsOf i s.record) := by
  rcases h with h | h
  · exact ⟨2, by decide, h ▸ .ready⟩
  · exact ⟨3, le_rfl, h ▸ .pausing⟩

/-- **Whatever the schedule, evictions are orderly.** -/
theorem orderly_run (calls : ℕ → Call σ δ) (x : σ) (schedule : List Turn) :
    Orderly calls ((Scene.start x).run calls schedule) := by
  have h := (Sound.start calls x).run schedule
  generalize (Scene.start x).run calls schedule = s at h
  constructor
  case not_started =>
    intro c later earlier hrec i d n x hmem
    obtain ⟨later', between, hrec'⟩ := split_of_mem hrec hmem
    have hproper := h.proper.proper hrec'
    exact (hproper.2 c (List.mem_append_right _ List.mem_cons_self)).symm
  case own_outcome =>
    intro i c n a later earlier hrec
    exact h.proper.proper hrec
  case delivers =>
    intro i c n x a hhead hends schedule hturns
    exact h.delivers schedule hhead hends hturns
  case advances =>
    intro i hgoes
    exact (step_move calls h.live.stored (.call i)).follows hgoes
  case completes =>
    intro i hends schedule hturns
    have hleft := h.left_run schedule hends
    have hmost := (s.stages i).left_le (calls i).endpoint.maxRetries
    rw [Nat.sub_eq_zero_of_le (hmost.trans hturns)] at hleft
    exact Stage.finished_of_left hleft
  case result =>
    intro i result hover
    have hagrees := h.agree.of_stage hover
    generalize eventsOf i s.record = es at hagrees
    cases hagrees with
    | failed f => exact Or.inr ⟨f, rfl⟩
    | finished c n a es => exact Or.inl ⟨c, n, a, rfl, rfl⟩
  case refused =>
    intro i c n later earlier hrec
    exact (h.proper.proper hrec).2
  case no_retry =>
    intro i c n hstage hevicted schedule
    obtain ⟨left, -, hd⟩ := Doomed.of_stage hstage
    exact (hd.run schedule h hevicted).events
  case ends =>
    intro i c n hstage hevicted schedule hturns
    obtain ⟨left, hleft, hd⟩ := Doomed.of_stage hstage
    have hend := hd.run schedule h hevicted
    rw [Nat.sub_eq_zero_of_le (hleft.trans hturns)] at hend
    generalize (s.run calls schedule).stages i = g at hend ⊢
    generalize eventsOf i (s.run calls schedule).record = now at hend
    cases hend
    exact ⟨_, _, rfl, rfl, rfl⟩
  case fresh =>
    intro c later earlier hrec i d hmem
    obtain ⟨later', between, hrec'⟩ := split_of_mem hrec hmem
    have hproper := h.proper.proper hrec'
    exact (hproper c (List.mem_append_right _ List.mem_cons_self)).symm

/-- Calls to a server that is slow to answer. -/
def slowCalls : ℕ → Call Simulation.Script Unit :=
  fun _ => ⟨Simulation.Script.backend, patientEndpoint, .none, .standard⟩

/-- The client is evicted while its first attempt is running.  The attempt comes to what it
would have come to, and the second one is refused. -/
theorem orderly_run_slowCalls :
    let started := (Scene.start slowServer).run slowCalls [.call 0, .call 0]
    let evicted := started.run slowCalls [.evictAll, .call 0]
    ∃ c es, eventsOf 0 evicted.record
        = es ++ .ended 0 c 0 (.cutOff (.ofMillis 500)) :: eventsOf 0 started.record ∧
      .evicted c ∈ evicted.record ∧
      ∃ f result, (evicted.run slowCalls [.call 0, .call 0, .call 0]).stages 0
          = .finished (.error (.withResult f result)) ∧
        f.kind = .clientInit ∧ result.status = 0 := by
  intro started evicted
  let c : Client Unit := ⟨1, .of patientEndpoint .standard, patientEndpoint, ()⟩
  have hstarted : (eventsOf 0 started.record).head? = some (.started 0 c 0 slowServer) := rfl
  have hsilent : (slowCalls 0).outcome? c slowServer = some (.cutOff (.ofMillis 500)) := rfl
  obtain ⟨es, hes⟩ := (orderly_run slowCalls slowServer [.call 0, .call 0]).delivers 0 c 0
    slowServer _ hstarted hsilent [.evictAll, .call 0] (by decide)
  have hpausing : evicted.stages 0 = .pausing c 1 := rfl
  have hevicted : .evicted c ∈ evicted.record :=
    List.mem_cons_of_mem _ (List.mem_cons_of_mem _ List.mem_cons_self)
  have hends := (orderly_run slowCalls slowServer [.call 0, .call 0, .evictAll, .call 0]).ends 0 c 1
    (Or.inr hpausing) hevicted [.call 0, .call 0, .call 0] (by decide)
  exact ⟨c, es, hes, hevicted, hends⟩

end Concurrent

end Switchboard
