import Mathlib.Data.List.Nodup
import Switchboard.Proofs.Dictionary
import Switchboard.Proofs.Registry.Interleaving

/-!
# Interleaved operations keep the registry consistent

However the steps of operations follow one another, a client that is kept is open
and stands under its own fingerprint, each fingerprint has at most one client at a
time, whoever asks for it between two evictions gets that one, and an evicted
client is closed once.

A step of any operation does one of five things to the registry (`Change`).  What
holds of a scene is kept by each of the five, in six groups: how clients stand in
the registry (`Stored`), how many there are (`Balanced`), which were handed out
(`Handles`) and to whom (`Noted`), and which were built and removed (`Accounted`)
and closed (`Retired`).

## Main results

* `Task.step_change` — every step is one of the five changes.
* `Sound.step` — each change keeps what holds of a scene.
* `consistent_run` — **what holds after any schedule.**
-/

namespace Switchboard.Registry

variable {σ δ : Type}

/-! ### What a step can come to -/

/-- The clients that an operation has taken out of the registry and not yet
closed. -/
def Task.left : Task σ δ → List (Client δ)
  | .close left _ => left
  | _ => []

/-- The registry with only the names that pass a test. -/
def keepOnly (keep : String → Bool) (r : Registry δ) : Registry δ :=
  { r with entries := r.entries.filter fun e => keep e.1 }

/-- The clients under the names that do not pass it. -/
def dropped (keep : String → Bool) (r : Registry δ) : List (Client δ) :=
  (r.entries.filter fun e => !keep e.1).map Prod.snd

/-- What the step of an operation with the task `t` can come to. -/
inductive Change (i : ℕ) (r : Registry δ) (t : Task σ δ) : Effect σ δ → Prop
  /-- It leaves the registry alone. -/
  | pass (u : Task σ δ) (x : σ) (ht : t.left = []) (hu : u.left = []) :
      Change i r t ⟨u, r, x, []⟩
  /-- It hands out a client that is there. -/
  | hand (u : Task σ δ) (x : σ) (f : Fingerprint) (c : Client δ) (ht : t.left = [])
      (hu : u.left = []) (hc : r.lookup f = some c) :
      Change i r t ⟨u, r, x, [.handed f c]⟩
  /-- It builds a client that is not there, enters it and hands it out. -/
  | build (u : Task σ δ) (x : σ) (e : Endpoint) (config : Connection) (d : δ)
      (ht : t.left = []) (hu : u.left = []) (hf : r.lookup (.of e config) = none) :
      Change i r t ⟨u, (r.enter e (.of e config) d).2, x,
        [.handed (.of e config) (r.enter e (.of e config) d).1,
          .built config (r.enter e (.of e config) d).1]⟩
  /-- It takes clients out, which are then left to close. -/
  | take (u : Task σ δ) (x : σ) (keep : String → Bool) (ht : t.left = [])
      (hu : u.left = r.dropped keep) :
      Change i r t ⟨u, r.keepOnly keep, x, (r.dropped keep).map (.removed i)⟩
  /-- It closes one of the clients that are left. -/
  | close (u : Task σ δ) (x : σ) (c : Client δ) (ht : t.left = c :: u.left) :
      Change i r t ⟨u, r.close c, x, []⟩

theorem dropped_name {r : Registry δ} (h : r.entries.Ordered) (f : Fingerprint) :
    r.dropped (fun k => !decide (k = f.digits)) = (r.lookup f).toList := by
  have := Dictionary.map_snd_filter_key h f.digits
  simp only [dropped, Bool.not_not]
  exact this

theorem keepOnly_name (r : Registry δ) (f : Fingerprint) :
    r.keepOnly (fun k => !decide (k = f.digits)) = (r.take f).2 := by
  simp [keepOnly, Registry.take, Dictionary.erase]

/-- Taking out the client under one name. -/
theorem Change.take_name {r : Registry δ} (h : r.entries.Ordered) (i : ℕ) (f : Fingerprint)
    {t u : Task σ δ} (x : σ) (ht : t.left = []) (hu : u.left = (r.lookup f).toList) :
    Change i r t ⟨u, (r.take f).2, x, (r.lookup f).toList.map (.removed i)⟩ := by
  have hdropped := dropped_name h f
  rw [← hdropped, ← keepOnly_name]
  exact .take u x _ ht (hu.trans hdropped.symm)

/-- **Every step is one of the five changes.** -/
theorem Task.step_change {r : Registry δ} (h : r.entries.Ordered) (i : ℕ) (x : σ)
    (t : Task σ δ) : Change i r t (t.step i r x) := by
  cases t with
  | start op =>
    cases op with
    | getOrCreate e config create =>
      rw [Task.step]
      cases hlook : r.lookup (.of e config) with
      | some c => exact .hand _ _ _ _ rfl rfl hlook
      | none => exact .pass _ _ rfl rfl
    | get e config =>
      rw [Task.step]
      cases hlook : r.get? e config with
      | some c => exact .hand _ _ _ _ rfl rfl hlook
      | none => exact .pass _ _ rfl rfl
    | contains e config => exact .pass _ _ rfl rfl
    | remove e config =>
      have htake := fun (u : Task σ δ) =>
        Change.take_name h i (.of e config) (t := .start (.remove e config)) (u := u) x rfl
      rw [Task.step, Registry.take]
      cases hlook : r.lookup (.of e config) with
      | some c =>
        rw [hlook] at htake
        exact htake (.close [c] (.removed true)) rfl
      | none =>
        rw [hlook] at htake
        exact htake (.done (.removed false)) rfl
    | clear =>
      have := Change.take (i := i) (r := r) (t := .start .clear)
        (.close r.drain.1 (.cleared r.drain.1.length)) x (fun _ => false) rfl
        (by simp [left, dropped, drain])
      simpa [Task.step, dropped, keepOnly, drain] using this
  | build e config create =>
    rw [Task.step]
    cases hlook : r.lookup (.of e config) with
    | some c =>
      -- another operation has built it since the first look
      simp only [enterMissing, hlook]
      exact .hand _ _ _ _ rfl rfl hlook
    | none =>
      simp only [enterMissing, hlook]
      rcases create x with ⟨f | d, x'⟩
      · exact .pass _ _ rfl rfl
      · exact .build _ _ _ _ _ rfl rfl hlook
  | close left a =>
    cases left with
    | nil => exact .pass _ _ rfl rfl
    | cons c left => exact .close _ _ _ rfl
  | done a => exact .pass _ _ rfl rfl

/-! ### How clients stand in the registry -/

/-- The entries are in order, each under its own client's fingerprint. -/
structure Stored (r : Registry δ) : Prop where
  /-- The entries are in order. -/
  ordered : r.entries.Ordered
  /-- A client stands under its fingerprint. -/
  own : ∀ k c, (k, c) ∈ r.entries → k = c.fingerprint.digits

theorem Stored.empty : Stored (empty : Registry δ) :=
  ⟨Dictionary.ordered_nil, by simp [Registry.empty]⟩

theorem Stored.keepOnly {r : Registry δ} (h : Stored r) (keep : String → Bool) :
    Stored (r.keepOnly keep) :=
  ⟨h.ordered.filter _, fun k c hm => h.own k c (List.mem_of_mem_filter hm)⟩

theorem Stored.enter {r : Registry δ} (h : Stored r) (e : Endpoint) (f : Fingerprint) (d : δ) :
    Stored (r.enter e f d).2 := by
  refine ⟨h.ordered.insert _ _, fun k c hm => ?_⟩
  rcases Dictionary.mem_insert hm with heq | hm
  · obtain ⟨rfl, rfl⟩ := Prod.mk.inj heq
    rfl
  · exact h.own k c hm

@[simp] theorem entries_close (c : Client δ) (r : Registry δ) :
    (r.close c).entries = r.entries := by
  rw [Registry.close]; split <;> rfl

@[simp] theorem built_close (c : Client δ) (r : Registry δ) : (r.close c).built = r.built := by
  rw [Registry.close]; split <;> rfl

@[simp] theorem entries_foldl_close (cs : List (Client δ)) (r : Registry δ) :
    (cs.foldl (fun r c => r.close c) r).entries = r.entries := by
  induction cs generalizing r with
  | nil => rfl
  | cons c cs ih => rw [List.foldl_cons, ih, entries_close]

@[simp] theorem built_foldl_close (cs : List (Client δ)) (r : Registry δ) :
    (cs.foldl (fun r c => r.close c) r).built = r.built := by
  induction cs generalizing r with
  | nil => rfl
  | cons c cs ih => rw [List.foldl_cons, ih, built_close]

@[simp] theorem lookup_close (f : Fingerprint) (c : Client δ) (r : Registry δ) :
    (r.close c).lookup f = r.lookup f := by
  rw [lookup, entries_close, lookup]

theorem Stored.change {i : ℕ} {r : Registry δ} {t : Task σ δ} {e : Effect σ δ}
    (hc : Change i r t e) (h : Stored r) : Stored e.registry := by
  cases hc with
  | pass => exact h
  | hand => exact h
  | build _ _ e config d _ _ _ => exact h.enter e _ d
  | take _ _ keep => exact h.keepOnly keep
  | close _ _ c => exact ⟨by simpa using h.ordered, by simpa using h.own⟩

/-! ### How many clients there are -/

/-- Whether an event is that a client for `f` was built. -/
def Event.builds (f : Fingerprint) : Event δ → Bool
  | .built _ c => c.fingerprint = f
  | _ => false

/-- Whether an event is that a client for `f` was taken out. -/
def Event.removes (f : Fingerprint) : Event δ → Bool
  | .removed _ c => c.fingerprint = f
  | _ => false

/-- As many clients for a fingerprint were built as were taken out, and one more
if the registry holds one. -/
def Balanced (record : List (Event δ)) (r : Registry δ) : Prop :=
  ∀ f, record.countP (·.builds f)
    = record.countP (·.removes f) + if (r.lookup f).isSome then 1 else 0

theorem digits_inj {f g : Fingerprint} : f.digits = g.digits ↔ f = g :=
  ⟨fun h => by cases f; cases g; exact congrArg _ h, congrArg _⟩

/-- The clients for `f` among those that stand in the registry. -/
theorem Stored.countP_fingerprint {r : Registry δ} (h : Stored r) (f : Fingerprint) :
    (r.entries.map Prod.snd).countP (fun c => c.fingerprint = f)
      = if (r.lookup f).isSome then 1 else 0 := by
  rw [lookup, ← Dictionary.countP_key h.ordered f.digits, List.countP_map]
  refine List.countP_congr fun e he => ?_
  simp only [Function.comp_apply, decide_eq_true_eq, h.own e.1 e.2 he, digits_inj]

/-- A client is either kept or dropped. -/
theorem Stored.countP_dropped {r : Registry δ} (h : Stored r) (keep : String → Bool)
    (f : Fingerprint) :
    (r.dropped keep).countP (fun c => c.fingerprint = f)
        + (if ((r.keepOnly keep).lookup f).isSome then 1 else 0)
      = if (r.lookup f).isSome then 1 else 0 := by
  have hdropped := (h.keepOnly fun k => !keep k).countP_fingerprint f
  have hgone := Dictionary.get?_filter (fun k => !keep k) f.digits r.entries
  have hkept := Dictionary.get?_filter keep f.digits r.entries
  rw [dropped]
  rw [Registry.keepOnly] at hdropped
  rw [hdropped, lookup, lookup, lookup, Registry.keepOnly, hgone, hkept]
  cases keep f.digits <;> simp

@[simp] theorem fingerprint_enter (e : Endpoint) (f : Fingerprint) (d : δ) (r : Registry δ) :
    (r.enter e f d).1.fingerprint = f := rfl

theorem lookup_enter_of_ne {e : Endpoint} {f g : Fingerprint} (d : δ) (r : Registry δ)
    (h : f ≠ g) : (r.enter e g d).2.lookup f = r.lookup f := by
  rw [lookup, enter, Dictionary.get?_insert, if_neg (fun hd => h (digits_inj.mp hd)), lookup]

theorem countP_map_removed (i : ℕ) (f : Fingerprint) (cs : List (Client δ)) :
    (cs.map (Event.removed i)).countP (·.removes f) = cs.countP (fun c => c.fingerprint = f) := by
  rw [List.countP_map]; rfl

theorem countP_builds_removed (i : ℕ) (f : Fingerprint) (cs : List (Client δ)) :
    (cs.map (Event.removed i)).countP (·.builds f) = 0 := by
  simp [Event.builds]

theorem Balanced.change {i : ℕ} {r : Registry δ} {t : Task σ δ} {e : Effect σ δ}
    {record : List (Event δ)} (hc : Change i r t e) (hs : Stored r) (h : Balanced record r) :
    Balanced (e.events ++ record) e.registry := by
  intro f
  have hf := h f
  cases hc with
  | pass => exact hf
  | hand => simpa [Event.builds, Event.removes] using hf
  | build _ _ e config d _ _ hnone =>
    by_cases hfg : f = .of e config
    · -- one more is built, and the registry, which held none, holds it
      subst hfg
      rw [hnone] at hf
      simpa [Event.builds, Event.removes] using hf
    · simpa [Event.builds, Event.removes, Ne.symm hfg, lookup_enter_of_ne d r hfg] using hf
  | take _ _ keep =>
    have hdropped := hs.countP_dropped keep f
    simp only [List.countP_append, countP_builds_removed, countP_map_removed, hf]
    omega
  | close _ _ c => simpa using hf

/-! ### Who was handed out -/

/-- What was handed out for a fingerprint since its last removal is what the
registry holds; so all of it is one client. -/
structure Handles (record : List (Event δ)) (r : Registry δ) : Prop where
  /-- A client that was handed out is kept until it is removed. -/
  kept : ∀ f c later earlier, record = later ++ .handed f c :: earlier →
    (∀ e ∈ later, e.removes f = false) → r.lookup f = some c
  /-- Two clients that were handed out without a removal between are the same. -/
  same : ∀ f c c' later between earlier,
    record = later ++ .handed f c' :: (between ++ .handed f c :: earlier) →
    (∀ e ∈ between, e.removes f = false) → c' = c

/-- Something that was handed out was noted before events that hand out nothing. -/
theorem split_of_no_handed {f : Fingerprint} {c : Client δ} {record earlier : List (Event δ)} :
    ∀ {es later : List (Event δ)}, (∀ g d, .handed g d ∉ es) →
      es ++ record = later ++ .handed f c :: earlier →
      ∃ later', later = es ++ later' ∧ record = later' ++ .handed f c :: earlier := by
  intro es
  induction es with
  | nil => intro later _ h; exact ⟨later, rfl, h⟩
  | cons e es ih =>
    intro later hno h
    rcases later with _ | ⟨e', later⟩
    · rw [List.nil_append, List.cons_append, List.cons.injEq] at h
      exact absurd (h.1 ▸ List.mem_cons_self ..) (hno f c)
    · rw [List.cons_append, List.cons_append, List.cons.injEq] at h
      obtain ⟨rfl, h⟩ := h
      obtain ⟨later', rfl, hrec⟩ := ih (fun g d hm => hno g d (List.mem_cons_of_mem _ hm)) h
      exact ⟨later', rfl, hrec⟩

/-- Handing out what the registry holds. -/
theorem Handles.hand {record : List (Event δ)} {r : Registry δ} (h : Handles record r)
    {g : Fingerprint} {d : Client δ} (hlook : r.lookup g = some d) :
    Handles (.handed g d :: record) r := by
  constructor
  · intro f c later earlier hrec hno
    rcases later with _ | ⟨e, later⟩
    · rw [List.nil_append, List.cons.injEq, Event.handed.injEq] at hrec
      obtain ⟨⟨rfl, rfl⟩, -⟩ := hrec
      exact hlook
    · rw [List.cons_append, List.cons.injEq] at hrec
      exact h.kept f c later earlier hrec.2 fun e he => hno e (List.mem_cons_of_mem _ he)
  · intro f c c' later between earlier hrec hno
    rcases later with _ | ⟨e, later⟩
    · -- the later of the two is the one handed out now, and the earlier is still kept
      rw [List.nil_append, List.cons.injEq, Event.handed.injEq] at hrec
      obtain ⟨⟨rfl, rfl⟩, hrec⟩ := hrec
      exact Option.some.inj (hlook.symm.trans (h.kept g c between earlier hrec hno))
    · rw [List.cons_append, List.cons.injEq] at hrec
      exact h.same f c c' later between earlier hrec.2 hno

/-- Noting something else, as long as what is not removed stays. -/
theorem Handles.note {record es : List (Event δ)} {r r' : Registry δ} (h : Handles record r)
    (hes : ∀ g d, .handed g d ∉ es)
    (hstay : ∀ f c, r.lookup f = some c → (∀ e ∈ es, e.removes f = false) →
      r'.lookup f = some c) : Handles (es ++ record) r' := by
  constructor
  · intro f c later earlier hrec hno
    obtain ⟨later', rfl, hrec'⟩ := split_of_no_handed hes hrec
    have hold := h.kept f c later' earlier hrec' fun e he => hno e (List.mem_append_right _ he)
    exact hstay f c hold fun e he => hno e (List.mem_append_left _ he)
  · intro f c c' later between earlier hrec hno
    obtain ⟨later', rfl, hrec'⟩ := split_of_no_handed hes hrec
    exact h.same f c c' later' between earlier hrec' hno

theorem Handles.change {i : ℕ} {r : Registry δ} {t : Task σ δ} {e : Effect σ δ}
    {record : List (Event δ)} (hc : Change i r t e) (hs : Stored r) (h : Handles record r) :
    Handles (e.events ++ record) e.registry := by
  cases hc with
  | pass => exact h
  | hand _ _ _ _ _ _ hlook => exact h.hand hlook
  | build _ _ e config d _ _ hnone =>
    have hbuilt : Handles ([.built config (r.enter e (.of e config) d).1] ++ record)
        (r.enter e (.of e config) d).2 := by
      refine h.note (by simp) fun f c hlook _ => ?_
      have hne : f ≠ .of e config := fun hf => by simp [hf, hnone] at hlook
      rw [lookup_enter_of_ne d r hne, hlook]
    exact hbuilt.hand (lookup_enter e _ d r)
  | take _ _ keep =>
    refine h.note (by simp) fun f c hlook hno => ?_
    -- a client that was taken out would have been noted as removed
    have hzero : (r.dropped keep).countP (fun c => c.fingerprint = f) = 0 := by
      rw [← countP_map_removed i, List.countP_eq_zero]
      intro e he
      rw [hno e he]
      exact Bool.false_ne_true
    have hkept := hs.countP_dropped keep f
    rw [hzero, hlook] at hkept
    have hsome := Dictionary.get?_filter keep f.digits r.entries
    rw [lookup] at hlook
    rw [lookup, keepOnly] at hkept ⊢
    rw [hsome, hlook] at hkept ⊢
    cases hk : keep f.digits
    · simp [hk] at hkept
    · rfl
  | close _ _ c => exact h.note (by simp) fun f c hlook _ => by simpa using hlook

/-! ### Who was given a client -/

/-- The client that an answer gives. -/
def Answer.client? : Answer δ → Option (Client δ)
  | .client (.ok c) => some c
  | .found c => c
  | _ => none

/-- The client that an operation has been given. -/
def Task.given? : Task σ δ → Option (Client δ)
  | .done a => a.client?
  | .close _ a => a.client?
  | _ => none

/-- The fingerprint of the client that is asked for. -/
def Operation.sought? : Operation σ δ → Option Fingerprint
  | .getOrCreate e config _ => some (.of e config)
  | .get e config => some (.of e config)
  | _ => none

/-- What an operation has come to: a client that it has been given has the fingerprint that
was asked for. -/
def Task.Serves (op : Operation σ δ) : Task σ δ → Prop
  | .start op' => op' = op
  | .build e config create => op = .getOrCreate e config create
  | .close _ a => ∀ c, a.client? = some c → op.sought? = some c.fingerprint
  | .done a => ∀ c, a.client? = some c → op.sought? = some c.fingerprint

theorem Task.Serves.sought {op : Operation σ δ} {t : Task σ δ} (h : t.Serves op) {c : Client δ}
    (hgiven : t.given? = some c) : op.sought? = some c.fingerprint := by
  cases t with
  | start op' => cases hgiven
  | build e config create => cases hgiven
  | close left a => exact h c hgiven
  | done a => exact h c hgiven

/-- A step that gives a client hands it out. -/
theorem Task.given?_step {i : ℕ} {r : Registry δ} {x : σ} {t : Task σ δ} {c : Client δ}
    (h : (t.step i r x).task.given? = some c) :
    t.given? = some c ∨ ∃ f, .handed f c ∈ (t.step i r x).events := by
  cases t with
  | start op =>
    right
    cases op with
    | getOrCreate e config create =>
      rw [Task.step] at h ⊢
      cases hlook : r.lookup (.of e config) with
      | some d =>
        rw [hlook] at h
        obtain rfl : d = c := Option.some.inj h
        exact ⟨_, List.mem_singleton_self _⟩
      | none =>
        rw [hlook] at h
        cases h
    | get e config =>
      have hfound : r.get? e config = some c := h
      refine ⟨.of e config, ?_⟩
      rw [Task.step, hfound]
      exact List.mem_singleton_self _
    | contains e config => cases h
    | remove e config =>
      rw [Task.step, take] at h
      cases hlook : r.lookup (.of e config) with
      | some d => rw [hlook] at h; cases h
      | none => rw [hlook] at h; cases h
    | clear => cases h
  | build e config create =>
    right
    rw [Task.step] at h ⊢
    rcases hbuilt : r.enterMissing create e (.of e config) x with ⟨f | d, r', x'⟩
    · rw [hbuilt] at h
      cases h
    · rw [hbuilt] at h
      obtain rfl : d = c := Option.some.inj h
      exact ⟨_, List.mem_cons_self⟩
  | close left a =>
    left
    cases left with
    | nil => exact h
    | cons d left => exact h
  | done a => exact Or.inl h

/-- What was given is on record, under the fingerprint of what was given. -/
structure Noted (ops : ℕ → Operation σ δ) (record : List (Event δ)) (tasks : ℕ → Task σ δ) :
    Prop where
  /-- Who has been given a client was handed it out. -/
  given : ∀ i c, (tasks i).given? = some c → ∃ f, .handed f c ∈ record
  /-- A client is handed out under its own fingerprint. -/
  own : ∀ f c, .handed f c ∈ record → c.fingerprint = f
  /-- Every operation is on its way to what it asked for. -/
  serves : ∀ i, (tasks i).Serves (ops i)

theorem Noted.given_update {i : ℕ} {ops : ℕ → Operation σ δ} {record : List (Event δ)}
    {tasks : ℕ → Task σ δ} (r : Registry δ) (x : σ) (h : Noted ops record tasks) (j : ℕ)
    (c : Client δ)
    (hgiven : (Function.update tasks i ((tasks i).step i r x).task j).given? = some c) :
    ∃ f, .handed f c ∈ ((tasks i).step i r x).events ++ record := by
  rw [Function.update_apply] at hgiven
  split at hgiven
  · -- the operation that has taken the step
    rcases Task.given?_step hgiven with hbefore | ⟨f, hf⟩
    · obtain ⟨f, hf⟩ := h.given i c hbefore
      exact ⟨f, List.mem_append_right _ hf⟩
    · exact ⟨f, List.mem_append_left _ hf⟩
  · obtain ⟨f, hf⟩ := h.given j c hgiven
    exact ⟨f, List.mem_append_right _ hf⟩

/-- A client that is kept stands under its own fingerprint. -/
theorem Stored.fingerprint_of_lookup {r : Registry δ} (h : Stored r) {f : Fingerprint}
    {c : Client δ} (hlook : r.lookup f = some c) : c.fingerprint = f :=
  (digits_inj.mp (h.own _ _ (Dictionary.mem_of_get? hlook))).symm

/-- What a step hands out, it hands out under its own fingerprint. -/
theorem Change.fingerprint_of_handed {i : ℕ} {r : Registry δ} {t : Task σ δ} {e : Effect σ δ}
    (hc : Change i r t e) (hs : Stored r) {f : Fingerprint} {c : Client δ}
    (h : .handed f c ∈ e.events) : c.fingerprint = f := by
  cases hc with
  | pass => cases h
  | hand _ _ g d _ _ hlook =>
    obtain ⟨rfl, rfl⟩ := Event.handed.inj (List.mem_singleton.mp h)
    exact hs.fingerprint_of_lookup hlook
  | build _ _ e config d _ _ _ =>
    rcases List.mem_cons.mp h with h | h
    · obtain ⟨rfl, rfl⟩ := Event.handed.inj h
      rfl
    · cases List.mem_singleton.mp h
  | take _ _ keep =>
    obtain ⟨d, -, hd⟩ := List.mem_map.mp h
    cases hd
  | close => cases h

/-- What is kept after a client was looked for again stands under its fingerprint. -/
theorem fingerprint_of_enterMissing {create : σ → Except Failure δ × σ} {e : Endpoint}
    {f : Fingerprint} {r r' : Registry δ} {x x' : σ} {c : Client δ} (hs : Stored r)
    (h : r.enterMissing create e f x = (.ok c, r', x')) : c.fingerprint = f := by
  rw [enterMissing] at h
  cases hlook : r.lookup f with
  | some d =>
    rw [hlook] at h
    cases h
    exact hs.fingerprint_of_lookup hlook
  | none =>
    rw [hlook] at h
    rcases hcreate : create x with ⟨x | d, s⟩
    · rw [hcreate] at h
      cases h
    · rw [hcreate] at h
      cases h
      rfl

theorem Task.Serves.step {op : Operation σ δ} {t : Task σ δ} {r : Registry δ} (hs : Stored r)
    (i : ℕ) (x : σ) (h : t.Serves op) : (t.step i r x).task.Serves op := by
  cases t with
  | start op' =>
    subst h
    cases op' with
    | getOrCreate e config create =>
      rw [Task.step]
      cases hlook : r.lookup (.of e config) with
      | some c =>
        rintro _ ⟨⟩
        rw [Operation.sought?, hs.fingerprint_of_lookup hlook]
      | none => exact rfl
    | get e config =>
      intro c hc
      have hlook : r.lookup (.of e config) = some c := hc
      rw [Operation.sought?, hs.fingerprint_of_lookup hlook]
    | contains e config => rintro _ ⟨⟩
    | remove e config =>
      rw [Task.step, take]
      cases r.lookup (.of e config) with
      | some c => rintro _ ⟨⟩
      | none => rintro _ ⟨⟩
    | clear => rintro _ ⟨⟩
  | build e config create =>
    rw [Task.step]
    rcases hbuilt : r.enterMissing create e (.of e config) x with ⟨f | c, r', x'⟩
    · rintro _ ⟨⟩
    · rintro _ ⟨⟩
      rw [h, Operation.sought?, fingerprint_of_enterMissing hs hbuilt]
  | close left a =>
    cases left with
    | nil => exact h
    | cons d left => exact h
  | done a => exact h

theorem Noted.step {i : ℕ} {ops : ℕ → Operation σ δ} {r : Registry δ} {record : List (Event δ)}
    {tasks : ℕ → Task σ δ} (hs : Stored r) (x : σ) (h : Noted ops record tasks) :
    Noted ops (((tasks i).step i r x).events ++ record)
      (Function.update tasks i ((tasks i).step i r x).task) := by
  refine ⟨h.given_update r x, fun f c hm => ?_, fun j => ?_⟩
  · rcases List.mem_append.mp hm with hm | hm
    · exact (Task.step_change hs.ordered i x (tasks i)).fingerprint_of_handed hs hm
    · exact h.own f c hm
  · rw [Function.update_apply]
    split
    · next hj =>
      subst hj
      exact (h.serves j).step hs j x
    · exact h.serves j

/-! ### Which clients were built and removed -/

/-- The client that an event says was built. -/
def Event.built? : Event δ → Option (Client δ)
  | .built _ c => some c
  | _ => none

/-- The clients that were built, the latest first. -/
def clients (record : List (Event δ)) : List (Client δ) := record.filterMap Event.built?

@[simp] theorem clients_handed (f : Fingerprint) (c : Client δ) (record : List (Event δ)) :
    clients (.handed f c :: record) = clients record := rfl

@[simp] theorem clients_built (config : Connection) (c : Client δ) (record : List (Event δ)) :
    clients (.built config c :: record) = c :: clients record := rfl

@[simp] theorem clients_removed (i : ℕ) (cs : List (Client δ)) (record : List (Event δ)) :
    clients (cs.map (.removed i) ++ record) = clients record := by
  induction cs with
  | nil => rfl
  | cons c cs ih => exact ih

/-- Every client in the registry was built, no two have one number, and what was
removed does not come back. -/
structure Accounted (record : List (Event δ)) (r : Registry δ) : Prop where
  /-- What stands in the registry was built. -/
  entered : ∀ k c, (k, c) ∈ r.entries → c ∈ clients record
  /-- The numbers that have been used. -/
  numbered : ∀ c ∈ clients record, c.id ≤ r.built
  /-- No number is used twice. -/
  distinct : ((clients record).map Client.id).Nodup
  /-- All that were built are noted. -/
  counted : (clients record).length = r.built
  /-- What was removed was built, and is not in the registry. -/
  gone : ∀ i c, .removed i c ∈ record → c ∈ clients record ∧ ∀ k, (k, c) ∉ r.entries

theorem Accounted.change {i : ℕ} {r : Registry δ} {t : Task σ δ} {e : Effect σ δ}
    {record : List (Event δ)} (hc : Change i r t e) (hs : Stored r) (h : Accounted record r) :
    Accounted (e.events ++ record) e.registry := by
  cases hc with
  | pass => exact h
  | hand => exact ⟨h.entered, h.numbered, h.distinct, h.counted, by simpa using h.gone⟩
  | build _ _ e config d _ _ _ =>
    have hfresh : (r.enter e (.of e config) d).1 ∉ clients record := fun hm => by
      have := h.numbered _ hm
      simp [enter] at this
    constructor
    · intro k c hm
      rcases Dictionary.mem_insert hm with heq | hm
      · obtain ⟨-, rfl⟩ := Prod.mk.inj heq
        exact List.mem_cons_self ..
      · exact List.mem_cons_of_mem _ (h.entered k c hm)
    · intro c hm
      rcases List.mem_cons.mp hm with rfl | hm
      · exact le_rfl
      · exact Nat.le_succ_of_le (h.numbered c hm)
    · refine List.nodup_cons.mpr ⟨fun hm => ?_, h.distinct⟩
      obtain ⟨c, hc, hid⟩ := List.mem_map.mp hm
      have := h.numbered c hc
      simp [enter] at hid
      omega
    · exact congrArg Nat.succ h.counted
    · intro i c hm
      have hm : Event.removed i c ∈ record := by simpa using hm
      refine ⟨List.mem_cons_of_mem _ (h.gone i c hm).1, fun k hk => ?_⟩
      rcases Dictionary.mem_insert hk with heq | hk
      · obtain ⟨-, rfl⟩ := Prod.mk.inj heq
        exact hfresh (h.gone i _ hm).1
      · exact (h.gone i c hm).2 k hk
  | take _ _ keep =>
    have hsub : ∀ k c, (k, c) ∈ (r.keepOnly keep).entries → (k, c) ∈ r.entries :=
      fun k c hm => List.mem_of_mem_filter hm
    constructor
    · intro k c hm
      simpa using h.entered k c (hsub k c hm)
    · intro c hm
      rw [clients_removed] at hm
      exact h.numbered c hm
    · simpa using h.distinct
    · rw [clients_removed]
      exact h.counted
    · intro j c hm
      rw [clients_removed]
      rcases List.mem_append.mp hm with hm | hm
      · -- the client stood under its fingerprint, which is not kept
        obtain ⟨c', hc', heq⟩ := List.mem_map.mp hm
        obtain ⟨-, rfl⟩ := Event.removed.inj heq
        obtain ⟨⟨k, c''⟩, he, rfl⟩ := List.mem_map.mp hc'
        obtain ⟨he, hk⟩ := List.mem_filter.mp he
        refine ⟨h.entered k _ he, fun k' hk' => ?_⟩
        obtain ⟨hk', hkeep⟩ := List.mem_filter.mp hk'
        rw [hs.own k _ he] at hk
        rw [hs.own k' _ hk'] at hkeep
        simp [hkeep] at hk
      · exact ⟨(h.gone j c hm).1, fun k hk => (h.gone j c hm).2 k (hsub k c hk)⟩
  | close _ _ c =>
    exact ⟨by simpa using h.entered, by simpa using h.numbered, h.distinct,
      by simpa using h.counted, by simpa using h.gone⟩

/-! ### Which clients were closed -/

/-- A client that was removed is closed once, by the operation that took it out,
and no other client is closed. -/
structure Retired (record : List (Event δ)) (r : Registry δ) (tasks : ℕ → Task σ δ) :
    Prop where
  /-- What an operation has left to close, it has taken out. -/
  left_removed : ∀ i, ∀ c ∈ (tasks i).left, .removed i c ∈ record
  /-- What is closed was removed. -/
  closed_removed : ∀ n ∈ r.closed, ∃ i c, .removed i c ∈ record ∧ c.id = n
  /-- What was removed is closed or left to close. -/
  removed_closed : ∀ i c, .removed i c ∈ record → c.id ∈ r.closed ∨ c ∈ (tasks i).left
  /-- Nothing is closed twice. -/
  once : r.closed.Nodup

theorem mem_closed_close {n : ℕ} {c : Client δ} {r : Registry δ} :
    n ∈ (r.close c).closed ↔ n = c.id ∨ n ∈ r.closed := by
  rw [close, isClosed]
  split
  · next h =>
    rw [List.contains_iff_mem] at h
    exact ⟨Or.inr, fun hn => hn.elim (fun hn => hn ▸ h) id⟩
  · exact List.mem_cons

theorem nodup_closed_close {c : Client δ} {r : Registry δ} (h : r.closed.Nodup) :
    (r.close c).closed.Nodup := by
  rw [close, isClosed]
  split
  · exact h
  · next hc => exact List.nodup_cons.mpr ⟨fun hm => hc (List.contains_iff_mem.mpr hm), h⟩

theorem left_update (tasks : ℕ → Task σ δ) (i j : ℕ) (u : Task σ δ) :
    (Function.update tasks i u j).left = if j = i then u.left else (tasks j).left := by
  rw [Function.update_apply]
  split <;> rfl

/-- A step that neither takes out nor closes. -/
theorem Retired.idle {record es : List (Event δ)} {r r' : Registry δ} {tasks : ℕ → Task σ δ}
    (h : Retired record r tasks) {i : ℕ} {u : Task σ δ} (hes : ∀ j c, .removed j c ∉ es)
    (hclosed : r'.closed = r.closed) (ht : (tasks i).left = []) (hu : u.left = []) :
    Retired (es ++ record) r' (Function.update tasks i u) := by
  have hleft : ∀ j, (Function.update tasks i u j).left = (tasks j).left := by
    intro j
    rw [left_update]
    split
    · next hj => rw [hj, ht, hu]
    · rfl
  have hmem : ∀ j c, .removed j c ∈ es ++ record ↔ .removed j c ∈ record := by
    simp [List.mem_append, hes]
  constructor
  · intro j c hc
    rw [hleft] at hc
    exact (hmem j c).mpr (h.left_removed j c hc)
  · intro n hn
    rw [hclosed] at hn
    obtain ⟨j, c, hm, hid⟩ := h.closed_removed n hn
    exact ⟨j, c, (hmem j c).mpr hm, hid⟩
  · intro j c hm
    rw [hclosed, hleft]
    exact h.removed_closed j c ((hmem j c).mp hm)
  · rw [hclosed]
    exact h.once

theorem Retired.change {i : ℕ} {r : Registry δ} {e : Effect σ δ} {record : List (Event δ)}
    {tasks : ℕ → Task σ δ} (hc : Change i r (tasks i) e) (h : Retired record r tasks) :
    Retired (e.events ++ record) e.registry (Function.update tasks i e.task) := by
  cases hc with
  | pass _ _ ht hu => exact h.idle (by simp) rfl ht hu
  | hand _ _ _ _ ht hu _ => exact h.idle (by simp) rfl ht hu
  | build _ _ _ _ _ ht hu _ => exact h.idle (by simp) rfl ht hu
  | take u _ keep ht hu =>
    -- what is taken out is what the operation has left to close
    constructor
    · intro j c hc
      rw [left_update] at hc
      split at hc
      · next hj =>
        subst hj
        rw [hu] at hc
        exact List.mem_append_left _ (List.mem_map_of_mem hc)
      · exact List.mem_append_right _ (h.left_removed j c hc)
    · intro n hn
      obtain ⟨j, c, hm, hid⟩ := h.closed_removed n hn
      exact ⟨j, c, List.mem_append_right _ hm, hid⟩
    · intro j c hm
      rw [left_update]
      rcases List.mem_append.mp hm with hm | hm
      · obtain ⟨c', hc', heq⟩ := List.mem_map.mp hm
        obtain ⟨rfl, rfl⟩ := Event.removed.inj heq
        exact Or.inr (by rw [if_pos rfl, hu]; exact hc')
      · refine (h.removed_closed j c hm).imp_right fun hc => ?_
        split
        · next hj => rw [hj, ht] at hc; exact absurd hc List.not_mem_nil
        · exact hc
    · exact h.once
  | close u _ c₀ ht =>
    -- the client goes from what is left to what is closed
    constructor
    · intro j c hc
      rw [left_update] at hc
      split at hc
      · next hj =>
        subst hj
        exact h.left_removed j c (ht ▸ List.mem_cons_of_mem _ hc)
      · exact h.left_removed j c hc
    · intro n hn
      rcases mem_closed_close.mp hn with rfl | hn
      · exact ⟨i, c₀, h.left_removed i c₀ (ht ▸ List.mem_cons_self ..), rfl⟩
      · exact h.closed_removed n hn
    · intro j c hm
      rw [left_update]
      rcases h.removed_closed j c hm with hc | hc
      · exact Or.inl (mem_closed_close.mpr (Or.inr hc))
      · split
        · next hj =>
          rw [hj, ht] at hc
          rcases List.mem_cons.mp hc with rfl | hc
          · exact Or.inl (mem_closed_close.mpr (Or.inl rfl))
          · exact Or.inr hc
        · exact Or.inr hc
    · exact nodup_closed_close h.once

/-! ### Runs -/

/-- What holds of a scene. -/
structure Sound (ops : ℕ → Operation σ δ) (s : Scene σ δ) : Prop where
  /-- How clients stand in the registry. -/
  stored : Stored s.registry
  /-- How many there are. -/
  balanced : Balanced s.record s.registry
  /-- Who was handed out. -/
  handles : Handles s.record s.registry
  /-- Who was given what. -/
  noted : Noted ops s.record s.tasks
  /-- Which were built and removed. -/
  accounted : Accounted s.record s.registry
  /-- Which were closed. -/
  retired : Retired s.record s.registry s.tasks

theorem Sound.start (ops : ℕ → Operation σ δ) (x : σ) : Sound ops (Scene.start ops x) where
  stored := .empty
  balanced := fun f => rfl
  handles := ⟨by simp [Scene.start], by simp [Scene.start]⟩
  noted := ⟨by simp [Scene.start, Task.given?], by simp [Scene.start], fun _ => rfl⟩
  accounted := ⟨by simp [Scene.start, empty], by simp [Scene.start, clients],
    List.nodup_nil, rfl, by simp [Scene.start]⟩
  retired := ⟨by simp [Scene.start, Task.left], by simp [Scene.start, empty],
    by simp [Scene.start], List.nodup_nil⟩

/-- **A step keeps what holds of a scene.** -/
theorem Sound.step {ops : ℕ → Operation σ δ} {s : Scene σ δ} (h : Sound ops s) (i : ℕ) :
    Sound ops (s.step i) := by
  have hc := Task.step_change h.stored.ordered i s.surroundings (s.tasks i)
  exact ⟨h.stored.change hc, h.balanced.change hc h.stored, h.handles.change hc h.stored,
    h.noted.step h.stored s.surroundings, h.accounted.change hc h.stored, h.retired.change hc⟩

theorem Sound.run {ops : ℕ → Operation σ δ} {s : Scene σ δ} (schedule : List ℕ)
    (h : Sound ops s) : Sound ops (s.run schedule) := by
  induction schedule generalizing s with
  | nil => exact h
  | cons i schedule ih => exact ih (h.step i)

/-! ### What a caller can rely on -/

/-- How often the driver of a client has been closed. -/
def closes (c : Client δ) (r : Registry δ) : ℕ := r.closed.count c.id

/-- Of two clients that were built, only one can have a given number. -/
theorem Accounted.eq_of_id {record : List (Event δ)} {r : Registry δ} (h : Accounted record r)
    {c c' : Client δ} (hc : c ∈ clients record) (hc' : c' ∈ clients record)
    (hid : c.id = c'.id) : c = c' :=
  List.inj_on_of_nodup_map h.distinct hc hc' hid

/-- What is kept has not been closed. -/
theorem Sound.notMem_closed {ops : ℕ → Operation σ δ} {s : Scene σ δ} (h : Sound ops s)
    {k : String} {c : Client δ} (hm : (k, c) ∈ s.registry.entries) : c.id ∉ s.registry.closed := by
  intro hn
  obtain ⟨i, c', hremoved, hid⟩ := h.retired.closed_removed _ hn
  obtain ⟨hbuilt, hgone⟩ := h.accounted.gone i c' hremoved
  have := h.accounted.eq_of_id hbuilt (h.accounted.entered k c hm) hid
  exact hgone k (this ▸ hm)

/-- What an operation took out is closed when the operation is done. -/
theorem Sound.mem_closed {ops : ℕ → Operation σ δ} {s : Scene σ δ} (h : Sound ops s) {i : ℕ}
    {c : Client δ} {a : Answer δ} (hm : .removed i c ∈ s.record) (hdone : s.tasks i = .done a) :
    c.id ∈ s.registry.closed := by
  refine (h.retired.removed_closed i c hm).resolve_right fun hleft => ?_
  rw [hdone] at hleft
  exact List.not_mem_nil hleft

/-- A client that could not be built leaves everything as it was. -/
theorem registry_of_failed {s : Scene σ δ} {i : ℕ} {e : Endpoint} {config : Connection}
    {create : σ → Except Failure δ × σ} {f : Failure}
    (htask : s.tasks i = .build e config create)
    (hdone : (s.step i).tasks i = .done (.client (.error f))) :
    (s.step i).registry = s.registry ∧ (s.step i).record = s.record := by
  rw [Scene.step_of_task htask] at hdone ⊢
  simp only [Scene.after, Function.update_self, Task.step, enterMissing] at hdone ⊢
  cases hlook : s.registry.lookup (.of e config) with
  | some c =>
    rw [hlook] at hdone
    cases hdone
  | none =>
    rw [hlook] at hdone
    rcases hcreate : create s.surroundings with ⟨x | d, x'⟩
    · exact ⟨rfl, rfl⟩
    · rw [hcreate] at hdone
      cases hdone

/-- What those who use a registry at the same time can rely on. -/
structure Consistent (ops : ℕ → Operation σ δ) (s : Scene σ δ) : Prop where
  /-- What is kept stands under its own fingerprint and is open. -/
  kept : ∀ k c, (k, c) ∈ s.registry.entries →
    k = c.fingerprint.digits ∧ s.registry.isClosed c = false
  /-- Of the clients built for a fingerprint, all but the one that is kept were
  removed; so there is never a second one. -/
  balance : ∀ f, s.record.countP (·.builds f)
    = s.record.countP (·.removes f) + if (s.registry.lookup f).isSome then 1 else 0
  /-- Every client that was built is on record. -/
  counted : (clients s.record).length = s.registry.built
  /-- A client that cannot be built changes nothing. -/
  failed : ∀ i e config create f, s.tasks i = .build e config create →
    (s.step i).tasks i = .done (.client (.error f)) →
    (s.step i).registry = s.registry ∧ (s.step i).record = s.record
  /-- Whoever has been given a client, that is on record under its fingerprint. -/
  noted : ∀ i c, (s.tasks i).given? = some c → .handed c.fingerprint c ∈ s.record
  /-- What is handed out for a fingerprint has that fingerprint. -/
  own : ∀ f c, .handed f c ∈ s.record → c.fingerprint = f
  /-- Whoever has been given a client has asked for one with its fingerprint. -/
  asked : ∀ i c, (s.tasks i).given? = some c → (ops i).sought? = some c.fingerprint
  /-- Between two removals for a fingerprint all who ask get the same client. -/
  same : ∀ f c c' later between earlier,
    s.record = later ++ .handed f c' :: (between ++ .handed f c :: earlier) →
    (∀ e ∈ between, e.removes f = false) → c' = c
  /-- Clients that were built at different times have different numbers. -/
  distinct : ((clients s.record).map Client.id).Nodup
  /-- No driver is closed twice. -/
  once : ∀ c ∈ clients s.record, s.registry.closes c ≤ 1
  /-- No driver is closed while its client is kept. -/
  open_while_kept : ∀ k c, (k, c) ∈ s.registry.entries → s.registry.closes c = 0
  /-- When the operation that took a client out is done, its driver is closed. -/
  closed_when_done : ∀ i c a, .removed i c ∈ s.record → s.tasks i = .done a →
    s.registry.closes c = 1

/-- **Whatever the schedule, the registry is consistent.** -/
theorem consistent_run (ops : ℕ → Operation σ δ) (x : σ) (schedule : List ℕ) :
    Consistent ops ((Scene.start ops x).run schedule) := by
  have h := (Sound.start ops x).run schedule
  constructor
  · intro k c hm
    have hclosed := h.notMem_closed hm
    exact ⟨h.stored.own k c hm, by simpa [isClosed] using hclosed⟩
  · exact h.balanced
  · exact h.accounted.counted
  · intro i e config create f htask hdone
    exact registry_of_failed htask hdone
  · intro i c hgiven
    obtain ⟨f, hf⟩ := h.noted.given i c hgiven
    rw [h.noted.own f c hf]
    exact hf
  · exact h.noted.own
  · intro i c hgiven
    exact (h.noted.serves i).sought hgiven
  · exact h.handles.same
  · exact h.accounted.distinct
  · intro c _
    exact List.nodup_iff_count_le_one.mp h.retired.once c.id
  · intro k c hm
    exact List.count_eq_zero.mpr (h.notMem_closed hm)
  · intro i c a hm hdone
    exact List.count_eq_one_of_mem h.retired.once (h.mem_closed hm hdone)

end Switchboard.Registry
