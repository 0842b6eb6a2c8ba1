import Switchboard.Proofs.Fingerprint
import Switchboard.Proofs.Registry.Consistency

/-!
# Whose client a caller is given

A client that is handed out was built by whoever first asked for its fingerprint.  So a
caller is given a client of its own identity as far as the fingerprint tells identities
apart, and no further.

## Main definitions

* `Traced` — where the clients come from that operations were given.

## Main results

* `Traced.step`, `Traced.run` — a step, and any schedule.
* `exists_built_of_getOrCreate` — what a client was built for.
* `plain_iff_sameIdentity` — **who is never given the client of another identity.**
-/

namespace Switchboard.Registry

variable {σ δ : Type}

/-! ### Where clients come from -/

/-- A client is built under the fingerprint of the endpoint that it is built for. -/
theorem Change.fingerprint_of_built {i : ℕ} {r : Registry δ} {t : Task σ δ} {e : Effect σ δ}
    (hc : Change i r t e) {config : Connection} {c : Client δ} (h : .built config c ∈ e.events) :
    c.fingerprint = .of c.endpoint config := by
  cases hc with
  | pass => cases h
  | hand => cases List.mem_singleton.mp h
  | build _ _ e config d _ _ _ =>
    rcases List.mem_cons.mp h with h | h
    · cases h
    · cases List.mem_singleton.mp h
      rfl
  | take _ _ keep =>
    obtain ⟨d, -, hd⟩ := List.mem_map.mp h
    cases hd
  | close => cases h

/-- A client is handed out when it is there or has just been built. -/
theorem Change.built_of_handed {i : ℕ} {r : Registry δ} {t : Task σ δ} {e : Effect σ δ}
    {record : List (Event δ)} (hc : Change i r t e) (ha : Accounted record r) {f : Fingerprint}
    {c : Client δ} (h : .handed f c ∈ e.events) : c ∈ clients (e.events ++ record) := by
  cases hc with
  | pass => cases h
  | hand _ _ g d _ _ hlook =>
    cases List.mem_singleton.mp h
    exact ha.entered _ _ (Dictionary.mem_of_get? hlook)
  | build _ _ e config d _ _ _ =>
    rcases List.mem_cons.mp h with h | h
    · cases h
      exact List.mem_cons_self
    · cases List.mem_singleton.mp h
  | take _ _ keep =>
    obtain ⟨d, -, hd⟩ := List.mem_map.mp h
    cases hd
  | close => cases h

theorem mem_clients {c : Client δ} {record : List (Event δ)} :
    c ∈ clients record ↔ ∃ config, .built config c ∈ record := by
  rw [clients, List.mem_filterMap]
  constructor
  · rintro ⟨_ | _ | _, hevent, heq⟩
    · cases heq
      exact ⟨_, hevent⟩
    · cases heq
    · cases heq
  · rintro ⟨config, hevent⟩
    exact ⟨_, hevent, rfl⟩

/-- Where the clients come from that operations were given. -/
structure Traced (ops : ℕ → Operation σ δ) (s : Scene σ δ) : Prop where
  /-- What holds of a scene. -/
  sound : Sound ops s
  /-- A client has the fingerprint of what it was built for. -/
  own : ∀ config c, .built config c ∈ s.record → c.fingerprint = .of c.endpoint config
  /-- Only what was built is handed out. -/
  handed : ∀ f c, .handed f c ∈ s.record → c ∈ clients s.record

theorem Traced.start (ops : ℕ → Operation σ δ) (x : σ) : Traced ops (.start ops x) where
  sound := .start ops x
  own _ _ h := nomatch h
  handed _ _ h := nomatch h

theorem Traced.step {ops : ℕ → Operation σ δ} {s : Scene σ δ} (h : Traced ops s) (i : ℕ) :
    Traced ops (s.step i) := by
  have hc := Task.step_change h.sound.stored.ordered i s.surroundings (s.tasks i)
  refine ⟨h.sound.step i, fun config c hbuilt => ?_, fun f c hhanded => ?_⟩
  · rcases List.mem_append.mp hbuilt with hnew | hold
    · exact hc.fingerprint_of_built hnew
    · exact h.own config c hold
  · rcases List.mem_append.mp hhanded with hnew | hold
    · exact hc.built_of_handed h.sound.accounted hnew
    · obtain ⟨config, hbuilt⟩ := mem_clients.mp (h.handed f c hold)
      exact mem_clients.mpr ⟨config, List.mem_append_right _ hbuilt⟩

theorem Traced.run {ops : ℕ → Operation σ δ} {s : Scene σ δ} (schedule : List ℕ)
    (h : Traced ops s) : Traced ops (s.run schedule) := by
  induction schedule generalizing s with
  | nil => exact h
  | cons i schedule ih => exact ih (h.step i)

/-- **Whoever asks for a client is given one that was built**, at some time, for an
endpoint and settings with the fingerprint of those asked for. -/
theorem exists_built_of_getOrCreate {ops : ℕ → Operation σ δ} {x : σ} {schedule : List ℕ}
    {i : ℕ} {e : Endpoint} {config : Connection} {create : σ → Except Failure δ × σ}
    {c : Client δ} (hop : ops i = .getOrCreate e config create)
    (hdone : ((Scene.start ops x).run schedule).tasks i = .done (.client (.ok c))) :
    ∃ config', .built config' c ∈ ((Scene.start ops x).run schedule).record ∧
      Fingerprint.of c.endpoint config' = .of e config := by
  have h := (Traced.start ops x).run schedule
  have hgiven : (((Scene.start ops x).run schedule).tasks i).given? = some c := by
    rw [hdone]
    rfl
  obtain ⟨f, hhanded⟩ := h.sound.noted.given i c hgiven
  obtain ⟨config', hbuilt⟩ := mem_clients.mp (h.handed f c hhanded)
  have hsought := (h.sound.noted.serves i).sought hgiven
  rw [hop, Operation.sought?, Option.some.injEq] at hsought
  exact ⟨config', hbuilt, (h.own config' c hbuilt).symm.trans hsought.symm⟩

/-! ### Clients of another identity -/

/-- One operation asks for a client, and all others ask for another one. -/
def rivals (e' : Endpoint) (config' : Connection) (e : Endpoint) (config : Connection) :
    ℕ → Operation Unit Unit
  | 0 => .getOrCreate e' config' fun x => (.ok (), x)
  | _ => .getOrCreate e config fun x => (.ok (), x)

theorem Scene.tasks_after (s : Scene σ δ) (i : ℕ) (e : Effect σ δ) :
    (s.after i e).tasks i = e.task := Function.update_self ..

theorem Task.step_of_lookup {r : Registry δ} {e : Endpoint} {config : Connection} {c : Client δ}
    (h : r.lookup (.of e config) = some c) (i : ℕ) (x : σ) (create : σ → Except Failure δ × σ) :
    (Task.start (.getOrCreate e config create)).step i r x
      = ⟨.done (.client (.ok c)), r, x, [.handed (.of e config) c]⟩ := by
  rw [Task.step, h]

/-- Under one fingerprint, the first client is given to all. -/
theorem run_rivals {e e' : Endpoint} {config config' : Connection}
    (h : Fingerprint.of e' config' = .of e config) :
    let c : Client Unit := ⟨1, .of e' config', e', ()⟩
    let s := (Scene.start (rivals e' config' e config) ()).run [0, 0, 1]
    s.tasks 1 = .done (.client (.ok c)) ∧
      s.record = [.handed (.of e config) c, .handed (.of e' config') c, .built config' c] := by
  intro c s
  let build : Unit → Except Failure Unit × Unit := fun x => (.ok (), x)
  let s₀ := Scene.start (rivals e' config' e config) ()
  let r : Registry Unit := (empty.enter e' (.of e' config') ()).2
  -- the first operation looks in vain
  have htask : (s₀.step 0).tasks 0 = .build e' config' build := s₀.tasks_after 0 _
  -- and builds the client
  have hbuild : (s₀.step 0).step 0 = (s₀.step 0).after 0
      ⟨.done (.client (.ok c)), r, (), [.handed (.of e' config') c, .built config' c]⟩ := by
    rw [Scene.step_of_task htask]
    rfl
  -- which the second finds
  have hsecond : ((s₀.step 0).step 0).tasks 1 = .start (.getOrCreate e config build) := by
    rw [hbuild]
    rfl
  have hlook : ((s₀.step 0).step 0).registry.lookup (.of e config) = some c := by
    rw [hbuild, ← h]
    exact lookup_enter e' _ () empty
  have hfind : s = ((s₀.step 0).step 0).after 1
      ⟨.done (.client (.ok c)), r, (), [.handed (.of e config) c]⟩ := by
    show ((s₀.step 0).step 0).step 1 = _
    rw [Scene.step_of_task hsecond, Task.step_of_lookup hlook, hbuild]
    rfl
  rw [hfind, hbuild]
  exact ⟨Scene.tasks_after _ 1 _, rfl⟩

/-- **Who is never given the client of another identity**, whatever others ask for and
in whatever order, unless the digest has a collision: exactly those without a bar in
the fields of their identity. -/
theorem plain_iff_sameIdentity (e : Endpoint) (config : Connection) :
    Fingerprint.Plain e config ↔
      ∀ (σ δ : Type) (ops : ℕ → Operation σ δ) (x : σ) (schedule : List ℕ) (i : ℕ)
        (create : σ → Except Failure δ × σ) (c : Client δ),
        ops i = .getOrCreate e config create →
        ((Scene.start ops x).run schedule).tasks i = .done (.client (.ok c)) →
        ∃ config', .built config' c ∈ ((Scene.start ops x).run schedule).record ∧
          (Fingerprint.SameIdentity c.endpoint config' e config ∨
            Fingerprint.Collision (Fingerprint.key c.endpoint config')
              (Fingerprint.key e config)) := by
  constructor
  · intro hplain σ δ ops x schedule i create c hop hdone
    obtain ⟨config', hbuilt, hof⟩ := exists_built_of_getOrCreate hop hdone
    refine ⟨config', hbuilt, ?_⟩
    exact (Fingerprint.of_eq_iff.mp hof).imp_left fun hkey => hplain.sameIdentity hkey
  · intro h
    by_contra hplain
    obtain ⟨e', config', hkey, hother⟩ := Fingerprint.exists_other hplain
    obtain ⟨hdone, hrecord⟩ := run_rivals (Fingerprint.of_eq_iff.mpr (.inl hkey))
    obtain ⟨config'', hbuilt, hsame⟩ := h Unit Unit _ () _ 1 _ _ rfl hdone
    rw [hrecord] at hbuilt
    -- the one client that was built is the other identity's
    have hconfig : config'' = config' := by simpa using hbuilt
    subst hconfig
    rcases hsame with hsame | hcollision
    · exact hother hsame
    · exact hcollision.1 hkey

/-- An endpoint with a bar in its name. -/
def barredName : Endpoint := .make "api|http://one.example/" "http://two.example/" .rest

/-- Another one, with the bar in its address. -/
def barredUrl : Endpoint := .make "api" "http://one.example/|http://two.example/" .rest

/-- Whoever asks for the second of these two endpoints is given a client that was built
for the first, which is at another address; and a path that is empty counts as one that
is not given. -/
theorem given_barredName :
    barredName.url ≠ barredUrl.url ∧
      Fingerprint.of barredName .standard = .of barredUrl .standard ∧
      Fingerprint.of barredUrl (.withCaCert .standard "") = .of barredUrl .standard ∧
      ((Scene.start (rivals barredName .standard barredUrl .standard) ()).run [0, 0, 1]).tasks 1
        = .done (.client (.ok ⟨1, .of barredName .standard, barredName, ()⟩)) := by
  have hbar : Fingerprint.key barredName .standard = Fingerprint.key barredUrl .standard := by
    decide
  have hof := Fingerprint.of_eq_iff.mpr (.inl hbar)
  refine ⟨by decide, hof, Fingerprint.of_eq_iff.mpr (.inl rfl), ?_⟩
  exact (run_rivals hof).1

end Switchboard.Registry
