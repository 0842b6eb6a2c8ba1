import Mathlib.Data.Nat.Notation
import Mathlib.Logic.Function.Basic
import Switchboard.Registry

/-!
# Interleaved operations

Any number of operations on one registry run at the same time.  An operation goes
forward in steps, each of which is a part that no other operation can interrupt:
a look under the lock for readers, a change under the lock for writers, the
closing of one client.  Between two steps of an operation, others may take any
number of steps in any order.

A caller that makes several operations one after another is several operations
here, which happen not to overlap.

## Main definitions

* `Operation` — what is asked of the registry; `Answer` — what it gives back.
* `Task` — what an operation still has to do; `Task.step` — its next step.
* `Event` — what is noted of a step.
* `Scene` — the registry with all operations and the record of events.
* `Scene.run s schedule` — the scene after the steps of a schedule.

## Main results

* `run_alone` — an operation that nobody interrupts does what the registry's own
  operation of that name does.
-/

namespace Switchboard.Registry

variable {σ δ : Type}

/-! ### Operations and their steps -/

/-- What is asked of the registry. -/
inductive Operation (σ δ : Type) where
  /-- The client of an endpoint, built by `create` if there is none. -/
  | getOrCreate (e : Endpoint) (config : Connection) (create : σ → Except Failure δ × σ)
  /-- The client of an endpoint, if there is one. -/
  | get (e : Endpoint) (config : Connection)
  /-- Whether an endpoint has a client. -/
  | contains (e : Endpoint) (config : Connection)
  /-- To evict the client of an endpoint. -/
  | remove (e : Endpoint) (config : Connection)
  /-- To evict all clients. -/
  | clear

/-- What an operation gives back. -/
inductive Answer (δ : Type) where
  /-- The client that was asked for, or why it could not be built. -/
  | client (c : Except Failure (Client δ))
  /-- The client that was found. -/
  | found (c : Option (Client δ))
  /-- Whether there is a client. -/
  | present (b : Bool)
  /-- Whether there was a client to evict. -/
  | removed (b : Bool)
  /-- How many clients there were to evict. -/
  | cleared (n : ℕ)

/-- What an operation still has to do. -/
inductive Task (σ δ : Type) where
  /-- Everything. -/
  | start (op : Operation σ δ)
  /-- It has looked for a client in vain, and will look again and build it. -/
  | build (e : Endpoint) (config : Connection) (create : σ → Except Failure δ × σ)
  /-- It has taken clients out of the registry, and has some left to close. -/
  | close (left : List (Client δ)) (answer : Answer δ)
  /-- Nothing. -/
  | done (answer : Answer δ)

/-- What is noted of a step. -/
inductive Event (δ : Type) where
  /-- A client was built and entered. -/
  | built (config : Connection) (c : Client δ)
  /-- A client was handed out for a fingerprint. -/
  | handed (f : Fingerprint) (c : Client δ)
  /-- A client was taken out of the registry by the operation with the given
  number. -/
  | removed (i : ℕ) (c : Client δ)

/-- What a step leads to. -/
structure Effect (σ δ : Type) where
  /-- What the operation has to do then. -/
  task : Task σ δ
  /-- The registry after the step. -/
  registry : Registry δ
  /-- What the surroundings remember then. -/
  surroundings : σ
  /-- What is noted of the step, the latest first. -/
  events : List (Event δ)

/-- The next step of the operation with number `i`. -/
def Task.step (i : ℕ) (r : Registry δ) (x : σ) : Task σ δ → Effect σ δ
  | .start (.getOrCreate e config create) =>
    match r.lookup (.of e config) with
    | some c => ⟨.done (.client (.ok c)), r, x, [.handed (.of e config) c]⟩
    | none => ⟨.build e config create, r, x, []⟩
  | .start (.get e config) =>
    ⟨.done (.found (r.get? e config)), r, x,
      (r.get? e config).toList.map (.handed (.of e config))⟩
  | .start (.contains e config) => ⟨.done (.present (r.contains e config)), r, x, []⟩
  | .start (.remove e config) =>
    match r.take (.of e config) with
    | (some c, r') => ⟨.close [c] (.removed true), r', x, [.removed i c]⟩
    | (none, r') => ⟨.done (.removed false), r', x, []⟩
  | .start .clear =>
    ⟨.close r.drain.1 (.cleared r.drain.1.length), r.drain.2, x, r.drain.1.map (.removed i)⟩
  | .build e config create =>
    match r.enterMissing create e (.of e config) x with
    | (.ok c, r', x') =>
      ⟨.done (.client (.ok c)), r', x', .handed (.of e config) c ::
        if (r.lookup (.of e config)).isSome then [] else [.built config c]⟩
    | (.error f, r', x') => ⟨.done (.client (.error f)), r', x', []⟩
  | .close [] a => ⟨.done a, r, x, []⟩
  | .close (c :: left) a => ⟨.close left a, r.close c, x, []⟩
  | .done a => ⟨.done a, r, x, []⟩

/-! ### Scenes -/

/-- The registry with all operations on it. -/
structure Scene (σ δ : Type) where
  /-- The registry. -/
  registry : Registry δ
  /-- What the surroundings remember. -/
  surroundings : σ
  /-- What each operation has to do. -/
  tasks : ℕ → Task σ δ
  /-- What has been noted, the latest first. -/
  record : List (Event δ)

namespace Scene

/-- No operation has taken a step. -/
def start (ops : ℕ → Operation σ δ) (x : σ) : Scene σ δ :=
  ⟨.empty, x, fun i => .start (ops i), []⟩

/-- The scene that a step of the operation with number `i` leads to. -/
def after (s : Scene σ δ) (i : ℕ) (e : Effect σ δ) : Scene σ δ :=
  ⟨e.registry, e.surroundings, Function.update s.tasks i e.task, e.events ++ s.record⟩

/-- The scene after a step of the operation with number `i`. -/
def step (s : Scene σ δ) (i : ℕ) : Scene σ δ :=
  s.after i ((s.tasks i).step i s.registry s.surroundings)

/-- The scene after the steps of a schedule, which says whose turn it is. -/
def run (s : Scene σ δ) (schedule : List ℕ) : Scene σ δ := schedule.foldl step s

@[simp] theorem run_nil (s : Scene σ δ) : s.run [] = s := rfl

@[simp] theorem run_cons (s : Scene σ δ) (i : ℕ) (schedule : List ℕ) :
    s.run (i :: schedule) = (s.step i).run schedule := rfl

end Scene

/-! ### Operations that nobody interrupts -/

/-- What the registry's own operations give back and leave behind. -/
def Operation.alone (r : Registry δ) (x : σ) : Operation σ δ → Answer δ × Registry δ × σ
  | .getOrCreate e config create =>
    let (c, r, x) := r.getOrCreate create e config x
    (.client c, r, x)
  | .get e config => (.found (r.get? e config), r, x)
  | .contains e config => (.present (r.contains e config), r, x)
  | .remove e config => (.removed (r.remove e config).1, (r.remove e config).2, x)
  | .clear => (.cleared r.clear.1, r.clear.2, x)

/-- The operation with number `i` has come to its end with what `o` says. -/
def Scene.EndsIn (s : Scene σ δ) (i : ℕ) (o : Answer δ × Registry δ × σ) : Prop :=
  s.tasks i = .done o.1 ∧ s.registry = o.2.1 ∧ s.surroundings = o.2.2

theorem Scene.step_of_task {s : Scene σ δ} {i : ℕ} {t : Task σ δ} (h : s.tasks i = t) :
    s.step i = s.after i (t.step i s.registry s.surroundings) := by
  subst h; rfl

/-- Closing what is left takes one step for each client and one to end. -/
theorem run_close (i : ℕ) (a : Answer δ) (left : List (Client δ)) :
    ∀ s : Scene σ δ, s.tasks i = .close left a →
      (s.run (List.replicate (left.length + 1) i)).EndsIn i
        (a, left.foldl (fun r c => r.close c) s.registry, s.surroundings) := by
  induction left with
  | nil =>
    intro s h
    refine ⟨?_, ?_, ?_⟩ <;> simp [Scene.step_of_task h, Scene.after, Task.step]
  | cons c left ih =>
    intro s h
    have hstep : (s.step i).tasks i = .close left a := by
      simp [Scene.step_of_task h, Scene.after, Task.step]
    have hrest := ih _ hstep
    rw [Scene.step_of_task h] at hrest
    rw [List.length_cons, List.replicate_succ, Scene.run_cons, Scene.step_of_task h]
    exact hrest

/-- An operation whose next step is its last. -/
theorem Scene.endsIn_of_step {s : Scene σ δ} {i : ℕ} {t : Task σ δ} {a : Answer δ}
    {r : Registry δ} {x : σ} {es : List (Event δ)} (htask : s.tasks i = t)
    (hstep : t.step i s.registry s.surroundings = ⟨.done a, r, x, es⟩) :
    (s.step i).EndsIn i (a, r, x) := by
  rw [Scene.step_of_task htask, hstep]
  exact ⟨Function.update_self .., rfl, rfl⟩

/-- **An operation that nobody interrupts** comes to its end, and does to the
registry what the operation of that name does in one go. -/
theorem run_alone (s : Scene σ δ) (i : ℕ) (op : Operation σ δ) (h : s.tasks i = .start op) :
    ∃ n, (s.run (List.replicate n i)).EndsIn i (op.alone s.registry s.surroundings) := by
  cases op with
  | getOrCreate e config create =>
    cases hlook : s.registry.lookup (.of e config) with
    | some c =>
      refine ⟨1, ?_⟩
      rw [Operation.alone, getOrCreate, hlook]
      exact Scene.endsIn_of_step h (by rw [Task.step, hlook])
    | none =>
      -- it is built in a second step
      have hstep : (s.step i).tasks i = .build e config create := by
        simp [Scene.step_of_task h, Scene.after, Task.step, hlook]
      have hsame : (s.step i).registry = s.registry ∧
          (s.step i).surroundings = s.surroundings := by
        simp [Scene.step_of_task h, Scene.after, Task.step, hlook]
      refine ⟨2, ?_⟩
      rw [Operation.alone, getOrCreate, hlook]
      rcases hbuilt : s.registry.enterMissing create e (.of e config) s.surroundings with
        ⟨f | c, r, x⟩
      · exact Scene.endsIn_of_step hstep (by rw [Task.step, hsame.1, hsame.2, hbuilt])
      · exact Scene.endsIn_of_step hstep (by rw [Task.step, hsame.1, hsame.2, hbuilt])
  | get e config => exact ⟨1, Scene.endsIn_of_step h rfl⟩
  | contains e config => exact ⟨1, Scene.endsIn_of_step h rfl⟩
  | remove e config =>
    cases hlook : s.registry.lookup (.of e config) with
    | some c =>
      have hstep : (s.step i).tasks i = .close [c] (.removed true) := by
        simp [Scene.step_of_task h, Scene.after, Task.step, take, hlook]
      have hclose := run_close i _ [c] _ hstep
      refine ⟨3, ?_⟩
      rw [List.replicate_succ, Scene.run_cons]
      simpa [Scene.step_of_task h, Scene.after, Task.step, take, hlook, Operation.alone, remove]
        using hclose
    | none =>
      refine ⟨1, ?_⟩
      rw [Operation.alone, remove, take, hlook]
      exact Scene.endsIn_of_step h (by rw [Task.step, take, hlook])
  | clear =>
    -- one step takes all out, and then each is closed
    have hstep : (s.step i).tasks i = .close s.registry.drain.1
        (.cleared s.registry.drain.1.length) := by
      simp [Scene.step_of_task h, Scene.after, Task.step]
    have hclose := run_close i _ _ _ hstep
    refine ⟨s.registry.drain.1.length + 2, ?_⟩
    rw [List.replicate_succ, Scene.run_cons]
    simpa [Scene.step_of_task h, Scene.after, Task.step, Operation.alone, clear] using hclose

end Switchboard.Registry
