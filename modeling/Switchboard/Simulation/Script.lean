import Switchboard.Orchestrator

/-!
# Scripted clients

Clients that do what a script says, in virtual time: every request to any of
them takes the next step of one script, and every construction the next of a
list of troubles.

## Main definitions

* `Script` — what is still to come, and the requests seen so far.
* `Script.backend` — clients that follow a script.
-/

namespace Switchboard.Simulation

/-- What scripted clients will do, and what they have seen. -/
structure Script where
  /-- What the next requests come to, one step each. -/
  steps : List Behaviour
  /-- What the next constructions run into, one each. -/
  troubles : List (Option Failure)
  /-- The requests seen so far with the numbers of their clients, the latest
  first. -/
  seen : List (Nat × CallRequest)
  deriving Inhabited

namespace Script

/-- A response without headers and without a body. -/
def silence : CallResponse := ⟨200, [], .empty, none⟩

/-- What a request comes to once the script has ended. -/
def afterwards : Behaviour := .now (.ok silence)

/-- Building a client takes the next trouble; none is left or the next is none
means success. -/
def create (_ : Endpoint) (_ : Connection) (s : Script) : Except Failure Unit × Script :=
  match s.troubles with
  | [] => (.ok (), s)
  | none :: rest => (.ok (), { s with troubles := rest })
  | some f :: rest => (.error f, { s with troubles := rest })

/-- A request takes the next step. -/
def perform (c : Client Unit) (request : CallRequest) (s : Script) : Behaviour × Script :=
  let s := { s with seen := (c.id, request) :: s.seen }
  match s.steps with
  | [] => (afterwards, s)
  | b :: rest => (b, { s with steps := rest })

/-- Clients that follow a script, and a timer that counts milliseconds. -/
def backend : Backend Script Unit := ⟨create, perform, .ticking⟩

/-- The requests seen so far, in order. -/
def requests (s : Script) : List (Nat × CallRequest) := s.seen.reverse

/-- The script with its record of requests empty. -/
def forget (s : Script) : Script := { s with seen := [] }

@[simp] theorem requests_forget (s : Script) : s.forget.requests = [] := rfl

end Script

end Switchboard.Simulation
