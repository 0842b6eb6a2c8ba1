import Switchboard.Failure

/-!
# Statuses

A gRPC call that fails ends with a code and a message.

## Main definitions

* `Code` — the seventeen codes.
* `Code.ofNumber` — the code of a number on the wire.
* `Status` — a code and a message.
* `Status.failure` — the failure that a status is reported as.
-/

namespace Switchboard.Grpc

/-- Why a call failed. -/
inductive Code where
  /-- It did not. -/
  | ok
  /-- It was cancelled. -/
  | cancelled
  /-- For a reason without a code. -/
  | unknown
  /-- The request makes no sense. -/
  | invalidArgument
  /-- Its deadline passed. -/
  | deadlineExceeded
  /-- Something was not found. -/
  | notFound
  /-- Something exists already. -/
  | alreadyExists
  /-- The caller may not. -/
  | permissionDenied
  /-- Something is used up. -/
  | resourceExhausted
  /-- The service is not in the right state. -/
  | failedPrecondition
  /-- It was given up. -/
  | aborted
  /-- Something lies beyond its range. -/
  | outOfRange
  /-- The service does not have the method. -/
  | unimplemented
  /-- The service is broken. -/
  | internal
  /-- The service cannot be reached. -/
  | unavailable
  /-- Data is lost. -/
  | dataLoss
  /-- The caller is not known. -/
  | unauthenticated
  deriving DecidableEq, Repr, Inhabited

namespace Code

/-- All codes, in the order of their numbers. -/
def all : List Code :=
  [.ok, .cancelled, .unknown, .invalidArgument, .deadlineExceeded, .notFound, .alreadyExists,
   .permissionDenied, .resourceExhausted, .failedPrecondition, .aborted, .outOfRange,
   .unimplemented, .internal, .unavailable, .dataLoss, .unauthenticated]

/-- The name of a code. -/
def name : Code → String
  | .ok => "Ok"
  | .cancelled => "Cancelled"
  | .unknown => "Unknown"
  | .invalidArgument => "InvalidArgument"
  | .deadlineExceeded => "DeadlineExceeded"
  | .notFound => "NotFound"
  | .alreadyExists => "AlreadyExists"
  | .permissionDenied => "PermissionDenied"
  | .resourceExhausted => "ResourceExhausted"
  | .failedPrecondition => "FailedPrecondition"
  | .aborted => "Aborted"
  | .outOfRange => "OutOfRange"
  | .unimplemented => "Unimplemented"
  | .internal => "Internal"
  | .unavailable => "Unavailable"
  | .dataLoss => "DataLoss"
  | .unauthenticated => "Unauthenticated"

/-- The code of a number; one that has no code counts as unknown. -/
def ofNumber (n : Int) : Code :=
  if n < 0 then .unknown else (all[n.toNat]?).getD .unknown

end Code

/-- How a call ended. -/
structure Status where
  /-- Why it failed. -/
  code : Code
  /-- What is known about it. -/
  message : String
  deriving DecidableEq, Repr, Inhabited

namespace Status

/-- The text of a status. -/
def text (s : Status) : String :=
  "rpc error: code = " ++ s.code.name ++ " desc = " ++ s.message

/-- The failure that a status is reported as: a passed deadline is a timeout,
anything else an answer of the other side. -/
def failure (s : Status) : Failure :=
  match s.code with
  | .deadlineExceeded => .timeout s.text
  | _ => .protocol s.text

/-- A status is a timeout exactly when its code says so. -/
theorem isTimeout_failure (s : Status) :
    s.failure.isTimeout = true ↔ s.code = .deadlineExceeded := by
  obtain ⟨c, m⟩ := s
  cases c <;> simp [failure, Failure.isTimeout, Failure.timeout, Failure.protocol]

end Status

end Switchboard.Grpc
