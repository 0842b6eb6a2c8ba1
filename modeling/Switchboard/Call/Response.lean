import Switchboard.Failure
import Switchboard.Json.Printer

/-!
# Responses and results

What a client gives back for an attempt, and the uniform result that the caller
sees.

## Main definitions

* `HeaderMap` — the values of each header, in the order they came.
* `ResponseBody`, `CallResponse` — what a client gives back.
* `CallResult` — what the caller sees.
* `CallResult.toMap`, `CallResult.toJson`, `CallResult.ofDocument?` — its
  written forms.
* `FailedCall` — a failure with the result that goes with it.
-/

namespace Switchboard

open Json

/-- The values of each header, in the order they came. -/
abbrev HeaderMap := Dictionary (List String)

/-- What a response carries. -/
inductive ResponseBody where
  /-- Nothing. -/
  | empty
  /-- The bytes of a plain HTTP response. -/
  | rest (bs : Bytes)
  /-- The bytes of a SOAP response. -/
  | soap (bs : Bytes)
  /-- A message that has been read already. -/
  | grpc (message : Dictionary Value)
  deriving Repr, Inhabited

/-- What a client gives back for an attempt that got an answer. -/
structure CallResponse where
  /-- The HTTP status, or one that stands for the outcome. -/
  status : UInt16
  /-- The headers of the answer. -/
  headers : HeaderMap
  /-- What the answer carries. -/
  body : ResponseBody
  /-- The failure that the answer reports, if it does. -/
  failure : Option Failure
  deriving Repr, Inhabited

/-- What the caller sees of a call, in one shape for all protocols. -/
structure CallResult where
  /-- The status, zero if there was no answer. -/
  status : UInt16
  /-- The body as a JSON value. -/
  body : Value
  /-- The headers of the answer. -/
  headers : HeaderMap
  /-- The message of the failure, if the call failed. -/
  error : Option String
  deriving Repr, Inhabited

namespace CallResult

/-- The result of an attempt that got no answer. -/
def failed (f : Failure) : CallResult := ⟨0, .null, [], some f.message⟩

/-- The value that stands for headers. -/
def headersValue (h : HeaderMap) : Value :=
  .object (h.map fun e => (e.1, .array (e.2.map .string)))

/-- The result as a map: status, body and headers, and the failure's message if
there is one. -/
def toMap (r : CallResult) : Dictionary Value :=
  let common :=
    Dictionary.insert "headers" (headersValue r.headers)
      (Dictionary.insert "body" r.body
        (Dictionary.insert "statusCode" (.nat r.status.toNat) []))
  match r.error with
  | some e => Dictionary.insert "error" (.string e) common
  | none => common

/-! ### Written form -/

/-- The members of the written form, in the order of the fields. -/
def members (r : CallResult) : List (String × Value) :=
  [("statusCode", .nat r.status.toNat), ("body", r.body),
   ("headers", headersValue r.headers)]
  ++ (r.error.map fun e => ("error", Value.string e)).toList

/-- The written form of a result. -/
def toJson (r : CallResult) : Value := .ofMembers r.members

/-- Reads a list of texts under each name. -/
def headersOf? : Document → Option HeaderMap
  | .object ms => do
    let entries ← ms.mapM fun m => do
      return (← m.1, ← Document.list? Document.text? m.2)
    return Dictionary.ofList entries
  | _ => none

/-- Reads the written form; only the failure's message may be left out. -/
def ofDocument? (d : Document) : Option CallResult := do
  match ← d.record? ["statusCode", "body", "headers", "error"] with
  | [status, body, headers, error] =>
    let status ← Document.required? (Document.integer? 0 (2 ^ 16 - 1)) status
    return {
      status := UInt16.ofNat status.toNat
      body := ← Document.required? Document.content? body
      headers := ← Document.required? headersOf? headers
      error := ← Document.withDefault? none (Document.optional? Document.text?) error }
  | _ => none

end CallResult

/-- A call that failed: the failure, and the result if an attempt was made. -/
structure FailedCall where
  /-- Why the call failed. -/
  failure : Failure
  /-- What the last attempt came to; nothing if there was none. -/
  result : Option CallResult
  deriving Repr, Inhabited

namespace FailedCall

/-- A failure before any attempt. -/
def beforeCall (f : Failure) : FailedCall := ⟨f, none⟩

/-- A failure of an attempt. -/
def withResult (f : Failure) (r : CallResult) : FailedCall := ⟨f, some r⟩

/-- The status of the result, if there is one. -/
def status? (c : FailedCall) : Option UInt16 := c.result.map CallResult.status

end FailedCall

end Switchboard
