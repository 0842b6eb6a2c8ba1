import Switchboard.Call.Request
import Switchboard.Failure
import Switchboard.Proto.Json.Reading
import Switchboard.Proto.Json.Writing

/-!
# Requests and responses as messages

The body of a request becomes a message of the type that a method takes, and a
message of the type that it gives becomes a dictionary.

## Main definitions

* `requestMessage` — the message of a request body.
* `responseMap` — the dictionary of a response message.
-/

namespace Switchboard.Grpc

open Proto Json

/-- A body that does not fit the type of requests; which part does not is left out. -/
def unfitting : Failure := .encode "failed to convert request to protobuf"

/-- A message that cannot be written as a dictionary; why is left out. -/
def unwritable : Failure := .decode "failed to convert response to map"

/-- The message of a request body, if it fits the type. -/
def requestMessage? (p : Pool) (t : MessageType) : RequestBody → Option Message
  | .empty => some []
  | .json v => p.read? (Document.ofValue v).depth t (.ofValue v)
  | .text s => (Document.ofText? s.toList).bind (p.read? Document.maxDepth t)
  | .bytes bs => p.decode? t bs

/-- The message of a request body. -/
def requestMessage (p : Pool) (t : MessageType) (b : RequestBody) : Except Failure Message :=
  match requestMessage? p t b with
  | some m => .ok m
  | none => .error unfitting

/-- The dictionary of a response message. -/
def responseMap (p : Pool) (t : MessageType) (m : Message) :
    Except Failure (Dictionary Value) :=
  match p.writeFilled? t m with
  | some ms => .ok ms
  | none => .error unwritable

end Switchboard.Grpc
