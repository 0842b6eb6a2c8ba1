import Switchboard.Proto.Json.Special

/-!
# Reading messages from JSON

A message stands as an object whose members are its fields, under their names for
JSON or as declared.  Members are taken in the order of the text; what the message
type does not know is passed over.  An object for a message that names its own type
has the name of the type among its members.

## Main definitions

* `Pool.readContent` — what a document puts into a field.
* `Pool.readMembers` — a message with the members of an object.
* `Pool.read?` — the message that a document stands for.
-/

namespace Switchboard.Proto

open Json

namespace Pool

/-- The message of an encoded special type. -/
def special? (p : Pool) (name : String) (bs : Bytes) : Option Datum := do
  return .message (← p.decode? (← p.message? name) bs)

/-- What `null` sets a field to, if it sets it at all: a list and a map to
nothing, a scalar to its default; a message is left alone, but for the type of
any JSON value. -/
def readNull (p : Pool) (f : Field) : Option (Option Content) :=
  match f.shape with
  | .list => some (some (.list []))
  | .map _ => some (some (.map []))
  | .single =>
    match f.type with
    | .message name =>
      match Special.ofName? name with
      | some .value =>
        (Special.read? 0 .value .null).bind fun bs =>
          (p.special? name bs).map fun d => some (.one d)
      | _ => some none
    | .group _ => some none
    | .enumeration name => some (some (.one (if name = nullEnum then .int 0 else f.default)))
    | .scalar _ => some (some (.one f.default))

/-- The type of messages that stand as objects of their fields, where a field type
is one. -/
def plainMessage? (p : Pool) : FieldType → Option MessageType
  | .message name | .group name =>
    match Special.ofName? name with
    | some _ => none
    | none => p.message? name
  | _ => none

/-- The name of the type of messages that name their own type, where a field type is
that one. -/
def anyType? : FieldType → Option String
  | .message name | .group name =>
    if Special.ofName? name = some .any then some name else none
  | _ => none

/-- The address and the type that an object for a message names as its own. -/
def ownType? (p : Pool) (ms : List (Option String × Document)) :
    Option (String × MessageType) := do
  let address ← Special.address? ms
  return (address, ← p.message? (← Special.typeOf? address))

/-- The message of the type `name` that holds the message `m` with its type and the
address of that. -/
def wrap? (p : Pool) (name address : String) (t : MessageType) (m : Message) :
    Option Datum :=
  p.special? name (Wire.writeRecords (Special.anyRecords address (p.encode t m)))

/-- The value of a type whose form in JSON has no fields of messages within. -/
def readPlain (p : Pool) (room : Nat) (type : FieldType) (d : Document) : Option Datum :=
  match type with
  | .scalar k => k.read? d
  | .enumeration name => (p.enum? name).bind (·.read? d)
  | .message name | .group name =>
    match Special.ofName? name with
    | some s => (s.read? room d).bind (p.special? name)
    | none => none

/-- The message with a content in a field, unless the field's oneof has a value
already. -/
def choose (t : MessageType) (f : Field) (c : Content) (m : Message) : Option Message :=
  match f.oneof with
  | some i => if m.choosesFrom t i then none else some (m.set t f c)
  | none => some (m.set t f c)

/-- The one value in a content. -/
def value? : Content → Option Datum
  | .one d => some d
  | _ => none

mutual

/-- The content of the given shape and type that a document stands for.  Arrays and
objects are nested no deeper than `room`. -/
def readContent (p : Pool) (room : Nat) (shape : Shape) (type : FieldType) :
    Document → Option Content
  | .array ds =>
    match shape with
    | .list =>
      if room = 0 then none else (readElements p (room - 1) type ds).map .list
    | .single => (p.readPlain room type (.array ds)).map .one
    | .map _ => none
  | .object ms =>
    match shape with
    | .map key =>
      if room = 0 then none else (readEntries p (room - 1) key type [] ms).map .map
    | .single =>
      match p.plainMessage? type with
      | some t =>
        if room = 0 then none
        else (readMembers p (room - 1) t [] ms).map fun m => .one (.message m)
      | none =>
        match anyType? type with
        | some name =>
          if room = 0 then none
          else do
            let (address, t) ← p.ownType? ms
            let m ←
              match Special.ofName? t.name with
              | none => readMembers p (room - 1) t [] ms
              | some _ => readValueMember p (room - 1) t ms
            (p.wrap? name address t m).map .one
        | none => (p.readPlain room type (.object ms)).map .one
    | .list => none
  | d =>
    match shape with
    | .single => (p.readPlain room type d).map .one
    | _ => none

/-- The values of a list. -/
def readElements (p : Pool) (room : Nat) (type : FieldType) :
    List Document → Option (List Datum)
  | [] => some []
  | d :: ds => do
    let x ← value? (← readContent p room .single type d)
    return x :: (← readElements p room type ds)

/-- The entries of a map, under the texts of their keys; a later entry replaces an
earlier one with the same key. -/
def readEntries (p : Pool) (room : Nat) (key : Scalar) (type : FieldType)
    (entries : Dictionary Datum) :
    List (Option String × Document) → Option (Dictionary Datum)
  | [] => some entries
  | (k, d) :: ms => do
    let k ← key.ofKey? (← k)
    let x ← value? (← readContent p room .single type d)
    readEntries p room key type (Dictionary.insert k.keyText x entries) ms

/-- The message with the members of an object. -/
def readMembers (p : Pool) (room : Nat) (t : MessageType) (m : Message) :
    List (Option String × Document) → Option Message
  | [] => some m
  | (name, d) :: ms => do
    match t.named? (← name) with
    | none => readMembers p room t m ms
    | some f =>
      let c ←
        if d.isNull then p.readNull f
        else (readContent p room f.shape f.type d).map some
      match c with
      | some c => readMembers p room t (← choose t f c m) ms
      | none => readMembers p room t m ms

/-- The message under the name for messages with a form of their own. -/
def readValueMember (p : Pool) (room : Nat) (t : MessageType) :
    List (Option String × Document) → Option Message
  | [] => none
  | (name, d) :: ms =>
    if name = some Special.valueName then
      match readContent p room .single (.message t.name) d with
      | some (.one (.message m)) => some m
      | _ => none
    else readValueMember p room t ms

end

/-- The message of a type that a document stands for. -/
def read? (p : Pool) (room : Nat) (t : MessageType) (d : Document) : Option Message :=
  match p.readContent room .single (.message t.name) d with
  | some (.one (.message m)) => some m
  | _ => none

end Pool

end Switchboard.Proto
