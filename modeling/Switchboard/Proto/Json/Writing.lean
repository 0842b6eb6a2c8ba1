import Switchboard.Proto.Json.Special

/-!
# Writing messages as JSON

A message is written as an object with its fields under their declared names.  A
field whose default is not told apart from absence is always there; another field
is there when it has a value.  A message that names its own type is written as one
of that type, with the name among its members.

## Main definitions

* `Pool.writeDatum` — the JSON value of a value.
* `Pool.writeAny`, `Pool.writeOutermost` — the JSON value of a message that names its own
  type.
* `Pool.write?` — the JSON value of a message.
* `Pool.writeFilled?` — an object for any message, with `null` under the fields
  that have no value.
-/

namespace Switchboard.Proto

open Json

namespace Pool

/-- The JSON value of a content that a field has anyway. -/
def writeDefault (p : Pool) (f : Field) : Value :=
  match f.shape with
  | .list => .array []
  | .map _ => .object []
  | .single =>
    match f.type with
    | .scalar k => k.write f.default
    | .enumeration name =>
      match p.enum? name with
      | some e => e.write f.default
      | none => .null
    | _ => .null

/-- The members for the fields that a message does not hold but has anyway. -/
def defaultMembers (p : Pool) (t : MessageType) (m : Message) : List (String × Value) :=
  (t.fields.filter fun f => !f.explicit && (m.get? f.number).isNone).map fun f =>
    (f.name, p.writeDefault f)

mutual

/-- The JSON value of a value.  `any` writes an encoded message that names its own
type. -/
def writeDatum (p : Pool) (any : Bytes → Option Value) (type : FieldType) :
    Datum → Option Value
  | .message m =>
    match type with
    | .message name | .group name =>
      match p.message? name with
      | some t =>
        match Special.ofName? name with
        | some .any => any (p.encode t m)
        | some s => s.write? maxNesting (p.encode t m)
        | none =>
          (writeContents p any t m).map fun ms =>
            Value.ofMembers (p.defaultMembers t m ++ ms)
      | none => none
    | _ => none
  | d =>
    match type with
    | .scalar k => some (k.write d)
    | .enumeration name => (p.enum? name).map (·.write d)
    | _ => none

/-- The JSON values of a list. -/
def writeElements (p : Pool) (any : Bytes → Option Value) (type : FieldType) : List Datum → Option (List Value)
  | [] => some []
  | d :: ds => do
    let v ← writeDatum p any type d
    return v :: (← writeElements p any type ds)

/-- The JSON values of the entries of a map. -/
def writeEntries (p : Pool) (any : Bytes → Option Value) (type : FieldType) :
    List (String × Datum) → Option (List (String × Value))
  | [] => some []
  | (k, d) :: es => do
    let v ← writeDatum p any type d
    return (k, v) :: (← writeEntries p any type es)

/-- The JSON value of a content. -/
def writeContent (p : Pool) (any : Bytes → Option Value) (f : Field) : Content → Option Value
  | .one d => writeDatum p any f.type d
  | .list ds => (writeElements p any f.type ds).map .array
  | .map es => (writeEntries p any f.type es).map .object
  | .unknown _ => none

/-- The members for the contents of a message; what its type does not know is left
out. -/
def writeContents (p : Pool) (any : Bytes → Option Value) (t : MessageType) :
    List (Nat × Content) → Option (List (String × Value))
  | [] => some []
  | (n, c) :: m =>
    match t.field? n with
    | some f => do
      let v ← writeContent p any f c
      return (f.name, v) :: (← writeContents p any t m)
    | none => writeContents p any t m

end

/-- The JSON value of an encoded message that names its own type; no more than
`limit` of them are nested, which the length of the outermost bounds. -/
def writeAny (p : Pool) : (limit : Nat) → Bytes → Option Value
  | 0, _ => none
  | limit + 1, bs => do
    let (address, content) ← Special.any? maxNesting bs
    let t ← p.message? (← Special.typeOf? address)
    let m ← p.decode? t content
    let v ← p.writeDatum (writeAny p limit) (.message t.name) (.message m)
    match Special.ofName? t.name, v with
    | none, .object ms =>
      return .object (Dictionary.insert Special.typeName (.string address) ms)
    | _, v => return .ofMembers [(Special.typeName, .string address), (Special.valueName, v)]

/-- The JSON value of an encoded message that names its own type. -/
def writeOutermost (p : Pool) (bs : Bytes) : Option Value := p.writeAny (bs.length + 1) bs

/-- The JSON value of a message. -/
def write? (p : Pool) (t : MessageType) (m : Message) : Option Value :=
  p.writeDatum p.writeOutermost (.message t.name) (.message m)

/-- The names of the fields outside every oneof. -/
def standalone (t : MessageType) : List String :=
  (t.fields.filter (·.oneof.isNone)).map Field.name

/-- An object for any message: a JSON form that is no object stands under `value`,
and a field outside every oneof that the form leaves out is `null`. -/
def writeFilled? (p : Pool) (t : MessageType) (m : Message) : Option (Dictionary Value) :=
  (p.write? t m).map fun v =>
    match v with
    | .object ms =>
      (standalone t).foldl
        (fun (o : Dictionary Value) name =>
          if Dictionary.contains name o then o else Dictionary.insert name .null o) ms
    | v => [("value", v)]

end Pool

end Switchboard.Proto
