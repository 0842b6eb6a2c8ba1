import Switchboard.Proto.Json.Moment
import Switchboard.Proto.Json.Scalar

/-!
# Message types with a JSON form of their own

Some well-known message types stand in JSON as something else than an object of
their fields: a wrapper as the scalar in it, a struct as the object it describes,
a moment as a date.  They are known by their names alone, so they are read into and
written from their encoded form: any declaration will do that agrees with it.  A
message that names its own type needs the types around it, and is left to readers
and writers that know them.

## Main definitions

* `Special` — the types.
* `Special.read?` — the encoded message that a document stands for.
* `Special.write?` — the JSON value of an encoded message.
-/

namespace Switchboard.Proto

open Json Wire

/-- A message type with a JSON form of its own. -/
inductive Special where
  /-- A scalar in a message of its own. -/
  | wrapper (k : Scalar)
  /-- A message without fields. -/
  | empty
  /-- Any JSON value. -/
  | value
  /-- A JSON object. -/
  | struct
  /-- A JSON array. -/
  | list
  /-- A moment in the world's time. -/
  | timestamp
  /-- A number of seconds. -/
  | duration
  /-- The paths of some fields. -/
  | paths
  /-- A message of a type that it names itself. -/
  | any
  deriving DecidableEq, Repr, Inhabited

namespace Special

/-- The special types by name. -/
def names : List (String × Special) :=
  [("DoubleValue", .wrapper .double), ("FloatValue", .wrapper .float),
   ("Int64Value", .wrapper .int64), ("UInt64Value", .wrapper .uint64),
   ("Int32Value", .wrapper .int32), ("UInt32Value", .wrapper .uint32),
   ("BoolValue", .wrapper .bool), ("StringValue", .wrapper .string),
   ("BytesValue", .wrapper .bytes), ("Empty", .empty), ("Value", .value),
   ("Struct", .struct), ("ListValue", .list), ("Timestamp", .timestamp),
   ("Duration", .duration), ("FieldMask", .paths), ("Any", .any)]

/-- The special type with a full name. -/
def ofName? (name : String) : Option Special :=
  names.findSome? fun e => if name = "google.protobuf." ++ e.1 then some e.2 else none

/-! ### Reading -/

/-- The record of a byte string. -/
def inner (number : Nat) (rs : Records) : Nat × Payload := (number, .bytes (writeRecords rs))

mutual

/-- The records of a message that holds a JSON value, nested no deeper than
`room`. -/
def valueRecords? (room : Nat) : Document → Option Records
  | .null => some [(1, .varint 0)]
  | .bool b => some [(4, .varint b.toNat)]
  | .number n => n.map fun n => [(2, .fixed64 (doubleOfNumber n).bits.toNat)]
  | .string s => s.map fun s => [(3, .bytes (Text.Utf8.encode s))]
  | .object ms =>
    if room = 0 then none else (structRecords? (room - 1) ms).map fun rs => [inner 5 rs]
  | .array xs =>
    if room = 0 then none else (listRecords? (room - 1) xs).map fun rs => [inner 6 rs]

/-- The records of a message that holds the members of an object. -/
def structRecords? (room : Nat) : List (Option String × Document) → Option Records
  | [] => some []
  | (k, d) :: ms => do
    let k ← k
    let v ← valueRecords? room d
    let rest ← structRecords? room ms
    return inner 1 [(1, .bytes (Text.Utf8.encode k)), inner 2 v] :: rest

/-- The records of a message that holds the elements of an array. -/
def listRecords? (room : Nat) : List Document → Option Records
  | [] => some []
  | d :: ds => do
    let v ← valueRecords? room d
    let rest ← listRecords? room ds
    return inner 1 v :: rest

end

/-- The record of a scalar, unless it is what stands where there is none. -/
def unlessZero (number : Nat) (k : Scalar) (x : Datum) : Records :=
  if x.same k.zero then [] else [(number, k.payload x)]

/-- The records of a moment or a duration. -/
def momentRecords (m : Moment) : Records :=
  unlessZero 1 .int64 (.int m.seconds) ++ unlessZero 2 .int32 (.int m.nanos)

/-- The records of the message that a document stands for. -/
def records? (room : Nat) : Special → Document → Option Records
  | .wrapper k, d => (k.read? d).map (unlessZero 1 k)
  | .empty, .object [] => if room = 0 then none else some []
  | .value, d => valueRecords? room d
  | .struct, .object ms => if room = 0 then none else structRecords? (room - 1) ms
  | .list, .array xs => if room = 0 then none else listRecords? (room - 1) xs
  | .timestamp, .string (some s) => (Moment.ofTimestamp? s.toList).map momentRecords
  | .duration, .string (some s) => (Moment.ofDuration? s.toList).map momentRecords
  | .paths, .string (some s) =>
    (pathsOfText? s).map (·.map fun path => (1, .bytes (Text.Utf8.encode path)))
  | _, _ => none

/-- The encoded message that a document stands for. -/
def read? (room : Nat) (s : Special) (d : Document) : Option Bytes :=
  (s.records? room d).map writeRecords

/-! ### Writing -/

/-- The last payload under a number. -/
def last? (number : Nat) (rs : Records) : Option Payload :=
  (rs.reverse.find? (·.1 = number)).map Prod.snd

/-- The records within a byte string. -/
def within? (limit : Nat) : Payload → Option Records
  | .bytes bs => readRecords? limit bs
  | _ => none

/-- The name and the encoded value of an entry of a struct. -/
def pairOf? (limit : Nat) (p : Payload) : Option (String × Payload) := do
  let rs ← within? limit p
  let key ←
    match last? 1 rs with
    | some p => Scalar.ofPayload? .string p
    | none => some (.string "")
  match key with
  | .string k => return (k, (last? 2 rs).getD (.bytes []))
  | _ => none

/-- The payloads of the records of a message that has one repeated field. -/
def elements (rs : Records) : List Payload := (rs.filter (·.1 = 1)).map Prod.snd

/-- The JSON value in an encoded value. -/
def writeValue? : (limit : Nat) → Payload → Option Value
  | 0, _ => none
  | limit + 1, p => do
    match (← within? limit p).getLast? with
    | some (2, .fixed64 n) =>
      let x : Double := ⟨UInt64.ofNat n⟩
      if x.isFinite then some (.number (.double x)) else none
    | some (3, .bytes bs) => (Text.Utf8.decode? bs).map .string
    | some (4, .varint n) => some (.bool (n ≠ 0))
    | some (5, p) =>
      let entries ← (elements (← within? limit p)).mapM (pairOf? limit)
      let members ← entries.mapM fun e => (writeValue? limit e.2).map (e.1, ·)
      some (Value.ofMembers members)
    | some (6, p) =>
      ((elements (← within? limit p)).mapM (writeValue? limit)).map .array
    | _ => some .null

/-- The scalar under a number. -/
def scalar? (number : Nat) (k : Scalar) (rs : Records) : Option Datum :=
  match last? number rs with
  | some p => k.ofPayload? p
  | none => some k.zero

/-- The moment or the duration in the records of a message. -/
def moment? (rs : Records) : Option Moment := do
  match ← scalar? 1 .int64 rs, ← scalar? 2 .int32 rs with
  | .int seconds, .int nanos => return ⟨seconds, nanos⟩
  | _, _ => none

/-- The texts of the records of a message that has one repeated field. -/
def texts? (rs : Records) : Option (List String) :=
  (elements rs).mapM fun p =>
    match Scalar.ofPayload? .string p with
    | some (.string s) => some s
    | _ => none

/-- The JSON value of an encoded message. -/
def write? (limit : Nat) (s : Special) (bs : Bytes) : Option Value := do
  let rs ← readRecords? limit bs
  match s with
  | .wrapper k => (scalar? 1 k rs).map k.write
  | .empty => some (.object [])
  | .value => writeValue? limit (.bytes bs)
  | .struct =>
    let entries ← (elements rs).mapM (pairOf? limit)
    let members ← entries.mapM fun e => (writeValue? limit e.2).map (e.1, ·)
    some (Value.ofMembers members)
  | .list => ((elements rs).mapM (writeValue? limit)).map .array
  | .timestamp => (moment? rs).bind fun m => m.timestamp?.map .string
  | .duration => (moment? rs).bind fun m => m.duration?.map .string
  | .paths => (texts? rs).bind fun paths => (textOfPaths? paths).map .string
  | .any => none

/-! ### Messages that name their type -/

/-- The name of the member that holds the name of a type. -/
def typeName : String := "@type"

/-- The name of the member that holds a message with a form of its own. -/
def valueName : String := "value"

/-- The name of the message type that an address ends in, after its last slash. -/
def typeOf? (address : String) : Option String :=
  let name := address.toList.reverse.takeWhile (· ≠ '/')
  if name.length = address.length then none else some (String.ofList name.reverse)

/-- The address of the type that an object names. -/
def address? (ms : List (Option String × Document)) : Option String :=
  match ms.find? (·.1 = some typeName) with
  | some (_, .string s) => s
  | _ => none

/-- The records of a message that names its type. -/
def anyRecords (address : String) (content : Bytes) : Records :=
  unlessZero 1 .string (.string address) ++ unlessZero 2 .bytes (.bytes content)

/-- The address of the type and the message in an encoded message that names its
type. -/
def any? (limit : Nat) (bs : Bytes) : Option (String × Bytes) := do
  let rs ← readRecords? limit bs
  match ← scalar? 1 .string rs, ← scalar? 2 .bytes rs with
  | .string address, .bytes content => return (address, content)
  | _, _ => none

end Special

end Switchboard.Proto
