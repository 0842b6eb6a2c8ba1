import Switchboard.Json.Number
import Switchboard.Proto.Schema

/-!
# Encoding messages

A message becomes the records of its contents, in the order of their numbers, and
records become bytes.  Reading takes the records one by one into a message: a
later value replaces an earlier one, messages are merged, lists are continued.

## Main definitions

* `Scalar.payload`, `Scalar.ofPayload?` — a scalar and its payload.
* `Scalar.ofKey?`, `Datum.keyText` — a key of a map and its text.
* `Pool.encode` — the bytes of a message.
* `Pool.decode?` — the message of a byte string.
-/

namespace Switchboard.Proto

open Wire

/-! ### Scalars -/

/-- The forms of the payloads of scalars. -/
inductive Form where
  /-- A number in groups of seven bits. -/
  | varint
  /-- Eight bytes. -/
  | fixed64
  /-- Four bytes. -/
  | fixed32
  /-- A byte string. -/
  | bytes
  deriving DecidableEq, Repr, Inhabited

namespace Scalar

/-- The form of the payloads of a kind. -/
def form : Scalar → Form
  | .double | .fixed64 | .sfixed64 => .fixed64
  | .float | .fixed32 | .sfixed32 => .fixed32
  | .string | .bytes => .bytes
  | _ => .varint

/-- An integer modulo a power of two. -/
def wrapped (bits : Nat) (i : Int) : Nat := (i % 2 ^ bits).toNat

/-- The payload of a scalar. -/
def payload : Scalar → Datum → Payload
  | .double, .double x => .fixed64 x.bits.toNat
  | .float, .single x => .fixed32 x.bits.toNat
  | .bool, .bool b => .varint b.toNat
  | .string, .string s => .bytes (Text.Utf8.encode s)
  | .bytes, .bytes bs => .bytes bs
  | .sint32, .int i | .sint64, .int i => .varint (zigzag i)
  | .fixed32, .int i | .sfixed32, .int i => .fixed32 (wrapped 32 i)
  | .fixed64, .int i | .sfixed64, .int i => .fixed64 (wrapped 64 i)
  | _, .int i => .varint (wrapped 64 i)
  | _, _ => .varint 0

/-- The signed number whose lowest bits are those of a natural number. -/
def signed (bits n : Nat) : Int := Int.bmod n (2 ^ bits)

/-- The scalar of a payload, if its form is right; a number that is too large
loses its high bits. -/
def ofPayload? : Scalar → Payload → Option Datum
  | .double, .fixed64 n => some (.double ⟨UInt64.ofNat n⟩)
  | .float, .fixed32 n => some (.single ⟨UInt32.ofNat n⟩)
  | .bool, .varint n => some (.bool (n ≠ 0))
  | .string, .bytes bs => (Text.Utf8.decode? bs).map .string
  | .bytes, .bytes bs => some (.bytes bs)
  | .int32, .varint n => some (.int (signed 32 n))
  | .int64, .varint n => some (.int (signed 64 n))
  | .uint32, .varint n => some (.int (n % 2 ^ 32 : Nat))
  | .uint64, .varint n => some (.int n)
  | .sint32, .varint n => some (.int (unzigzag (n % 2 ^ 32)))
  | .sint64, .varint n => some (.int (unzigzag n))
  | .fixed32, .fixed32 n => some (.int n)
  | .sfixed32, .fixed32 n => some (.int (signed 32 n))
  | .fixed64, .fixed64 n => some (.int n)
  | .sfixed64, .fixed64 n => some (.int (signed 64 n))
  | _, _ => none

/-- The key of a map that a text spells. -/
def ofKey? (k : Scalar) (s : String) : Option Datum :=
  match k with
  | .string => some (.string s)
  | .bool =>
    if s = "true" then some (.bool true)
    else if s = "false" then some (.bool false)
    else none
  | k => k.bounds?.bind fun (low, high) => (integerOf? low high s).map .int

end Scalar

/-- The text of a key of a map. -/
def Datum.keyText : Datum → String
  | .string s => s
  | .bool b => if b then "true" else "false"
  | .int i => String.ofList (Json.Number.renderInt i)
  | _ => ""

namespace FieldType

/-- The form of the payloads of a type that may be packed. -/
def form : FieldType → Form
  | .scalar k => k.form
  | .enumeration _ => .varint
  | .message _ | .group _ => .bytes

end FieldType

/-! ### Writing -/

/-- The bytes of a payload without a key. -/
def bare : Payload → Bytes
  | .varint n => Wire.varint n
  | .fixed64 n => fixed 8 n
  | .fixed32 n => fixed 4 n
  | .bytes bs => bs
  | .group _ => []

namespace Pool

mutual

/-- The payload of a value. -/
def payload (p : Pool) : FieldType → Datum → Payload
  | .message name, .message m => .bytes (writeRecords (contentRecords p (p.message? name) m))
  | .group name, .message m => .group (contentRecords p (p.message? name) m)
  | .enumeration _, .int i => .varint (Scalar.wrapped 64 i)
  | .scalar k, .bool b => k.payload (.bool b)
  | .scalar k, .int i => k.payload (.int i)
  | .scalar k, .single x => k.payload (.single x)
  | .scalar k, .double x => k.payload (.double x)
  | .scalar k, .string s => k.payload (.string s)
  | .scalar k, .bytes bs => k.payload (.bytes bs)
  | _, _ => .varint 0

/-- The payloads of a list of values. -/
def payloads (p : Pool) (type : FieldType) : List Datum → List Payload
  | [] => []
  | d :: ds => payload p type d :: payloads p type ds

/-- The payloads of the entries of a map: a message with the key and the value,
each left out where it is the default of a scalar. -/
def entryPayloads (p : Pool) (key : Scalar) (f : Field) : List (String × Datum) → List Payload
  | [] => []
  | (k, d) :: es =>
    let keyRecord :=
      match key.ofKey? k with
      | some k => if k.same key.zero then [] else [(1, key.payload k)]
      | none => []
    let valueRecord := if d.same f.default then [] else [(2, payload p f.type d)]
    .bytes (writeRecords (keyRecord ++ valueRecord)) :: entryPayloads p key f es

/-- The payloads of a content. -/
def contentPayloads (p : Pool) (f : Option Field) : Content → List Payload
  | .one d =>
    match f with
    | some f => if f.carries d then [payload p f.type d] else []
    | none => []
  | .list ds =>
    match f with
    | some f =>
      if f.packed then [.bytes ((payloads p f.type ds).flatMap bare)]
      else payloads p f.type ds
    | none => []
  | .map es =>
    match f with
    | some f =>
      match f.shape with
      | .map key => entryPayloads p key f es
      | _ => []
    | none => []
  | .unknown ps => ps

/-- The records of the contents of a message. -/
def contentRecords (p : Pool) (t : Option MessageType) : List (Nat × Content) → Records
  | [] => []
  | (n, c) :: m =>
    (contentPayloads p (t.bind (·.field? n)) c).map (n, ·) ++ contentRecords p t m

end

/-- The bytes of a message of the given type. -/
def encode (p : Pool) (t : MessageType) (m : Message) : Bytes :=
  writeRecords (p.contentRecords (some t) m)

/-! ### Reading -/

/-- Takes up one more payload for a value of the given type. -/
abbrev Merge := FieldType → Datum → Payload → Option Datum

/-- The payloads of several values in one byte string. -/
def unpacked? (form : Form) (bs : Bytes) : Option (List Payload) :=
  match form with
  | .varint => (readVarints? bs).map (·.map .varint)
  | .fixed64 => (readFixed? 8 bs).map (·.map .fixed64)
  | .fixed32 => (readFixed? 4 bs).map (·.map .fixed32)
  | .bytes => none

/-- The values that a payload adds to a list. -/
def elements? (merge : Merge) (f : Field) : Payload → Option (List Datum)
  | .bytes bs =>
    match f.type.form with
    | .bytes => (merge f.type f.default (.bytes bs)).map ([·])
    | form => (unpacked? form bs).bind (·.mapM (merge f.type f.default))
  | payload => (merge f.type f.default payload).map ([·])

/-- Takes one record into the key and the value of an entry. -/
def mergeEntry (merge : Merge) (key : Scalar) (type : FieldType) (entry : Datum × Datum)
    (record : Nat × Payload) : Option (Datum × Datum) :=
  match record with
  | (1, payload) => (key.ofPayload? payload).map (·, entry.2)
  | (2, payload) => (merge type entry.2 payload).map (entry.1, ·)
  | _ => some entry

/-- The content of a field after one more payload. -/
def mergeContent (limit : Nat) (merge : Merge) (f : Field) (old : Option Content)
    (payload : Payload) : Option Content :=
  match f.shape with
  | .single =>
    let old := match old with
      | some (.one d) => d
      | _ => f.default
    (merge f.type old payload).map .one
  | .list =>
    let old := match old with
      | some (.list ds) => ds
      | _ => []
    (elements? merge f payload).map fun ds => .list (old ++ ds)
  | .map key =>
    let old : Dictionary Datum := match old with
      | some (.map es) => es
      | _ => []
    match payload with
    | .bytes bs => do
      let records ← readRecords? limit bs
      let entry ← records.foldlM (mergeEntry merge key f.type) (key.zero, f.default)
      return .map (Dictionary.insert entry.1.keyText entry.2 old)
    | _ => none

/-- The message after one more record.  What its type does not know is kept under
its number. -/
def mergeRecord (limit : Nat) (merge : Merge) (t : MessageType) (m : Message)
    (record : Nat × Payload) : Option Message :=
  match t.field? record.1 with
  | some f =>
    (mergeContent limit merge f (m.get? f.number) record.2).map fun c => m.set t f c
  | none =>
    let old := match m.get? record.1 with
      | some (.unknown ps) => ps
      | _ => []
    some (m.put record.1 (.unknown (old ++ [record.2])))

/-- The value of a type after one more payload.  Messages are nested no deeper
than `limit`. -/
def mergeDatum (p : Pool) : (limit : Nat) → Merge
  | _, .scalar k, _, payload => k.ofPayload? payload
  | _, .enumeration _, _, .varint n => some (.int (Scalar.signed 32 n))
  | limit + 1, .message name, .message m, .bytes bs => do
    let t ← p.message? name
    let records ← readRecords? limit bs
    return .message (← records.foldlM (mergeRecord limit (mergeDatum p limit) t) m)
  | limit + 1, .group name, .message m, .group records => do
    let t ← p.message? name
    return .message (← records.foldlM (mergeRecord limit (mergeDatum p limit) t) m)
  | _, _, _, _ => none

/-- The greatest depth of messages within a message. -/
def maxNesting : Nat := 100

/-- The message of the given type after the records of a byte string. -/
def merge? (p : Pool) (t : MessageType) (m : Message) (bs : Bytes) : Option Message := do
  (← readRecords? maxNesting bs).foldlM
    (mergeRecord maxNesting (p.mergeDatum maxNesting) t) m

/-- The message of the given type that a byte string encodes. -/
def decode? (p : Pool) (t : MessageType) (bs : Bytes) : Option Message := p.merge? t [] bs

end Pool

end Switchboard.Proto
