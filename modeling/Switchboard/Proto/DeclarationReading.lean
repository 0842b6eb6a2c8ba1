import Switchboard.Proto.Declaration
import Switchboard.Proto.Encoding

/-!
# Declarations on the wire

A server describes its types by encoded declarations, which are messages
themselves: of a field that may occur once the last occurrence counts, and
numbers that are not known are passed over.

## Main definitions

* `last?`, `all?` — the payloads of a field.
* `FileDecl.decode?` — the file that a byte string declares.
-/

namespace Switchboard.Proto

open Wire

namespace Reading

/-- What the last payload under a number says, if there is one; every payload has
to be readable. -/
def last? {α : Type} (number : Nat) (read : Payload → Option α) (rs : Records) :
    Option (Option α) :=
  ((rs.filter (·.1 = number)).mapM fun r => read r.2).map List.getLast?

/-- What the payloads under a number say. -/
def all? {α : Type} (number : Nat) (read : Payload → Option α) (rs : Records) :
    Option (List α) :=
  (rs.filter (·.1 = number)).mapM fun r => read r.2

/-- The text of a payload. -/
def text? : Payload → Option String
  | .bytes bs => Text.Utf8.decode? bs
  | _ => none

/-- The number of a payload. -/
def int? : Payload → Option Int
  | .varint n => some (Scalar.signed 32 n)
  | _ => none

/-- The truth value of a payload. -/
def bool? : Payload → Option Bool
  | .varint n => some (n ≠ 0)
  | _ => none

/-- The records within a payload. -/
def within? (limit : Nat) : Payload → Option Records
  | .bytes bs => readRecords? limit bs
  | _ => none

/-- The option that is a truth value under a number, among options under another
number. -/
def option? (limit options number : Nat) (rs : Records) : Option (Option Bool) := do
  last? number bool? (← all? options (within? limit) rs).flatten

/-- The type with a number. -/
def typeOf? (n : Int) : Option DeclaredType :=
  let types : List DeclaredType :=
    [.scalar .double, .scalar .float, .scalar .int64, .scalar .uint64, .scalar .int32,
     .scalar .fixed64, .scalar .fixed32, .scalar .bool, .scalar .string, .group, .message,
     .scalar .bytes, .scalar .uint32, .enumeration, .scalar .sfixed32, .scalar .sfixed64,
     .scalar .sint32, .scalar .sint64]
  if n ≤ 0 then none else types[n.toNat - 1]?

/-- The label with a number. -/
def labelOf (n : Int) : Label :=
  if n = 3 then .repeated else if n = 2 then .required else .optional

/-- The field that records declare. -/
def field? (limit : Nat) (p : Payload) : Option FieldDecl := do
  let rs ← within? limit p
  let label ← last? 4 int? rs
  let type ← last? 5 int? rs
  return {
    name := (← last? 1 text? rs).getD ""
    number := (← last? 3 int? rs).getD 0
    type := type.bind typeOf?
    typeName := ← last? 6 text? rs
    label := labelOf (label.getD 1)
    jsonName := ← last? 10 text? rs
    oneof := ← last? 9 int? rs
    marked := (← last? 17 bool? rs).getD false
    default := ← last? 7 text? rs
    packed := ← option? limit 8 2 rs }

/-- The name that records give to something without further parts of interest. -/
def named? (limit : Nat) (p : Payload) : Option String := do
  return (← last? 1 text? (← within? limit p)).getD ""

/-- The value of an enum that records declare. -/
def enumValue? (limit : Nat) (p : Payload) : Option (String × Int) := do
  let rs ← within? limit p
  return ((← last? 1 text? rs).getD "", (← last? 2 int? rs).getD 0)

/-- The enum that records declare. -/
def enum? (limit : Nat) (p : Payload) : Option EnumDecl := do
  let rs ← within? limit p
  return {
    name := (← last? 1 text? rs).getD ""
    values := ← all? 2 (enumValue? limit) rs
    allowAlias := (← option? limit 3 2 rs).getD false }

/-- The message type that records declare. -/
def message? : (limit : Nat) → Payload → Option MessageDecl
  | 0, _ => none
  | limit + 1, p => do
    let rs ← within? limit p
    return .mk ((← last? 1 text? rs).getD "") (← all? 2 (field? limit) rs)
      (← all? 3 (message? limit) rs) (← all? 4 (enum? limit) rs)
      (← all? 8 (named? limit) rs) ((← option? limit 7 7 rs).getD false)

/-- The method that records declare. -/
def method? (limit : Nat) (p : Payload) : Option MethodDecl := do
  let rs ← within? limit p
  return {
    name := (← last? 1 text? rs).getD ""
    input := (← last? 2 text? rs).getD ""
    output := (← last? 3 text? rs).getD ""
    clientStreaming := (← last? 5 bool? rs).getD false
    serverStreaming := (← last? 6 bool? rs).getD false }

/-- The service that records declare. -/
def service? (limit : Nat) (p : Payload) : Option ServiceDecl := do
  let rs ← within? limit p
  return ⟨(← last? 1 text? rs).getD "", ← all? 2 (method? limit) rs⟩

end Reading

open Reading in
/-- The file that a byte string declares. -/
def FileDecl.decode? (bs : Bytes) : Option FileDecl := do
  let limit := Pool.maxNesting
  let rs ← readRecords? limit bs
  return {
    name := (← last? 1 text? rs).getD ""
    package := (← last? 2 text? rs).getD ""
    dependencies := ← all? 3 text? rs
    passedOn := ← all? 10 int? rs
    version := ← last? 12 text? rs
    messages := ← all? 4 (message? limit) rs
    enums := ← all? 5 (enum? limit) rs
    services := ← all? 6 (service? limit) rs }

end Switchboard.Proto
