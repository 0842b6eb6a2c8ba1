import Switchboard.Json.Document

/-!
# Typed reading of documents

A record is written as an object with the names of its fields or as an array of
its fields in their order.  Other members are skipped, but a known field may not
be given twice.  Formats differ in what stands for nothing, and in whether an
array may be longer than the record.

## Main definitions

* `Document.Rules` — where formats differ.
* `Document.Shape` — the fields given for a record.
* `Document.record?` — the shape of a document, read against the field names.
* `Document.text?`, `Document.integer?`, `Document.optional?`, … — readers of
  fields.
-/

namespace Switchboard.Json.Document

/-- Where formats differ in how records and cases are written. -/
structure Rules where
  /-- What may stand where a case has no payload. -/
  isNothing : Document → Bool
  /-- Whether elements after the last field are skipped. -/
  skipsRest : Bool

/-- JSON writes nothing as `null`, and an array has no more elements than the
record has fields. -/
def Rules.json : Rules := ⟨isNull, false⟩

/-- The fields that a document gives for a record: one entry for each field name,
in order. -/
abbrev Shape := List (Option Document)

/-- Adds a member to the fields read so far. -/
def addMember (names : List String) (shape : Shape)
    (m : Option String × Document) : Option Shape := do
  let k ← m.1
  match names.idxOf? k with
  | none => some shape
  | some i =>
    match shape[i]? with
    | some none => some (shape.set i (some m.2))
    | _ => none

/-- The fields given by an object; a name without a value or a field given twice
is an error. -/
def ofMembers? (names : List String) (ms : List (Option String × Document)) :
    Option Shape :=
  ms.foldlM (addMember names) (names.map fun _ => none)

/-- The fields given by an array; the rules say whether more elements than fields
are an error. -/
def ofElements? (rules : Rules) (names : List String) (xs : List Document) :
    Option Shape :=
  if xs.length ≤ names.length ∨ rules.skipsRest then
    some ((xs.take names.length).map some
      ++ List.replicate (names.length - xs.length) none)
  else none

/-- The fields that a document gives for a record with the given field names. -/
def record? (names : List String) (d : Document) (rules : Rules := .json) : Option Shape :=
  match d with
  | .object ms => ofMembers? names ms
  | .array xs => ofElements? rules names xs
  | _ => none

/-! ### Fields -/

/-- The text of a quoted text. -/
def text? : Document → Option String
  | .string s => s
  | _ => none

/-- The truth value. -/
def bool? : Document → Option Bool
  | .bool b => some b
  | _ => none

/-- An integer between the two bounds, written without point and exponent. -/
def integer? (low high : Int) : Document → Option Int
  | .number (some (.int i)) => if low ≤ i ∧ i ≤ high then some i else none
  | _ => none

/-- A signed integer of sixty-four bits. -/
def signed64? : Document → Option Int := integer? (-(2 ^ 63)) (2 ^ 63 - 1)

/-- A field that may be null. -/
def optional? {α : Type} (read : Document → Option α) : Document → Option (Option α)
  | .null => some none
  | d => (read d).map some

/-- The elements of an array, each read in the same way. -/
def list? {α : Type} (read : Document → Option α) : Document → Option (List α)
  | .array xs => xs.mapM read
  | _ => none

/-- The name of a case without a payload: a text, or an object whose only member
holds nothing. -/
def case? (d : Document) (rules : Rules := .json) : Option String :=
  match d with
  | .string s => s
  | .object [(k, payload)] => if rules.isNothing payload then k else none
  | _ => none

/-- A field that has to be given. -/
def required? {α : Type} (read : Document → Option α) (d : Option Document) : Option α :=
  d.bind read

/-- A field that has a default. -/
def withDefault? {α : Type} (default : α) (read : Document → Option α) :
    Option Document → Option α
  | none => some default
  | some d => read d

end Switchboard.Json.Document
