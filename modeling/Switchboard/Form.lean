import Switchboard.Json.Printer
import Switchboard.Failure
import Switchboard.Text.Percent

/-!
# Form fields

An object is sent as form fields: one pair for each member, or one for each
element of a member that is an array.

## Main definitions

* `fieldText v` — the text of a field's value.
* `pairs ms` — the fields of an object.
* `encode ps` — the body that holds the fields.
-/

namespace Switchboard.Form

open Json

/-- A character that stands as itself in a field. -/
def isPlain (c : Char) : Bool :=
  Text.Ascii.isAlphanumeric c || c = '*' || c = '-' || c = '.' || c = '_'

/-- The characters of a name or a value in a form: a space stands as a plus. -/
def encodePart (cs : List Char) : List Char :=
  cs.flatMap fun c => if c = ' ' then ['+'] else Text.Percent.encodeChars isPlain [c]

/-- The text of a field's value: a text as it is, nothing for null, compact JSON
for anything else. -/
def fieldText : Value → List Char
  | .string s => s.toList
  | .null => []
  | v => v.renderChars

/-- The fields of a member. -/
def memberPairs (m : String × Value) : List (List Char × List Char) :=
  match m.2 with
  | .array xs => xs.map fun x => (m.1.toList, fieldText x)
  | v => [(m.1.toList, fieldText v)]

/-- The fields of an object, in the order of its members. -/
def pairs (ms : Dictionary Value) : List (List Char × List Char) := ms.flatMap memberPairs

/-- One field of a body. -/
def encodePair (p : List Char × List Char) : List Char :=
  encodePart p.1 ++ '=' :: encodePart p.2

/-- The body that holds a list of fields. -/
def encode (ps : List (List Char × List Char)) : List Char :=
  ['&'].intercalate (ps.map encodePair)

/-- Only an object can be sent as fields. -/
def unsupported (v : Value) : Failure := .encode ("unsupported form body type: " ++ v.kind)

/-- The body that holds a value as fields. -/
def body (v : Value) : Except Failure Bytes :=
  match v with
  | .object ms => .ok (Text.Utf8.encodeChars (encode (pairs ms)))
  | v => .error (unsupported v)

@[simp] theorem encode_nil : encode [] = [] := rfl

end Switchboard.Form
