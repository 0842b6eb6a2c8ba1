import Switchboard.Xml.Token
import Switchboard.Xml.Reference
import Switchboard.Text.Blank
import Switchboard.Failure

/-!
# The fields of a SOAP envelope

A SOAP body is flattened into a map from element names to texts: an element that
contains no element and whose text is not blank gives one entry, under its name
without the namespace part, and a later element of one name replaces an earlier
one.

## Main definitions

* `Reading` — how far the reader has come.
* `Reading.step` — what a token does.
* `fields bs` — the fields of an envelope.
-/

namespace Switchboard.Soap

open Xml

/-- How far the reader of an envelope has come. -/
structure Reading where
  /-- The number of open elements. -/
  depth : Nat
  /-- Whether an envelope has begun. -/
  sawEnvelope : Bool
  /-- Whether the reader is inside the body of an envelope, which is always its
  second level. -/
  inBody : Bool
  /-- The element whose text is being collected; empty if there is none. -/
  current : String
  /-- The text collected so far. -/
  text : List Char
  /-- The fields found so far. -/
  found : Dictionary String
  deriving Repr, Inhabited

namespace Reading

/-- Nothing has been read. -/
def start : Reading := ⟨0, false, false, "", [], []⟩

/-- The reader no longer collects text. -/
def forget (r : Reading) : Reading := { r with current := "", text := [] }

/-- A document with another root is no envelope. -/
def notEnvelope (tag : String) : Failure :=
  .decode ("expected SOAP Envelope root, found " ++ tag)

/-- What a start tag does. -/
def open? (r : Reading) (name : String) : Except Failure Reading :=
  let r := { r with depth := r.depth + 1 }
  if r.depth = 1 then
    if name = "Envelope" then .ok { r with sawEnvelope := true }
    else .error (notEnvelope ("<" ++ name ++ ">"))
  else if r.depth = 2 ∧ r.inBody = false ∧ name = "Body" then .ok { r with inBody := true }
  else if r.inBody ∧ 2 < r.depth then .ok { r with current := name, text := [] }
  else .ok r

/-- What the tag of an element without content does. -/
def empty? (r : Reading) (name : String) : Except Failure Reading :=
  if r.depth = 0 then
    if name = "Envelope" then .ok { r.forget with sawEnvelope := true }
    else .error (notEnvelope ("<" ++ name ++ "/>"))
  else .ok r.forget

/-- Adds to the text of the current element, if there is one. -/
def collect (r : Reading) (cs : List Char) : Reading :=
  if r.current = "" then r else { r with text := r.text ++ cs }

/-- What an end tag does. -/
def close (r : Reading) : Reading :=
  let value := Text.trimChars r.text
  let found :=
    if r.inBody ∧ 2 < r.depth ∧ r.current ≠ "" ∧ value ≠ [] then
      Dictionary.insert r.current (String.ofList value) r.found
    else r.found
  { depth := r.depth - 1, sawEnvelope := r.sawEnvelope
    inBody := r.inBody && r.depth ≠ 2, current := "", text := [], found }

/-- What a token does.  The references in a text are looked at only where the
text is collected. -/
def step (r : Reading) : Token → Except Failure Reading
  | .open n => r.open? (localText n)
  | .empty n => r.empty? (localText n)
  | .text bs =>
    if r.current = "" then .ok r
    else
      match textOf? bs with
      | some cs => .ok (r.collect cs)
      | none => .error (.decode "invalid SOAP text")
  | .cdata bs => .ok (r.collect (Text.Utf8.decodeCharsLossy bs))
  | .close _ => .ok r.close
  | .other => .ok r
  | .broken => .error (.decode "invalid SOAP XML")

@[simp] theorem step_other (r : Reading) : r.step .other = .ok r := rfl

@[simp] theorem step_close (r : Reading) (n : Bytes) : r.step (.close n) = .ok r.close := rfl

end Reading

/-- The fields of an envelope given by its tokens. -/
def fieldsOf (ts : List Token) : Except Failure (Dictionary String) :=
  match ts.foldlM Reading.step Reading.start with
  | .error f => .error f
  | .ok r =>
    if r.sawEnvelope then .ok r.found
    else .error (.decode "document has no SOAP Envelope")

/-- The fields of an envelope. -/
def fields (bs : Bytes) : Except Failure (Dictionary String) :=
  fieldsOf (tokens bs)

end Switchboard.Soap
