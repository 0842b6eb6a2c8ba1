import Switchboard.Call.Response
import Switchboard.Text.Utf8

/-!
# Headers

The names of headers are compared without regard to the case of their letters
and stand in lower case on the wire.

## Main definitions

* `IsHeaderName`, `IsHeaderValue` — what may stand on the wire.
* `wireHeaders` — the headers of a request, as they are sent.
* `receivedHeaders` — the headers of a response, as the caller sees them.
-/

namespace Switchboard.Http

/-- The marks that may stand in a token besides letters and digits. -/
def tokenMarks : List Char :=
  ['!', '#', '$', '%', '&', '\'', '*', '+', '-', '.', '^', '_', '|', '~', Char.ofNat 96]

/-- A character that may stand in a token. -/
def isTokenChar (c : Char) : Bool :=
  Text.Ascii.isAlphanumeric c || tokenMarks.contains c

/-- A token: at least one character, all of them token characters. -/
def IsToken (s : String) : Prop :=
  s.toList ≠ [] ∧ ∀ c ∈ s.toList, isTokenChar c

instance (s : String) : Decidable (IsToken s) :=
  @instDecidableAnd _ _ _ (List.decidableBAll _ s.toList)

/-- The greatest length of a header's name. -/
def maxNameLength : Nat := 65535

/-- The name of a header is a token that is not too long. -/
def IsHeaderName (s : String) : Prop :=
  IsToken s ∧ s.toList.length ≤ maxNameLength

instance (s : String) : Decidable (IsHeaderName s) :=
  inferInstanceAs (Decidable (_ ∧ _))

/-- The value of a header has no control character but the tabulator. -/
def IsHeaderValue (s : String) : Prop :=
  ∀ c ∈ s.toList, c = '\t' ∨ (0x20 ≤ c.toNat ∧ c.toNat ≠ 0x7F)

instance (s : String) : Decidable (IsHeaderValue s) :=
  List.decidableBAll _ s.toList

/-! ### Sending -/

/-- Adds a header to those that are sent, in place of one of the same name. -/
def addWireHeader (sent : Dictionary String) (h : String × String) :
    Except Failure (Dictionary String) :=
  if ¬ IsHeaderName h.1 then .error (.validation ("invalid header name: " ++ h.1))
  else if ¬ IsHeaderValue h.2 then
    .error (.validation ("invalid value for header " ++ h.1))
  else .ok (Dictionary.insert (Text.Ascii.lower h.1) h.2 sent)

/-- The headers of a request as they are sent, or the first in the order of the
names that cannot be. -/
def wireHeaders (headers : Dictionary String) : Except Failure (Dictionary String) :=
  headers.foldlM addWireHeader []

@[simp] theorem wireHeaders_nil : wireHeaders [] = .ok [] := rfl

/-! ### Receiving -/

/-- Adds a received header after those of the same name. -/
def addReceived (seen : HeaderMap) (h : String × Bytes) : HeaderMap :=
  let name := Text.Ascii.lower h.1
  Dictionary.insert name
    ((Dictionary.get? name seen).getD [] ++ [Text.Utf8.decodeLossy h.2]) seen

/-- The headers of a response: the values under each name, in the order they
came. -/
def receivedHeaders (pairs : List (String × Bytes)) : HeaderMap :=
  pairs.foldl addReceived []

@[simp] theorem receivedHeaders_nil : receivedHeaders [] = [] := rfl

end Switchboard.Http
