import Switchboard.Xml.Token
import Switchboard.Xml.Reference
import Switchboard.Text.Blank

/-!
# SOAP faults

A fault is an element of that name directly inside the body of an envelope.  Its
code, its string and its detail are the texts inside the children of those
names.

## Main definitions

* `Fault` — code, string and detail.
* `Search` — how far the search for a fault has come.
* `fault? bs` — the fault in a response, if there is one.
-/

namespace Switchboard.Soap

open Xml

/-- What a service says went wrong. -/
structure Fault where
  /-- The kind of fault. -/
  code : String
  /-- What went wrong, for people. -/
  string : String
  /-- What the service knows besides. -/
  detail : String
  deriving DecidableEq, Repr, Inhabited

/-- The text of a fault. -/
def Fault.message (f : Fault) : String :=
  "SOAP fault: [" ++ f.code ++ "] " ++ f.string ++ " - " ++ f.detail

/-- The parts of a fault. -/
inductive Fault.Part where
  /-- The kind of fault. -/
  | code
  /-- What went wrong. -/
  | string
  /-- What the service knows besides. -/
  | detail
  deriving DecidableEq, Repr, Inhabited

/-- The part of a fault that a child of the given name holds. -/
def Fault.Part.ofName? (name : String) : Option Fault.Part :=
  if name = "faultcode" then some .code
  else if name = "faultstring" then some .string
  else if name = "detail" then some .detail
  else none

/-- The texts of a fault that have been collected so far. -/
structure Collected where
  /-- Of the code. -/
  code : List Char
  /-- Of the string. -/
  string : List Char
  /-- Of the detail. -/
  detail : List Char
  deriving Repr, Inhabited

namespace Collected

/-- Nothing has been collected. -/
def none : Collected := ⟨[], [], []⟩

/-- Adds to the text of one part. -/
def add (c : Collected) (part : Fault.Part) (cs : List Char) : Collected :=
  match part with
  | .code => { c with code := c.code ++ cs }
  | .string => { c with string := c.string ++ cs }
  | .detail => { c with detail := c.detail ++ cs }

/-- The fault with the collected texts, trimmed. -/
def toFault (c : Collected) : Fault where
  code := String.ofList (Text.trimChars c.code)
  string := String.ofList (Text.trimChars c.string)
  detail := String.ofList (Text.trimChars c.detail)

end Collected

/-- How far the search for a fault has come. -/
structure Search where
  /-- The names of the open elements, innermost first. -/
  path : List String
  /-- What has been collected, once a fault has begun. -/
  found : Option Collected
  /-- The part that is being collected and the number of open elements at its
  start tag. -/
  part : Option (Fault.Part × Nat)
  deriving Repr, Inhabited

namespace Search

/-- Nothing has been read. -/
def start : Search := ⟨[], none, none⟩

/-- The search with a fault begun, if none was. -/
def begin (s : Search) : Search := { s with found := some (s.found.getD .none) }

/-- What a start tag does; nothing if the document is no envelope. -/
def open? (s : Search) (name : String) : Option Search :=
  let t := { s with path := name :: s.path }
  match t.path with
  | [root] => if root = "Envelope" then some t else none
  | [a, b, _] => some (if b = "Body" ∧ a = "Fault" then t.begin else t)
  | [a, b, _, _] =>
    some (if t.found.isSome ∧ b = "Fault" then
      { t with part := (Fault.Part.ofName? a).map fun p => (p, 4) } else t)
  | _ => some t

/-- What the tag of an element without content does. -/
def empty? (s : Search) (name : Bytes) : Option Search :=
  match s.path with
  | [] => if localName name = ascii "Envelope" then some s else none
  | [body, _] =>
    some (if body = "Body" ∧ localName name = ascii "Fault" then s.begin else s)
  | _ => some s

/-- What character data does; nothing if a reference in it stands for no
character. -/
def text? (s : Search) (bs : Bytes) : Option Search :=
  match s.part, s.found with
  | some (p, _), some c => do
    let cs ← textOf? bs
    return { s with found := some (c.add p cs) }
  | _, _ => some s

/-- What an end tag does. -/
def close (s : Search) : Search :=
  { s with
    path := s.path.tail
    part := s.part.filter fun p => p.2 ≠ s.path.length }

/-- What a token does; nothing if the document is no envelope. -/
def step (s : Search) : Token → Option Search
  | .open n => s.open? (localText n)
  | .empty n => s.empty? n
  | .text bs => s.text? bs
  | .close _ => some s.close
  | .cdata _ | .other => some s
  | .broken => none

end Search

/-- The fault in a document given by its tokens. -/
def faultOf? (ts : List Token) : Option Fault := do
  let s ← ts.foldlM Search.step Search.start
  return (← s.found).toFault

/-- The fault in a response; a document that is no well-formed envelope has
none. -/
def fault? (bs : Bytes) : Option Fault := faultOf? (tokens bs)

end Switchboard.Soap
