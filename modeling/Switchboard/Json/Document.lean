import Switchboard.Json.Token

/-!
# JSON documents

A document is a JSON text as it is written: members in their order, repeated
names and all.  It becomes a value when every number and text in it has one; a
typed reader may instead pick the members it knows and skip the rest.

## Main definitions

* `Document` — the tree of a text.
* `Document.ofTokens?` — the tree of a list of tokens.
* `Document.value?` — the value of a document that is nested no deeper than
  `maxDepth`.
* `Value.ofText?`, `Value.ofBytes?` — the value of a text.
-/

namespace Switchboard.Json

/-- The tree of a JSON text. -/
inductive Document where
  /-- The word `null`. -/
  | null
  /-- The word `true` or `false`. -/
  | bool (b : Bool)
  /-- A number. -/
  | number (n : Option Number)
  /-- A quoted text. -/
  | string (s : Option String)
  /-- The elements between square brackets. -/
  | array (xs : List Document)
  /-- The members between braces, as they are written. -/
  | object (ms : List (Option String × Document))
  deriving Repr, Inhabited

namespace Document

/-- Whether a document is the word `null`. -/
def isNull : Document → Bool
  | .null => true
  | _ => false

/-! ### From tokens to documents -/

/-- An array or an object that is not closed yet, with what has been read of it
in reverse. -/
inductive Frame where
  /-- An array before its next element. -/
  | array (before : List Document)
  /-- An object before the value of the member `name`. -/
  | object (before : List (Option String × Document)) (name : Option String)

/-- What may come next; the frames around it are listed from the inside. -/
inductive State where
  /-- A value. -/
  | value (outer : List Frame)
  /-- The first element of an array, or its end. -/
  | firstElement (outer : List Frame)
  /-- The first name in an object, or its end. -/
  | firstName (outer : List Frame)
  /-- The next name in an object. -/
  | name (before : List (Option String × Document)) (outer : List Frame)
  /-- The colon after a name. -/
  | colon (before : List (Option String × Document)) (name : Option String)
    (outer : List Frame)
  /-- A comma in an array, or its end. -/
  | afterElement (before : List Document) (outer : List Frame)
  /-- A comma in an object, or its end. -/
  | afterMember (before : List (Option String × Document)) (outer : List Frame)
  /-- Nothing: the document is complete. -/
  | done (d : Document)

/-- The state after the value `d` has been read. -/
def complete (d : Document) : List Frame → State
  | [] => .done d
  | .array before :: outer => .afterElement (d :: before) outer
  | .object before name :: outer => .afterMember ((name, d) :: before) outer

/-- The state after the first token of a value. -/
def start (outer : List Frame) : Token → Option State
  | .null => some (complete .null outer)
  | .bool b => some (complete (.bool b) outer)
  | .number n => some (complete (.number n) outer)
  | .string s => some (complete (.string s) outer)
  | .openArray => some (.firstElement outer)
  | .openObject => some (.firstName outer)
  | _ => none

/-- The state after a token, if the token may stand there. -/
def step : State → Token → Option State
  | .value outer, t => start outer t
  | .firstElement outer, .closeArray => some (complete (.array []) outer)
  | .firstElement outer, t => start (.array [] :: outer) t
  | .firstName outer, .closeObject => some (complete (.object []) outer)
  | .firstName outer, .string s => some (.colon [] s outer)
  | .name before outer, .string s => some (.colon before s outer)
  | .colon before name outer, .colon => some (.value (.object before name :: outer))
  | .afterElement before outer, .comma => some (.value (.array before :: outer))
  | .afterElement before outer, .closeArray =>
    some (complete (.array before.reverse) outer)
  | .afterMember before outer, .comma => some (.name before outer)
  | .afterMember before outer, .closeObject =>
    some (complete (.object before.reverse) outer)
  | _, _ => none

/-- The document that a list of tokens spells. -/
def ofTokens? (ts : List Token) : Option Document :=
  match ts.foldlM step (.value []) with
  | some (.done d) => some d
  | _ => none

/-- The document of a text. -/
def ofText? (cs : List Char) : Option Document := do
  ofTokens? (← Token.ofText? cs)

/-! ### From documents to values -/

/-- The greatest number of arrays and objects around a value. -/
def maxDepth : Nat := 127

mutual

/-- The number of arrays and objects around the innermost value. -/
def depth : Document → Nat
  | .null | .bool _ | .number _ | .string _ => 0
  | .array xs => depthAll xs + 1
  | .object ms => depthMembers ms + 1

/-- The greatest depth in a list of documents. -/
def depthAll : List Document → Nat
  | [] => 0
  | x :: xs => max x.depth (depthAll xs)

/-- The greatest depth among the values of a list of members. -/
def depthMembers : List (Option String × Document) → Nat
  | [] => 0
  | (_, d) :: ms => max d.depth (depthMembers ms)

end

mutual

/-- The value that a document stands for, if every number and text in it has
one.  Of members with one name the last counts. -/
def content? : Document → Option Value
  | .null => some .null
  | .bool b => some (.bool b)
  | .number n => n.map .number
  | .string s => s.map .string
  | .array xs => (contentAll? xs).map .array
  | .object ms => (contentMembers? ms).map Value.ofMembers

/-- The values of a list of documents. -/
def contentAll? : List Document → Option (List Value)
  | [] => some []
  | x :: xs => do return (← x.content?) :: (← contentAll? xs)

/-- The names and values of a list of members. -/
def contentMembers? : List (Option String × Document) → Option (List (String × Value))
  | [] => some []
  | (k, d) :: ms => do return (← k, ← d.content?) :: (← contentMembers? ms)

end

/-- The value of a document that is not nested too deeply. -/
def value? (d : Document) : Option Value :=
  if d.depth ≤ maxDepth then d.content? else none

mutual

/-- The document that spells a value. -/
def ofValue : Value → Document
  | .null => .null
  | .bool b => .bool b
  | .number n => .number (some n)
  | .string s => .string (some s)
  | .array xs => .array (ofValues xs)
  | .object ms => .object (ofValueMembers ms)

/-- The documents that spell a list of values. -/
def ofValues : List Value → List Document
  | [] => []
  | x :: xs => ofValue x :: ofValues xs

/-- The members that spell a list of named values. -/
def ofValueMembers : List (String × Value) → List (Option String × Document)
  | [] => []
  | (k, v) :: ms => (some k, ofValue v) :: ofValueMembers ms

end

end Document

namespace Value

/-- The value of a JSON text. -/
def ofText? (cs : List Char) : Option Value := do
  (← Document.ofText? cs).value?

/-- The value of a JSON text given as bytes. -/
def ofBytes? (bs : Bytes) : Option Value := do
  ofText? (← Text.Utf8.decodeChars? bs)

end Value

end Switchboard.Json
