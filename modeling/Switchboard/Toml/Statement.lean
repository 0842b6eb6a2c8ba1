import Switchboard.Toml.Scalar
import Switchboard.Toml.Table
import Switchboard.Toml.Token

/-!
# The statements of TOML

A statement gives a key its value, or is the header of a table or of an element
of an array of tables.

## Main definitions

* `Statement` — what a line says.
* `key?` — the names of a dotted key.
* `value?` — the value at the front of a list of tokens.
* `Statement.ofTokens?` — all statements of a text.
-/

namespace Switchboard.Toml

open Switchboard.Json

/-! ### Blanks -/

/-- What follows the blanks at the front. -/
def skipBlanks (ts : List Token) : List Token :=
  ts.dropWhile fun t => t matches .blank _

/-- What follows the blanks and line ends at the front. -/
def skipLines (ts : List Token) : List Token :=
  ts.dropWhile fun t => t matches .blank _ | .newline

/-- What stands before the first `mark`, and what follows it. -/
def splitAt? (mark : Token) (ts : List Token) : Option (List Token × List Token) :=
  match ts.dropWhile (· ≠ mark) with
  | [] => none
  | _ :: rest => some (ts.takeWhile (· ≠ mark), rest)

/-! ### Keys -/

/-- The name that a token spells. -/
def name? : Token → Option String
  | .word cs => if cs.all Token.isBare then some (String.ofList cs) else none
  | .text s => some s
  | _ => none

/-- The names that tokens with points between them spell. -/
def names? : List Token → Option (List String)
  | [] => none
  | [t] => (name? t).map fun k => [k]
  | t :: .dot :: ts => do return (← name? t) :: (← names? ts)
  | _ => none

/-- The names of a dotted key; blanks may stand around the points. -/
def key? (ts : List Token) : Option (List String) :=
  names? (ts.filter fun t => !(t matches .blank _))

/-! ### Values -/

/-- The words and points at the front, and what follows them. -/
def pieces : List Token → List Char × List Token
  | .word cs :: ts => (cs ++ (pieces ts).1, (pieces ts).2)
  | .dot :: ts => ('.' :: (pieces ts).1, (pieces ts).2)
  | ts => ([], ts)

/-- The unquoted value at the front, and what follows it; a word after a blank
still belongs to it, since a blank may stand between a date and a time. -/
def unquoted? (ts : List Token) : Option (Document × List Token) :=
  match pieces ts with
  | (front, .blank cs :: .word w :: rest) =>
    let (back, rest) := pieces (.word w :: rest)
    (scalar? (front ++ cs ++ back)).map fun d => (d, rest)
  | (front, rest) => (scalar? front).map fun d => (d, rest)

/-- The elements of an array up to its end, after those in `before`, which are
reversed.  Every element takes a token, so `fuel` may be the number of tokens. -/
def elements? (read : List Token → Option (Document × List Token)) :
    Nat → List Document → List Token → Option (Document × List Token)
  | 0, _, _ => none
  | fuel + 1, before, ts =>
    match skipLines ts with
    | .closeArray :: rest => some (.array before.reverse, rest)
    | ts => do
      let (d, rest) ← read ts
      match skipLines rest with
      | .comma :: rest => elements? read fuel (d :: before) rest
      | .closeArray :: rest => some (.array (d :: before).reverse, rest)
      | _ => none

/-- The members of a table within a value up to its end, after those in `ms`. -/
def members? (read : List Token → Option (Document × List Token)) :
    Nat → Members → List Token → Option (Document × List Token)
  | 0, _, _ => none
  | fuel + 1, ms, ts =>
    match skipLines ts with
    | .closeTable :: rest => some (ms.document, rest)
    | ts => do
      let (before, rest) ← splitAt? .equals ts
      let key ← key? before
      let (d, rest) ← read (skipBlanks rest)
      let ms ← ms.assign? key d
      match skipLines rest with
      | .comma :: rest => members? read fuel ms rest
      | .closeTable :: rest => some (ms.document, rest)
      | _ => none

/-- The value at the front, and what follows it; at most `depth` arrays and tables
may stand around each other in it. -/
def value? (depth : Nat) (ts : List Token) : Option (Document × List Token) :=
  match ts with
  | .text s :: rest | .lines s :: rest => some (.string (some s), rest)
  | .openArray :: rest =>
    match depth with
    | 0 => none
    | depth + 1 => elements? (value? depth) ts.length [] rest
  | .openTable :: rest =>
    match depth with
    | 0 => none
    | depth + 1 => members? (value? depth) ts.length [] rest
  | ts => unquoted? ts

/-- The greatest number of arrays and tables around a value within a value. -/
def maxNesting : Nat := 80

/-! ### Statements -/

/-- What a line says. -/
inductive Statement where
  /-- A key has a value. -/
  | assign (key : List String) (value : Document)
  /-- The table at a path begins. -/
  | table (path : List String)
  /-- Another element of the array of tables at a path begins. -/
  | element (path : List String)
  deriving Repr, Inhabited

namespace Statement

/-- What follows the end of a line; the text may end there too. -/
def endOfLine? (ts : List Token) : Option (List Token) :=
  match skipBlanks ts with
  | [] => some []
  | .newline :: rest => some rest
  | _ => none

/-- The statement at the front, and what follows its line. -/
def scan (ts : List Token) : Option (Statement × List Token) :=
  match ts with
  | .openArray :: .openArray :: ts => do
    match ← splitAt? .closeArray ts with
    | (path, .closeArray :: rest) => return (.element (← key? path), ← endOfLine? rest)
    | _ => none
  | .openArray :: ts => do
    let (path, rest) ← splitAt? .closeArray ts
    return (.table (← key? path), ← endOfLine? rest)
  | ts => do
    let (before, rest) ← splitAt? .equals ts
    let key ← key? before
    let (d, rest) ← value? maxNesting (skipBlanks rest)
    return (.assign key d, ← endOfLine? rest)

/-- All statements.  Every statement takes a token, so `fuel` equal to the number
of tokens is enough. -/
def scanAll (fuel : Nat) (ts : List Token) : Option (List Statement) :=
  match skipLines ts with
  | [] => some []
  | ts =>
    match fuel with
    | 0 => none
    | fuel + 1 => do
      let (s, rest) ← scan ts
      return s :: (← scanAll fuel rest)

/-- All statements of a list of tokens. -/
def ofTokens? (ts : List Token) : Option (List Statement) := scanAll ts.length ts

end Statement

end Switchboard.Toml
