import Switchboard.Text.Hex
import Switchboard.Text.Ascii

/-!
# References in XML character data

A reference stands for one character: by one of five names, or by the number of
the character.

## Main definitions

* `escape s` — the text with a reference for each character that means something
  in markup.
* `unescape cs` — the characters with every reference replaced.
-/

namespace Switchboard.Xml

/-- How a character stands in character data. -/
def escapeChar : Char → List Char
  | '<' => ['&', 'l', 't', ';']
  | '>' => ['&', 'g', 't', ';']
  | '&' => ['&', 'a', 'm', 'p', ';']
  | '\'' => ['&', 'a', 'p', 'o', 's', ';']
  | '"' => ['&', 'q', 'u', 'o', 't', ';']
  | c => [c]

/-- The characters with a reference for each one that means something in
markup. -/
def escapeChars (cs : List Char) : List Char := cs.flatMap escapeChar

/-- The text with a reference for each character that means something in
markup. -/
def escape (s : String) : String := String.ofList (escapeChars s.toList)

/-- The character with the given number, if there is one; zero is none. -/
def charOfNumber? (n : Nat) : Option Char :=
  if n ≠ 0 ∧ n.isValidChar then some (Char.ofNat n) else none

/-- The number that hexadecimal digits stand for. -/
def hexNumber? (cs : List Char) : Option Nat :=
  if cs = [] then none
  else cs.foldlM (fun n c => do return 16 * n + (← Text.Hex.value? c)) 0

/-- The number that decimal digits stand for. -/
def decimalNumber? (cs : List Char) : Option Nat :=
  if cs = [] ∨ cs.all Text.Ascii.isDigit = false then none
  else some (Text.Ascii.numberOf cs)

/-- The character that a reference stands for, by what is between its ampersand
and its semicolon. -/
def referent? (name : List Char) : Option Char :=
  match name with
  | '#' :: 'x' :: digits => (hexNumber? digits).bind charOfNumber?
  | '#' :: digits => (decimalNumber? digits).bind charOfNumber?
  | ['l', 't'] => some '<'
  | ['g', 't'] => some '>'
  | ['a', 'm', 'p'] => some '&'
  | ['a', 'p', 'o', 's'] => some '\''
  | ['q', 'u', 'o', 't'] => some '"'
  | _ => none

/-- What an ampersand has after it up to its semicolon, and what follows that;
another ampersand may not come first. -/
def referenceBody : List Char → Option (List Char × List Char)
  | [] => none
  | c :: cs =>
    if c = ';' then some ([], cs)
    else if c = '&' then none
    else (referenceBody cs).map fun r => (c :: r.1, r.2)

/-- The characters with every reference replaced, each of which takes at least
one character, so that `fuel` equal to the length is enough. -/
def unescapeFrom (fuel : Nat) (cs : List Char) : Option (List Char) :=
  match fuel, cs with
  | _, [] => some []
  | 0, _ => none
  | fuel + 1, c :: cs =>
    if c = '&' then do
      let (name, rest) ← referenceBody cs
      let r ← referent? name
      return r :: (← unescapeFrom fuel rest)
    else (unescapeFrom fuel cs).map (c :: ·)

/-- The characters with every reference replaced, if every reference stands for
a character. -/
def unescape (cs : List Char) : Option (List Char) := unescapeFrom cs.length cs

/-- The text of character data given as bytes, with every reference replaced. -/
def textOf? (bs : Bytes) : Option (List Char) := do
  unescape (← Text.Utf8.decodeChars? bs)

end Switchboard.Xml
