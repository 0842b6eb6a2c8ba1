import Switchboard.Toml.Text

/-!
# The tokens of TOML

A TOML text is a sequence of tokens.  Blanks and line ends are tokens too, since
both may matter; comments are not.

## Main definitions

* `Token` — punctuation, blanks, line ends, words and quoted texts.
* `Token.scan` — the token at the front of a text.
* `Token.ofText?` — all tokens of a text.
-/

namespace Switchboard.Toml

/-- A token of TOML. -/
inductive Token where
  /-- A point. -/
  | dot
  /-- An equals sign. -/
  | equals
  /-- A comma. -/
  | comma
  /-- An opening square bracket. -/
  | openArray
  /-- A closing square bracket. -/
  | closeArray
  /-- An opening brace. -/
  | openTable
  /-- A closing brace. -/
  | closeTable
  /-- The end of a line. -/
  | newline
  /-- Blanks within a line. -/
  | blank (cs : List Char)
  /-- Letters, digits and signs: a key, or a piece of a value. -/
  | word (cs : List Char)
  /-- A quoted text on one line. -/
  | text (s : String)
  /-- A quoted text on several lines. -/
  | lines (s : String)
  deriving DecidableEq, Repr, Inhabited

namespace Token

/-- A character of a key that is not quoted. -/
def isBare (c : Char) : Bool :=
  Switchboard.Text.Ascii.isAlphanumeric c || c = '-' || c = '_'

/-- A character of a word: besides keys, numbers and times are words. -/
def isWord (c : Char) : Bool := isBare c || c = '+' || c = ':'

/-- The token at the front of a text that starts with the character `c`, and what
follows it; `none` for a comment. -/
def scan (c : Char) (cs : List Char) : Option (Option Token × List Char) :=
  match c, cs with
  | '.', cs => some (some .dot, cs)
  | '=', cs => some (some .equals, cs)
  | ',', cs => some (some .comma, cs)
  | '[', cs => some (some .openArray, cs)
  | ']', cs => some (some .closeArray, cs)
  | '{', cs => some (some .openTable, cs)
  | '}', cs => some (some .closeTable, cs)
  | '\n', cs => some (some .newline, cs)
  | '\r', '\n' :: cs => some (some .newline, cs)
  | '#', cs => some (none, cs.dropWhile Text.isPlain)
  | '"', '"' :: '"' :: cs => (Text.lines '"' true cs).map fun r => (some (.lines r.1), r.2)
  | '"', cs => (Text.line '"' true cs).map fun r => (some (.text r.1), r.2)
  | '\'', '\'' :: '\'' :: cs =>
    (Text.lines '\'' false cs).map fun r => (some (.lines r.1), r.2)
  | '\'', cs => (Text.line '\'' false cs).map fun r => (some (.text r.1), r.2)
  | c, cs =>
    if Text.isBlank c then
      some (some (.blank (c :: cs.takeWhile Text.isBlank)), cs.dropWhile Text.isBlank)
    else if isWord c then
      some (some (.word (c :: cs.takeWhile isWord)), cs.dropWhile isWord)
    else none

/-- The tokens of a text.  Every token takes at least one character, so `fuel`
equal to the length of the text is enough. -/
def scanAll (fuel : Nat) (cs : List Char) : Option (List Token) :=
  match cs with
  | [] => some []
  | c :: cs =>
    match fuel with
    | 0 => none
    | fuel + 1 => do
      let (t, rest) ← scan c cs
      return t.toList ++ (← scanAll fuel rest)

/-- All tokens of a text. -/
def ofText? (cs : List Char) : Option (List Token) := scanAll cs.length cs

end Token

end Switchboard.Toml
