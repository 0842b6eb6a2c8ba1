import Switchboard.Text.Hex
import Switchboard.Text.Ascii

/-!
# Quoted texts in TOML

A text stands between quotes or between apostrophes, on one line or, between
three of them, on several.  Backslashes mean something between quotes only.

## Main definitions

* `Text.line` — a text on one line, after the mark that opens it.
* `Text.lines` — a text on several lines, after the marks that open it.
* `Text.joinLines?`, `Text.unescape?` — what backslashes mean.
-/

namespace Switchboard.Toml.Text

open Switchboard.Text

/-! ### Characters -/

/-- A blank within a line. -/
def isBlank (c : Char) : Bool := c = ' ' || c = '\t'

/-- A character that may stand in a line of text: no control character but the
tabulator. -/
def isPlain (c : Char) : Bool :=
  c = '\t' || (0x20 ≤ c.toNat && c.toNat ≠ 0x7F)

/-- Every carriage return is followed by a line feed. -/
def returnsPaired : List Char → Bool
  | '\r' :: '\n' :: rest => returnsPaired rest
  | '\r' :: _ => false
  | _ :: rest => returnsPaired rest
  | [] => true

/-- The characters may stand in a text; line ends only if it has several lines. -/
def isContent (severalLines : Bool) (cs : List Char) : Bool :=
  if severalLines then
    returnsPaired cs && cs.all fun c => isPlain c || c = '\n' || c = '\r'
  else cs.all isPlain

/-! ### Backslashes -/

/-- The character of a short escape. -/
def shortEscape? : Char → Option Char
  | '"' => some '"'
  | '\\' => some '\\'
  | 'b' => some '\x08'
  | 't' => some '\t'
  | 'n' => some '\n'
  | 'f' => some '\x0C'
  | 'r' => some '\r'
  | 'e' => some '\x1B'
  | _ => none

/-- The character whose number the hexadecimal digits spell. -/
def scalar? (digits : List Char) : Option Char := do
  let ns ← digits.mapM Hex.value?
  let n := ns.foldl (fun n d => 16 * n + d) 0
  if n.isValidChar then some (Char.ofNat n) else none

/-- The text that characters with escapes stand for. -/
def unescape? : List Char → Option (List Char)
  | [] => some []
  | '\\' :: 'x' :: a :: b :: rest => do
    return (← scalar? [a, b]) :: (← unescape? rest)
  | '\\' :: 'u' :: a :: b :: c :: d :: rest => do
    return (← scalar? [a, b, c, d]) :: (← unescape? rest)
  | '\\' :: 'U' :: a :: b :: c :: d :: e :: f :: g :: h :: rest => do
    return (← scalar? [a, b, c, d, e, f, g, h]) :: (← unescape? rest)
  | '\\' :: c :: rest => do
    return (← shortEscape? c) :: (← unescape? rest)
  | c :: rest => if c = '\\' then none else (unescape? rest).map (c :: ·)

/-- Where a reader that joins lines stands. -/
inductive Joining where
  /-- In the text. -/
  | text
  /-- After a backslash. -/
  | escape
  /-- In the blanks after a backslash; `ended` once a line has ended. -/
  | blanks (ended : Bool)
  deriving DecidableEq, Repr

/-- What a text loses where a backslash is the last thing on a line but blanks:
the backslash, the line end, and all blanks and line ends that follow. -/
def joinLinesFrom : Joining → List Char → Option (List Char)
  | .text, [] => some []
  | .escape, [] => none
  | .blanks ended, [] => if ended then some [] else none
  | .text, c :: cs =>
    if c = '\\' then joinLinesFrom .escape cs
    else (joinLinesFrom .text cs).map (c :: ·)
  | .escape, c :: cs =>
    if c = '\n' then joinLinesFrom (.blanks true) cs
    else if isBlank c ∨ c = '\r' then joinLinesFrom (.blanks false) cs
    else (joinLinesFrom .text cs).map ('\\' :: c :: ·)
  | .blanks ended, c :: cs =>
    if c = '\n' then joinLinesFrom (.blanks true) cs
    else if isBlank c ∨ c = '\r' then joinLinesFrom (.blanks ended) cs
    else if !ended then none
    else if c = '\\' then joinLinesFrom .escape cs
    else (joinLinesFrom .text cs).map (c :: ·)

/-- The text with its lines joined where backslashes ask for it. -/
def joinLines? (cs : List Char) : Option (List Char) := joinLinesFrom .text cs

/-! ### Texts -/

/-- What stands before the next `mark` and what follows it; where `escapes` holds
a mark after a backslash does not count. -/
def upToMark (mark : Char) (escapes : Bool) : List Char → Option (List Char × List Char)
  | [] => none
  | c :: rest =>
    if c = mark then some ([], rest)
    else if c = '\\' ∧ escapes then
      match rest with
      | [] => none
      | d :: rest => (upToMark mark escapes rest).map fun r => (c :: d :: r.1, r.2)
    else (upToMark mark escapes rest).map fun r => (c :: r.1, r.2)

/-- What stands before the next three marks and what follows them; up to two more
marks belong to the text in front. -/
def upToMarks (mark : Char) (escapes : Bool) : List Char → Option (List Char × List Char)
  | [] => none
  | c :: rest =>
    if c = mark then
      match rest with
      | d :: e :: rest' =>
        if d = mark ∧ e = mark then
          let more := (rest'.take 2).takeWhile (· = mark)
          some (more, rest'.drop more.length)
        else (upToMarks mark escapes rest).map fun r => (c :: r.1, r.2)
      | _ => none
    else if c = '\\' ∧ escapes then
      match rest with
      | [] => none
      | d :: rest => (upToMarks mark escapes rest).map fun r => (c :: d :: r.1, r.2)
    else (upToMarks mark escapes rest).map fun r => (c :: r.1, r.2)

/-- The text without a line end at its front. -/
def dropLineEnd : List Char → List Char
  | '\r' :: '\n' :: rest => rest
  | '\n' :: rest => rest
  | cs => cs

/-- A text on one line after the mark that opens it, and what follows it. -/
def line (mark : Char) (escapes : Bool) (cs : List Char) : Option (String × List Char) := do
  let (inner, rest) ← upToMark mark escapes cs
  let content ← if escapes then unescape? inner else some inner
  if isContent false inner then some (String.ofList content, rest) else none

/-- A text on several lines after the three marks that open it, and what follows
it. -/
def lines (mark : Char) (escapes : Bool) (cs : List Char) : Option (String × List Char) := do
  let (inner, rest) ← upToMarks mark escapes cs
  let inner := dropLineEnd inner
  let content ← if escapes then (joinLines? inner).bind unescape? else some inner
  if isContent true inner then some (String.ofList content, rest) else none

end Switchboard.Toml.Text
