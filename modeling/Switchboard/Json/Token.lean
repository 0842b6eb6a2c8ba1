import Switchboard.Json.Number
import Switchboard.Text.Hex

/-!
# The tokens of JSON text

JSON text is a sequence of tokens with blanks between them.  A text or a number
may be spelled correctly and still have no value: an escape can name half of a
surrogate pair, and a number can be too large.  Such a token is kept, without a
value, because a reader that skips it has no objection.

## Main definitions

* `Token` — punctuation, literals, numbers and texts.
* `Token.scan` — the token at the front of a text.
* `Token.ofText?` — all tokens of a text.
-/

namespace Switchboard.Json

/-- A token of JSON text. -/
inductive Token where
  /-- An opening square bracket. -/
  | openArray
  /-- A closing square bracket. -/
  | closeArray
  /-- An opening brace. -/
  | openObject
  /-- A closing brace. -/
  | closeObject
  /-- A comma. -/
  | comma
  /-- A colon. -/
  | colon
  /-- The word `null`. -/
  | null
  /-- The word `true` or `false`. -/
  | bool (b : Bool)
  /-- A number, without a value if it is too large. -/
  | number (n : Option Number)
  /-- A quoted text, without a value if it holds half of a surrogate pair. -/
  | string (s : Option String)
  deriving DecidableEq, Repr, Inhabited

namespace Token

/-- The blanks that may stand between tokens. -/
def isSpace (c : Char) : Bool :=
  c = ' ' || c = '\t' || c = '\n' || c = '\r'

/-! ### Quoted texts -/

/-- What is between a quote that has been read and the next quote that no
backslash stands before, and what follows that quote. -/
def body : List Char → Option (List Char × List Char)
  | [] => none
  | '\\' :: c :: rest => (body rest).map fun r => ('\\' :: c :: r.1, r.2)
  | c :: rest =>
    if c = '"' then some ([], rest)
    else if c.toNat < 0x20 then none
    else (body rest).map fun r => (c :: r.1, r.2)

/-- A piece of a quoted text. -/
inductive Piece where
  /-- A character, as it is or in a short escape. -/
  | char (c : Char)
  /-- A sixteen-bit unit named by four hexadecimal digits. -/
  | unit (n : Nat)
  deriving DecidableEq, Repr

/-- The sixteen-bit unit that four hexadecimal digits name. -/
def unitOf (a b c d : Char) : Option Nat := do
  let a ← Text.Hex.value? a
  let b ← Text.Hex.value? b
  let c ← Text.Hex.value? c
  let d ← Text.Hex.value? d
  return ((a * 16 + b) * 16 + c) * 16 + d

/-- The character of a short escape. -/
def shortEscape? : Char → Option Char
  | '"' => some '"'
  | '\\' => some '\\'
  | '/' => some '/'
  | 'b' => some '\x08'
  | 'f' => some '\x0C'
  | 'n' => some '\n'
  | 'r' => some '\r'
  | 't' => some '\t'
  | _ => none

/-- The pieces of a quoted text, if every escape in it is well formed. -/
def pieces : List Char → Option (List Piece)
  | [] => some []
  | '\\' :: 'u' :: a :: b :: c :: d :: rest => do
    let n ← unitOf a b c d
    return .unit n :: (← pieces rest)
  | '\\' :: c :: rest => do
    let e ← shortEscape? c
    return .char e :: (← pieces rest)
  | c :: rest => if c = '\\' then none else (pieces rest).map (.char c :: ·)

/-- The first half of a surrogate pair. -/
def isLeading (n : Nat) : Bool := 0xD800 ≤ n && n ≤ 0xDBFF

/-- The second half of a surrogate pair. -/
def isTrailing (n : Nat) : Bool := 0xDC00 ≤ n && n ≤ 0xDFFF

/-- The characters of the pieces, if their surrogates come in pairs. -/
def join : List Piece → Option (List Char)
  | [] => some []
  | .char c :: rest => (join rest).map (c :: ·)
  | .unit m :: .unit n :: rest =>
    if isLeading m then
      if isTrailing n then
        (join rest).map (Char.ofNat (0x10000 + (m - 0xD800) * 1024 + (n - 0xDC00)) :: ·)
      else none
    else if isTrailing m then none
    else (join (.unit n :: rest)).map (Char.ofNat m :: ·)
  | .unit m :: rest =>
    if isLeading m || isTrailing m then none
    else (join rest).map (Char.ofNat m :: ·)

/-- The quoted text after a quote, and what follows it. -/
def scanString (cs : List Char) : Option (Token × List Char) := do
  let (inner, rest) ← body cs
  let ps ← pieces inner
  return (.string ((join ps).map String.ofList), rest)

/-! ### Numbers -/

/-- The digits at the front, and what follows them. -/
def digits (cs : List Char) : List Char × List Char :=
  (cs.takeWhile Text.Ascii.isDigit, cs.dropWhile Text.Ascii.isDigit)

/-- The digits after a point, if a point is there; a point without a digit is an
error. -/
def fraction : List Char → Option (Option (List Char) × List Char)
  | '.' :: cs =>
    let (ds, rest) := digits cs
    if ds = [] then none else some (some ds, rest)
  | cs => some (none, cs)

/-- The number after the letter of an exponent. -/
def signedExponent (cs : List Char) : Option (Int × List Char) :=
  let (negative, cs) :=
    match cs with
    | '+' :: rest => (false, rest)
    | '-' :: rest => (true, rest)
    | rest => (false, rest)
  let (ds, rest) := digits cs
  if ds = [] then none
  else
    let n : Int := Text.Ascii.numberOf ds
    some (if negative then -n else n, rest)

/-- The exponent, if one is there. -/
def exponent : List Char → Option (Option Int × List Char)
  | 'e' :: cs | 'E' :: cs => (signedExponent cs).map fun r => (some r.1, r.2)
  | cs => some (none, cs)

/-- The number at the front, after its sign: no digit may follow a leading
zero. -/
def scanNumber (negative : Bool) (cs : List Char) : Option (Token × List Char) := do
  let (whole, rest) := digits cs
  if whole = [] ∨ (whole.head? = some '0' ∧ whole.length ≠ 1) then none
  else
    let (fraction, rest) ← fraction rest
    let (exponent, rest) ← exponent rest
    return (.number (Number.ofParts negative whole fraction exponent), rest)

/-! ### All tokens -/

/-- The token at the front of a text that starts with the character `c`, and
what follows it. -/
def scan (c : Char) (cs : List Char) : Option (Token × List Char) :=
  match c, cs with
  | '[', cs => some (.openArray, cs)
  | ']', cs => some (.closeArray, cs)
  | '{', cs => some (.openObject, cs)
  | '}', cs => some (.closeObject, cs)
  | ',', cs => some (.comma, cs)
  | ':', cs => some (.colon, cs)
  | '"', cs => scanString cs
  | '-', cs => scanNumber true cs
  | 'n', 'u' :: 'l' :: 'l' :: cs => some (.null, cs)
  | 't', 'r' :: 'u' :: 'e' :: cs => some (.bool true, cs)
  | 'f', 'a' :: 'l' :: 's' :: 'e' :: cs => some (.bool false, cs)
  | c, cs => if Text.Ascii.isDigit c then scanNumber false (c :: cs) else none

/-- The tokens of a text.  Every token takes at least one character, so `fuel`
equal to the length of the text is enough. -/
def tokens (fuel : Nat) (cs : List Char) : Option (List Token) :=
  match cs with
  | [] => some []
  | c :: cs =>
    match fuel with
    | 0 => none
    | fuel + 1 =>
      if isSpace c then tokens fuel cs
      else do
        let (t, rest) ← scan c cs
        return t :: (← tokens fuel rest)

/-- All tokens of a text. -/
def ofText? (cs : List Char) : Option (List Token) := tokens cs.length cs

end Token

end Switchboard.Json
