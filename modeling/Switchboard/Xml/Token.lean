import Switchboard.Text.Utf8
import Switchboard.Text.Ascii

/-!
# The tokens of XML

XML text is read as a sequence of tags, character data and markup without
content.  The reader is lenient where a well-formed document leaves no doubt:
it does not look at attributes, and elements may be left open at the end.  It is
strict about tags that are not complete and end tags that do not match.

## Main definitions

* `Token` — a tag, character data, other markup, or the point where reading has
  to stop.
* `scan bs` — the tokens of a byte string, whatever their nesting.
* `matched open ts` — the tokens up to the first end tag without its start tag.
* `tokens bs` — both steps, after a byte order mark.
* `localName` — a name without its namespace part.
-/

namespace Switchboard.Xml

/-- A token of XML text. -/
inductive Token where
  /-- A start tag. -/
  | open (name : Bytes)
  /-- An end tag. -/
  | close (name : Bytes)
  /-- A tag of an element without content. -/
  | empty (name : Bytes)
  /-- Character data with its references still in place. -/
  | text (content : Bytes)
  /-- Character data that has no references. -/
  | cdata (content : Bytes)
  /-- A comment, a processing instruction or a declaration. -/
  | other
  /-- Something that is no markup; nothing is read beyond it. -/
  | broken
  deriving DecidableEq, Repr, Inhabited

/-- The bytes that separate the parts of a tag. -/
def isSpace (b : UInt8) : Bool :=
  b = 0x20 || b = 0x09 || b = 0x0A || b = 0x0D

/-! ### Where markup ends -/

/-- What a tag holds up to the first `>` outside quotes, and what follows it;
`quote` is the quote that the front is inside of. -/
def tagBody (quote : Option UInt8) : Bytes → Option (Bytes × Bytes)
  | [] => none
  | b :: bs =>
    match quote with
    | none =>
      if b = 0x3E then some ([], bs)
      else
        (tagBody (if b = 0x27 || b = 0x22 then some b else none) bs).map
          fun r => (b :: r.1, r.2)
    | some q => (tagBody (if b = q then none else some q) bs).map fun r => (b :: r.1, r.2)

/-- What comes before the first `>` that `ends` accepts, and what follows it.
The test sees what comes before, latest byte first. -/
def upTo (ends : Bytes → Bool) (before : Bytes) : Bytes → Option (Bytes × Bytes)
  | [] => none
  | b :: bs =>
    if b = 0x3E && ends before then some (before.reverse, bs)
    else upTo ends (b :: before) bs

/-- A comment ends with two hyphens, which are not the ones it began with. -/
def endsComment : Bytes → Bool
  | 0x2D :: 0x2D :: before => 2 ≤ before.length
  | _ => false

/-- A section of plain character data ends with two brackets. -/
def endsCdata : Bytes → Bool
  | 0x5D :: 0x5D :: _ => true
  | _ => false

/-- A processing instruction ends with a question mark. -/
def endsInstruction : Bytes → Bool
  | 0x3F :: _ => true
  | _ => false

/-- A document type ends where its angle brackets are balanced. -/
def endsDoctype (before : Bytes) : Bool :=
  before.count 0x3C = before.count 0x3E

/-! ### Names -/

/-- The name at the front of a tag. -/
def tagName (body : Bytes) : Bytes :=
  body.takeWhile fun b => !isSpace b

/-- The bytes without the spaces at the back. -/
def trimEnd (bs : Bytes) : Bytes :=
  (bs.reverse.dropWhile isSpace).reverse

/-- The name in an end tag: spaces may follow it; a tag of spaces alone keeps
them. -/
def endName (body : Bytes) : Bytes :=
  if trimEnd body = [] then body else trimEnd body

/-- A name without its namespace part, which ends at the first colon. -/
def localName (name : Bytes) : Bytes :=
  match name.dropWhile (· ≠ 0x3A) with
  | [] => name
  | _ :: rest => rest

/-- A name without its namespace part, as a text. -/
def localText (name : Bytes) : String :=
  Text.Utf8.decodeLossy (localName name)

/-! ### Scanning -/

/-- The token of a tag with the given body. -/
def tagToken (body : Bytes) : Token :=
  match body.reverse with
  | 0x2F :: front => .empty (tagName front.reverse)
  | _ => .open (tagName body)

/-- The bytes of an ASCII text. -/
def ascii (s : String) : Bytes := s.toList.map fun c => UInt8.ofNat c.toNat

/-- Whether the bytes begin with the word, in any letter case. -/
def startsWithWord (word : String) (bs : Bytes) : Bool :=
  (bs.take word.length).map (fun b => Text.Ascii.upperChar (Char.ofNat b.toNat))
    = word.toList

/-- The token of what stands between `<!` and its end, where it has one. -/
def bangToken (kind : UInt8) (bs : Bytes) : Option (Token × Bytes) :=
  if kind = 0x2D then do
    let (body, rest) ← upTo endsComment [] bs
    if body.take 2 = [0x2D, 0x2D] then some (.other, rest) else none
  else if kind = 0x5B then do
    let (body, rest) ← upTo endsCdata [] bs
    if body.take 7 = ascii "[CDATA[" then
      some (.cdata ((body.drop 7).take (body.length - 9)), rest)
    else none
  else if kind = 0x44 || kind = 0x64 then do
    let (body, rest) ← upTo endsDoctype [] bs
    if startsWithWord "DOCTYPE" body && (body.drop 7).any (fun b => !isSpace b) then
      some (.other, rest)
    else none
  else none

/-- The token that begins with `<`, of which `bs` is the rest, and what follows
it. -/
def markup (bs : Bytes) : Option (Token × Bytes) :=
  match bs with
  | 0x21 :: kind :: rest => bangToken kind (kind :: rest)
  | [0x21] => none
  | 0x2F :: rest => (tagBody none rest).map fun r => (.close (endName r.1), r.2)
  | 0x3F :: rest => do
    let (body, rest) ← upTo endsInstruction [] (0x3F :: rest)
    if 1 < body.length then some (.other, rest) else none
  | bs => (tagBody none bs).map fun r => (tagToken r.1, r.2)

/-- The tokens of a byte string.  Every token takes at least one byte, so `fuel`
equal to the length is enough. -/
def scanFrom (fuel : Nat) (bs : Bytes) : List Token :=
  match fuel, bs with
  | _, [] => []
  | 0, _ => [.broken]
  | fuel + 1, b :: bs =>
    if b = 0x3C then
      match markup bs with
      | none => [.broken]
      | some (t, rest) => t :: scanFrom fuel rest
    else
      .text (b :: bs.takeWhile (· ≠ 0x3C)) :: scanFrom fuel (bs.dropWhile (· ≠ 0x3C))

/-- The tokens of a byte string, whatever their nesting. -/
def scan (bs : Bytes) : List Token := scanFrom bs.length bs

/-! ### Nesting -/

/-- The tokens up to the first end tag that does not match; `names` are the open
elements, innermost first. -/
def matched (names : List Bytes) : List Token → List Token
  | [] => []
  | .open n :: ts => .open n :: matched (n :: names) ts
  | .close n :: ts =>
    match names with
    | m :: outer => if n = m then .close n :: matched outer ts else [.broken]
    | [] => [.broken]
  | t :: ts => t :: matched names ts

/-- The bytes after a byte order mark. -/
def afterMark : Bytes → Bytes
  | 0xEF :: 0xBB :: 0xBF :: rest => rest
  | bs => bs

/-- The tokens of an XML text, up to where it stops being one. -/
def tokens (bs : Bytes) : List Token :=
  matched [] (scan (afterMark bs))

end Switchboard.Xml
