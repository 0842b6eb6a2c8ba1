import Mathlib.Data.Nat.Notation
import Switchboard.Xml.Token

/-!
# The grammar of XML documents

Well-formed documents without a document type, as trees that carry what makes
them well-formed, and the text that each one is written as.  Where it makes no
difference to a reader of tags and character data, more is allowed than XML 1.0
allows: any character anywhere, any attribute value without its own quote, the
same attribute twice.

## Main definitions

* `IsName`, `Name` — the names of elements, attributes and instructions.
* `Tag`, `CharData`, `Section`, `Aside` — what a document is made of.
* `Content` — what an element holds.
* `Document` — a whole document.
* `Document.print` — its text.
* `Element`, `Content.children`, `Content.descendants`, `Content.chars`,
  `Content.allChars` — a document as a tree.
-/

namespace Switchboard.Xml

/-! ### Names -/

/-- The numbers of the characters that may begin a name. -/
def nameStartRanges : List (ℕ × ℕ) :=
  [(0x3A, 0x3A), (0x41, 0x5A), (0x5F, 0x5F), (0x61, 0x7A), (0xC0, 0xD6), (0xD8, 0xF6),
   (0xF8, 0x2FF), (0x370, 0x37D), (0x37F, 0x1FFF), (0x200C, 0x200D), (0x2070, 0x218F),
   (0x2C00, 0x2FEF), (0x3001, 0xD7FF), (0xF900, 0xFDCF), (0xFDF0, 0xFFFD),
   (0x10000, 0xEFFFF)]

/-- The numbers of the characters that may only stand later in a name. -/
def nameLaterRanges : List (ℕ × ℕ) :=
  [(0x2D, 0x2E), (0x30, 0x39), (0xB7, 0xB7), (0x300, 0x36F), (0x203F, 0x2040)]

/-- Whether a character may begin a name. -/
def isNameStart (c : Char) : Bool :=
  nameStartRanges.any fun r => r.1 ≤ c.toNat && c.toNat ≤ r.2

/-- Whether a character may stand in a name. -/
def isNameChar (c : Char) : Bool :=
  isNameStart c || nameLaterRanges.any fun r => r.1 ≤ c.toNat && c.toNat ≤ r.2

/-- A name begins with a character that may begin one and goes on with characters
that may stand in one. -/
def IsName : List Char → Prop
  | [] => False
  | c :: cs => isNameStart c = true ∧ ∀ d ∈ cs, isNameChar d = true

instance : (cs : List Char) → Decidable (IsName cs)
  | [] => isFalse id
  | _ :: cs => @instDecidableAnd _ _ _ (List.decidableBAll _ cs)

/-- A name. -/
structure Name where
  /-- Its characters. -/
  chars : List Char
  /-- They make up a name. -/
  isName : IsName chars

/-- The part of a name after its first colon; the whole name if it has none. -/
def localChars (cs : List Char) : List Char :=
  match cs.dropWhile (· ≠ ':') with
  | [] => cs
  | _ :: rest => rest

/-- The local part of a name, as a text. -/
def Name.localName (n : Name) : String := String.ofList (localChars n.chars)

theorem isNameChar_of_isNameStart {c : Char} (h : isNameStart c = true) :
    isNameChar c = true := by
  rw [isNameChar, h, Bool.true_or]

theorem Name.isNameChar (n : Name) : ∀ c ∈ n.chars, isNameChar c = true := by
  intro c hc
  obtain ⟨_ | ⟨d, ds⟩, hn⟩ := n
  · exact hn.elim
  · rcases List.mem_cons.mp hc with rfl | hc
    · exact isNameChar_of_isNameStart hn.1
    · exact hn.2 c hc

/-- No character of a name is one that names are told from. -/
theorem Name.notMem (n : Name) {d : Char} (hd : Xml.isNameChar d = false) : d ∉ n.chars := by
  intro hmem
  rw [n.isNameChar d hmem] at hd
  cases hd

/-- A name has a first character. -/
theorem Name.exists_cons (n : Name) :
    ∃ c cs, n.chars = c :: cs ∧ isNameStart c = true := by
  obtain ⟨_ | ⟨c, cs⟩, hn⟩ := n
  · exact hn.elim
  · exact ⟨c, cs, rfl, hn.1⟩

/-- A name without a colon is its own local part. -/
theorem Name.localName_of_notMem {n : Name} (h : ':' ∉ n.chars) :
    n.localName = String.ofList n.chars := by
  have hne : ∀ c ∈ n.chars, decide (c ≠ ':') = true := by
    intro c hc
    exact decide_eq_true fun heq => h (heq ▸ hc)
  have hdrop : (n.chars ++ []).dropWhile (· ≠ ':') = [] := List.dropWhile_append_of_pos hne
  rw [List.append_nil] at hdrop
  rw [Name.localName, localChars, hdrop]

/-! ### Tags -/

/-- Whether a character separates the parts of a tag. -/
def isBlankChar (c : Char) : Bool := c = ' ' || c = '\t' || c = '\n' || c = '\r'

/-- Blanks between the parts of a tag or of a document; there may be none. -/
structure Gap where
  /-- The blanks. -/
  chars : List Char
  /-- They are blanks. -/
  isBlank : ∀ c ∈ chars, isBlankChar c = true

/-- An attribute with the blanks before it. -/
structure Attribute where
  /-- The blanks before it. -/
  before : Gap
  /-- There are some. -/
  before_ne : before.chars ≠ []
  /-- Its name. -/
  name : Name
  /-- The blanks before the equals sign. -/
  left : Gap
  /-- The blanks after it. -/
  right : Gap
  /-- The quote around the value. -/
  quote : Char
  /-- It is one of the two. -/
  isQuote : quote = '"' ∨ quote = '\''
  /-- What stands between the quotes, with its references in place. -/
  value : List Char
  /-- The quote does not. -/
  notMem : quote ∉ value

/-- An attribute as it is written. -/
def Attribute.print (a : Attribute) : List Char :=
  a.before.chars ++ a.name.chars ++ a.left.chars ++ '=' :: a.right.chars
    ++ a.quote :: a.value ++ [a.quote]

/-- A name with attributes and the blanks after them. -/
structure Tag where
  /-- The name. -/
  name : Name
  /-- The attributes. -/
  attributes : List Attribute
  /-- The blanks after them. -/
  after : Gap

/-- A tag as it is written, without its brackets. -/
def Tag.print (t : Tag) : List Char :=
  t.name.chars ++ t.attributes.flatMap Attribute.print ++ t.after.chars

/-! ### Character data -/

/-- The five characters that have a name. -/
inductive Entity where
  /-- The less-than sign. -/
  | lt
  /-- The greater-than sign. -/
  | gt
  /-- The ampersand. -/
  | amp
  /-- The apostrophe. -/
  | apos
  /-- The quotation mark. -/
  | quot
  deriving DecidableEq

/-- The name of a character that has one. -/
def Entity.name : Entity → List Char
  | lt => ['l', 't']
  | gt => ['g', 't']
  | amp => ['a', 'm', 'p']
  | apos => ['a', 'p', 'o', 's']
  | quot => ['q', 'u', 'o', 't']

/-- The character of a name. -/
def Entity.char : Entity → Char
  | lt => '<'
  | gt => '>'
  | amp => '&'
  | apos => '\''
  | quot => '"'

/-- The number that digits stand for, the most significant first. -/
def numberOfDigits (base : ℕ) (ds : List ℕ) : ℕ := ds.foldl (fun n d => base * n + d) 0

/-- A hexadecimal digit; the letters may be capitals. -/
def hexDigit (d : Fin 16 × Bool) : Char :=
  if d.2 then (Nat.digitChar d.1.val).toUpper else Nat.digitChar d.1.val

/-- What stands for one character in character data. -/
inductive Piece where
  /-- The character itself. -/
  | plain (c : Char) (h : c ≠ '<' ∧ c ≠ '&')
  /-- A reference by name. -/
  | named (e : Entity)
  /-- A reference by the decimal number of the character. -/
  | decimal (c : Char) (ds : List (Fin 10)) (h : c ≠ '\x00')
      (hds : numberOfDigits 10 (ds.map Fin.val) = c.toNat)
  /-- A reference by its hexadecimal number. -/
  | hexadecimal (c : Char) (ds : List (Fin 16 × Bool)) (h : c ≠ '\x00')
      (hds : numberOfDigits 16 (ds.map fun d => d.1.val) = c.toNat)

/-- The character that a piece stands for. -/
def Piece.char : Piece → Char
  | plain c _ => c
  | named e => e.char
  | decimal c .. => c
  | hexadecimal c .. => c

/-- A piece as it is written. -/
def Piece.print : Piece → List Char
  | plain c _ => [c]
  | named e => '&' :: e.name ++ [';']
  | decimal _ ds .. => '&' :: '#' :: (ds.map fun d => Nat.digitChar d.val) ++ [';']
  | hexadecimal _ ds .. => '&' :: '#' :: 'x' :: ds.map hexDigit ++ [';']

/-- Character data. -/
abbrev CharData := List Piece

/-- Character data as it is written. -/
def CharData.print (t : CharData) : List Char := t.flatMap Piece.print

/-- What character data says. -/
def CharData.chars (t : CharData) : List Char := t.map Piece.char

/-! ### Markup without elements -/

/-- A section of plain character data. -/
structure Section where
  /-- What it holds. -/
  chars : List Char
  /-- It does not hold what ends it. -/
  ends : ¬ [']', ']', '>'] <:+: chars

/-- A section as it is written. -/
def Section.print (s : Section) : List Char :=
  ['<', '!', '[', 'C', 'D', 'A', 'T', 'A', '['] ++ s.chars ++ [']', ']', '>']

/-- What says nothing: a comment or a processing instruction. -/
inductive Aside where
  /-- A comment; two hyphens do not stand in it. -/
  | comment (chars : List Char) (h : ¬ ['-', '-'] <:+: chars)
  /-- A processing instruction, or the declaration that a document may begin with;
  what ends it does not stand in it. -/
  | instruction (target : Name) (data : List Char) (h : ¬ ['?', '>'] <:+: data)

/-- A comment or an instruction as it is written. -/
def Aside.print : Aside → List Char
  | comment chars .. => ['<', '!', '-', '-'] ++ chars ++ ['-', '-', '>']
  | instruction target data .. => '<' :: '?' :: target.chars ++ data ++ ['?', '>']

/-! ### Elements and documents -/

/-- What an element holds: character data alone, or character data, then an element
or other markup, then the rest. -/
inductive Content where
  /-- Character data up to the end. -/
  | text (t : CharData)
  /-- An element with its start tag, its content and the blanks in its end tag. -/
  | element (t : CharData) (tag : Tag) (inner : Content) (gap : Gap) (rest : Content)
  /-- An element without content, in one tag. -/
  | empty (t : CharData) (tag : Tag) (rest : Content)
  /-- A section of plain character data. -/
  | cdata (t : CharData) (s : Section) (rest : Content)
  /-- A comment or an instruction. -/
  | aside (t : CharData) (a : Aside) (rest : Content)

/-- A start tag as it is written. -/
def Tag.printOpen (t : Tag) : List Char := '<' :: t.print ++ ['>']

/-- The tag of an element without content as it is written. -/
def Tag.printEmpty (t : Tag) : List Char := '<' :: t.print ++ ['/', '>']

/-- An end tag as it is written. -/
def printClose (n : Name) (gap : Gap) : List Char := '<' :: '/' :: n.chars ++ gap.chars ++ ['>']

/-- Content as it is written. -/
def Content.print : Content → List Char
  | text t => t.print
  | element t tag inner gap rest =>
    t.print ++ (tag.printOpen ++ (inner.print ++ (printClose tag.name gap ++ rest.print)))
  | empty t tag rest => t.print ++ (tag.printEmpty ++ rest.print)
  | cdata t s rest => t.print ++ (s.print ++ rest.print)
  | aside t a rest => t.print ++ (a.print ++ rest.print)

/-- What may stand before and after the root: comments and instructions, each with
the blanks before it. -/
abbrev Misc := List (Gap × Aside)

/-- Comments and instructions as they are written. -/
def Misc.print (m : Misc) : List Char := m.flatMap fun p => p.1.chars ++ p.2.print

theorem Misc.print_cons (g : Gap) (a : Aside) (m : Misc) :
    Misc.print ((g, a) :: m) = g.chars ++ (a.print ++ Misc.print m) := by
  rw [Misc.print, List.flatMap_cons, List.append_assoc]
  rfl

/-- The root element. -/
inductive Root where
  /-- With content. -/
  | element (tag : Tag) (inner : Content) (gap : Gap)
  /-- Without. -/
  | empty (tag : Tag)

/-- The root as it is written. -/
def Root.print : Root → List Char
  | element tag inner gap => tag.printOpen ++ (inner.print ++ printClose tag.name gap)
  | empty tag => tag.printEmpty

/-- A document. -/
structure Document where
  /-- Whether it begins with a byte order mark. -/
  mark : Bool
  /-- The declaration, comments and instructions before the root. -/
  prolog : Misc
  /-- The blanks before the root. -/
  before : Gap
  /-- The root element. -/
  root : Root
  /-- Comments and instructions after the root. -/
  epilog : Misc
  /-- The blanks at the end. -/
  after : Gap

/-- A document as it is written, without the mark. -/
def Document.body (d : Document) : List Char :=
  d.prolog.print ++ (d.before.chars ++ (d.root.print ++ (d.epilog.print ++ d.after.chars)))

/-- A document as it is written. -/
def Document.print (d : Document) : List Char :=
  if d.mark then '\uFEFF' :: d.body else d.body

/-! ### Documents as trees -/

/-- An element with what it holds. -/
structure Element where
  /-- Its name. -/
  name : Name
  /-- What it holds. -/
  content : Content

/-- The elements that stand directly in content. -/
def Content.children : Content → List Element
  | text _ => []
  | element _ tag inner _ rest => ⟨tag.name, inner⟩ :: rest.children
  | empty _ tag rest => ⟨tag.name, .text []⟩ :: rest.children
  | cdata _ _ rest => rest.children
  | aside _ _ rest => rest.children

/-- All elements in content, at any depth, in the order in which they begin. -/
def Content.descendants : Content → List Element
  | text _ => []
  | element _ tag inner _ rest => ⟨tag.name, inner⟩ :: (inner.descendants ++ rest.descendants)
  | empty _ tag rest => ⟨tag.name, .text []⟩ :: rest.descendants
  | cdata _ _ rest => rest.descendants
  | aside _ _ rest => rest.descendants

/-- The character data and plain sections that stand directly in content. -/
def Content.chars : Content → List Char
  | text t => t.chars
  | element t _ _ _ rest => t.chars ++ rest.chars
  | empty t _ rest => t.chars ++ rest.chars
  | cdata t s rest => t.chars ++ (s.chars ++ rest.chars)
  | aside t _ rest => t.chars ++ rest.chars

/-- The character data and plain sections in content, at any depth, in document order. -/
def Content.allChars : Content → List Char
  | text t => t.chars
  | element t _ inner _ rest => t.chars ++ (inner.allChars ++ rest.allChars)
  | empty t _ rest => t.chars ++ rest.allChars
  | cdata t s rest => t.chars ++ (s.chars ++ rest.allChars)
  | aside t _ rest => t.chars ++ rest.allChars

/-- The character data in content, at any depth, in document order, without the plain
sections. -/
def Content.dataChars : Content → List Char
  | text t => t.chars
  | element t _ inner _ rest => t.chars ++ (inner.dataChars ++ rest.dataChars)
  | empty t _ rest => t.chars ++ rest.dataChars
  | cdata t _ rest => t.chars ++ rest.dataChars
  | aside t _ rest => t.chars ++ rest.dataChars

/-- The plain sections in content, at any depth. -/
def Content.sections : Content → List Section
  | text _ => []
  | element _ _ inner _ rest => inner.sections ++ rest.sections
  | empty _ _ rest => rest.sections
  | cdata _ s rest => s :: rest.sections
  | aside _ _ rest => rest.sections

/-- The root as an element. -/
def Root.toElement : Root → Element
  | element tag inner _ => ⟨tag.name, inner⟩
  | empty tag => ⟨tag.name, .text []⟩

end Switchboard.Xml
