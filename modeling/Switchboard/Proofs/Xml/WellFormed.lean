import Switchboard.Proofs.Xml.Reference

/-!
# Well-formed XML documents

The grammar of documents leaves out what makes no difference to a reader of tags and
character data.  Here is the rest of what XML 1.0 asks of a document without a
document type, so that a text is well-formed when it is the print of such a document.

## Main definitions

* `isXmlChar`, `IsXmlText` — the characters that a document may hold.
* `CharData.Strict`, `Tag.Strict`, `Aside.Strict`, `Content.Strict` — what is asked of
  the parts of a document.
* `Aside.IsDeclaration` — the declaration that a document may begin with.
* `Document.WellFormed` — **a well-formed document**.

## Main results

* `isXmlText_escapeChars` — escaping neither adds nor removes a character that no
  document may hold.
* `strict_escapedPieces` — what the writer escapes is strict character data.
-/

namespace Switchboard.Xml

/-! ### Characters -/

/-- The numbers of the characters that a document may hold. -/
def charRanges : List (ℕ × ℕ) :=
  [(0x9, 0xA), (0xD, 0xD), (0x20, 0xD7FF), (0xE000, 0xFFFD), (0x10000, 0x10FFFF)]

/-- Whether a document may hold a character, as it is or by reference. -/
def isXmlChar (c : Char) : Bool := charRanges.any fun r => r.1 ≤ c.toNat && c.toNat ≤ r.2

/-- Every character is one that a document may hold. -/
def IsXmlText (cs : List Char) : Prop := ∀ c ∈ cs, isXmlChar c = true

instance (cs : List Char) : Decidable (IsXmlText cs) := List.decidableBAll _ cs

@[simp] theorem isXmlText_nil : IsXmlText [] := List.forall_mem_nil _

@[simp] theorem isXmlText_cons {c : Char} {cs : List Char} :
    IsXmlText (c :: cs) ↔ isXmlChar c = true ∧ IsXmlText cs :=
  List.forall_mem_cons

@[simp] theorem isXmlText_append {cs ds : List Char} :
    IsXmlText (cs ++ ds) ↔ IsXmlText cs ∧ IsXmlText ds :=
  List.forall_mem_append

theorem isXmlText_flatMap {α : Type} {f : α → List Char} {xs : List α} :
    IsXmlText (xs.flatMap f) ↔ ∀ x ∈ xs, IsXmlText (f x) := by
  induction xs with
  | nil => simp
  | cons x xs ih => rw [List.flatMap_cons, isXmlText_append, ih, List.forall_mem_cons]

theorem isXmlChar_of_isNameChar {c : Char} (h : isNameChar c = true) : isXmlChar c = true := by
  simp only [isNameChar, isNameStart, nameStartRanges, nameLaterRanges, List.any_cons,
    List.any_nil, Bool.or_eq_true, Bool.and_eq_true, decide_eq_true_eq, Bool.false_eq_true,
    or_false] at h
  simp only [isXmlChar, charRanges, List.any_cons, List.any_nil, Bool.or_eq_true,
    Bool.and_eq_true, decide_eq_true_eq, Bool.false_eq_true, or_false]
  omega

theorem isXmlText_of_isName {cs : List Char} (h : IsName cs) : IsXmlText cs :=
  fun c hc => isXmlChar_of_isNameChar (Name.isNameChar ⟨cs, h⟩ c hc)

/-! ### The parts of a document -/

/-- Character data of a well-formed document: its references are to characters that a
document may hold, and the end of a section does not stand in it. -/
def CharData.Strict (t : CharData) : Prop := IsXmlText t.chars ∧ ¬ [']', ']', '>'] <:+: t.print

/-- The value of an attribute is character data; the end of a section may stand in it. -/
def Attribute.Strict (a : Attribute) : Prop :=
  ∃ t : CharData, a.value = t.print ∧ IsXmlText t.chars

/-- No attribute is given twice. -/
def Tag.Strict (t : Tag) : Prop :=
  (t.attributes.map fun a => a.name.chars).Nodup ∧ ∀ a ∈ t.attributes, a.Strict

/-- A comment does not end with a hyphen; an instruction is for another target than the
declaration, in any letter case, and a blank stands before its data. -/
def Aside.Strict : Aside → Prop
  | comment chars _ => ¬ ['-'] <:+ chars
  | instruction target data _ =>
    target.chars.map Char.toLower ≠ ['x', 'm', 'l'] ∧
      ∀ c cs, data = c :: cs → isBlankChar c = true

/-- Content with strict parts. -/
def Content.Strict : Content → Prop
  | text t => t.Strict
  | element t tag inner _ rest => t.Strict ∧ tag.Strict ∧ inner.Strict ∧ rest.Strict
  | empty t tag rest => t.Strict ∧ tag.Strict ∧ rest.Strict
  | cdata t _ rest => t.Strict ∧ rest.Strict
  | aside t a rest => t.Strict ∧ a.Strict ∧ rest.Strict

/-- A root with strict parts. -/
def Root.Strict : Root → Prop
  | element tag inner _ => tag.Strict ∧ inner.Strict
  | empty tag => tag.Strict

/-! ### The declaration -/

/-- A version: one, a point and digits. -/
def IsVersion : List Char → Prop
  | '1' :: '.' :: ds => ds ≠ [] ∧ ∀ d ∈ ds, d.isDigit = true
  | _ => False

/-- The name of an encoding: a letter, then letters, digits, points, underscores and
hyphens. -/
def IsEncoding : List Char → Prop
  | c :: cs => c.isAlpha = true ∧ ∀ d ∈ cs, d.isAlphanum = true ∨ d ∈ ['.', '_', '-']
  | [] => False

instance : (cs : List Char) → Decidable (IsEncoding cs)
  | [] => isFalse id
  | _ :: cs => @instDecidableAnd _ _ _ (List.decidableBAll _ cs)

/-- Whether a document stands alone: yes or no. -/
def IsStandalone (cs : List Char) : Prop := cs = ['y', 'e', 's'] ∨ cs = ['n', 'o']

/-- An attribute of the given name whose value is proper for it. -/
def Attribute.Declares (a : Attribute) (name : String) (Proper : List Char → Prop) : Prop :=
  a.name.chars = name.toList ∧ Proper a.value

/-- The declaration: the version, then perhaps the encoding, then perhaps whether the
document stands alone. -/
def Aside.IsDeclaration : Aside → Prop
  | comment .. => False
  | instruction target data _ =>
    target.chars = ['x', 'm', 'l'] ∧
      ∃ (version : Attribute) (encoding standalone : Option Attribute) (gap : Gap),
        data = version.print ++ encoding.elim [] Attribute.print
          ++ standalone.elim [] Attribute.print ++ gap.chars ∧
        version.Declares "version" IsVersion ∧
        (∀ a ∈ encoding, a.Declares "encoding" IsEncoding) ∧
        ∀ a ∈ standalone, a.Declares "standalone" IsStandalone

/-! ### Documents -/

/-- What may stand before the root: comments and instructions, and before them the
declaration, with no blank before it. -/
def Misc.IsProlog : Misc → Prop
  | [] => True
  | (gap, a) :: rest =>
    (a.Strict ∨ gap.chars = [] ∧ a.IsDeclaration) ∧ ∀ p ∈ rest, p.2.Strict

/-- **A well-formed document.** -/
structure Document.WellFormed (d : Document) : Prop where
  /-- It holds only characters that a document may hold. -/
  chars : IsXmlText d.print
  /-- The declaration stands at its beginning only. -/
  prolog : Misc.IsProlog d.prolog
  /-- The root is strict. -/
  root : d.root.Strict
  /-- So are the comments and instructions after it. -/
  epilog : ∀ p ∈ d.epilog, p.2.Strict

/-! ### What the writer escapes -/

theorem isXmlText_escapeChar (c : Char) : IsXmlText (escapeChar c) ↔ isXmlChar c = true := by
  unfold escapeChar
  split <;> first | decide | simp

/-- **Escaping neither adds nor removes a character that no document may hold.** -/
theorem isXmlText_escapeChars (cs : List Char) : IsXmlText (escapeChars cs) ↔ IsXmlText cs := by
  rw [escapeChars, isXmlText_flatMap]
  exact forall₂_congr fun c _ => isXmlText_escapeChar c

/-- **What the writer escapes is strict character data.** -/
theorem strict_escapedPieces {cs : List Char} (h : IsXmlText cs) :
    CharData.Strict (cs.map escapedPiece) := by
  refine ⟨?_, fun hends => ?_⟩
  · rw [chars_map_escapedPiece]
    exact h
  · rw [← escapeChars_eq_print] at hends
    exact notMem_escapeChars (by simp) cs (hends.subset (by simp : '>' ∈ [']', ']', '>']))

end Switchboard.Xml
