import Mathlib.Data.List.Forall2
import Switchboard.Proofs.Soap.Envelope
import Switchboard.Proofs.Xml.WellFormed

/-!
# What an envelope encloses

The values and the namespace of an envelope are escaped; the operation and the keys are
written as they are, once in a start tag and once in an end tag.  So an envelope is a
well-formed document with one element for each parameter exactly if these are names
and no value holds a character that XML has no place for.

## Main definitions

* `Holds e p` — an element is that of a parameter.
* `Encloses d operation params` — the body of a document holds the operation with its
  parameters, in their order, and nothing else.
* `Proper operation ns params` — what an envelope can be made of.

## Main results

* `exists_encloses` — an envelope of names encloses its parameters, whatever the values
  and the namespace.
* `wellFormed_envelope_iff` — **an envelope is a well-formed document that encloses what
  it was made of exactly if that is proper**.
* `envelope_of_markup` — a key that is no name can put other elements in the place
  of its own.
-/

namespace Switchboard.Soap

open Xml
open Json (Value)

/-! ### The structure of an envelope -/

/-- The element of a parameter. -/
structure Holds (e : Element) (p : String × Value) : Prop where
  /-- It is named by the key. -/
  name : e.name.chars = p.1.toList
  /-- It has no element children. -/
  children : e.content.children = []
  /-- Its text is the value's. -/
  chars : e.content.chars = parameterText p.2

/-- The element of an operation: one child for each parameter, in the same order. -/
structure Invokes (e : Element) (operation : String) (params : Dictionary Value) :
    Prop where
  /-- It is named for the operation. -/
  name : e.name.chars = operation.toList
  /-- Its children are the parameters. -/
  children : List.Forall₂ Holds e.content.children params

/-- The document is an envelope, and its body has the given content. -/
def HasBody (d : Document) (c : Content) : Prop :=
  d.root.toElement.name.chars = "soap:Envelope".toList ∧
    ∃ body, d.root.toElement.content.children = [body] ∧
      body.name.chars = "soap:Body".toList ∧ body.content = c

/-- The body of an envelope holds exactly one element, that of the operation, and none
where there is no operation. -/
def Encloses (d : Document) (operation : String) (params : Dictionary Value) : Prop :=
  ∃ c, HasBody d c ∧ (operation = "" → c.children = []) ∧
    (operation ≠ "" → ∃ e, c.children = [e] ∧ Invokes e operation params)

/-- Operation and keys are names, and namespace and values hold no character that a
document may not hold; without an operation nothing is written. -/
def Proper (operation ns : String) (params : Dictionary Value) : Prop :=
  operation = "" ∨ IsName operation.toList ∧ IsXmlText ns.toList ∧
    ∀ p ∈ params, IsName p.1.toList ∧ IsXmlText (parameterText p.2)

/-! ### The characters of an envelope -/

theorem isXmlText_opening : IsXmlText opening.toList := by
  delta opening
  simp only [String.toList_append, isXmlText_append]
  refine ⟨⟨⟨⟨⟨⟨?_, ?_⟩, ?_⟩, ?_⟩, ?_⟩, ?_⟩, ?_⟩ <;> decide +kernel

theorem isXmlText_closing : IsXmlText closing.toList := by decide +kernel

theorem isXmlText_parameterElement {p : String × Value} :
    IsXmlText (parameterElement p) ↔ IsXmlText p.1.toList ∧ IsXmlText (parameterText p.2) := by
  have hmarkup : isXmlChar '<' = true ∧ isXmlChar '>' = true ∧ isXmlChar '/' = true := by decide
  rw [parameterElement]
  simp only [List.cons_append, isXmlText_cons, isXmlText_append, isXmlText_escapeChars,
    isXmlText_nil, hmarkup, true_and, and_true]
  tauto

/-- The characters of an envelope are those of its parts. -/
theorem isXmlText_operationElement {operation ns : String} {params : Dictionary Value} :
    IsXmlText (operationElement operation ns params) ↔
      IsXmlText operation.toList ∧ IsXmlText ns.toList ∧
        ∀ p ∈ params, IsXmlText p.1.toList ∧ IsXmlText (parameterText p.2) := by
  have hmarkup : isXmlChar '<' = true ∧ isXmlChar '>' = true ∧ isXmlChar '/' = true ∧
      isXmlChar '"' = true := by decide
  have hattribute : IsXmlText " xmlns=\"".toList := by decide
  rw [operationElement]
  simp only [List.cons_append, isXmlText_cons, isXmlText_append, isXmlText_escapeChars,
    isXmlText_flatMap, isXmlText_parameterElement, isXmlText_nil, hmarkup, hattribute, true_and,
    and_true]
  tauto

theorem envelope_of_ne {operation : String} (h : operation ≠ "") (ns : String)
    (params : Dictionary Value) :
    envelope operation ns params = .ok (String.ofList (opening.toList
      ++ operationElement operation ns params ++ closing.toList)) := by
  rw [envelope, if_neg fun h' => h h'.1]
  simp only [if_neg h]

/-- What an envelope is written as. -/
theorem toList_envelope {operation ns text : String} {params : Dictionary Value}
    (h : envelope operation ns params = .ok text) :
    text.toList = opening.toList
      ++ (if operation = "" then [] else operationElement operation ns params)
      ++ closing.toList := by
  unfold envelope at h
  split at h
  · cases h
  · rw [← Except.ok.inj h, String.toList_ofList]

/-! ### The document of an envelope -/

theorem isBlank_newline : ∀ c ∈ ['\n'], isBlankChar c = true := by simp [isBlankChar]

/-- The document of an envelope with the given content in its body. -/
def enclosing (c : Content) : Document where
  mark := false
  prolog := [(noGap, declaration)]
  before := ⟨['\n'], isBlank_newline⟩
  root := .element envelopeTag
    (.element (escaped ['\n', ' ', ' ']) bodyTag c noGap (.text (escaped ['\n']))) noGap
  epilog := []
  after := noGap

theorem hasBody_enclosing (c : Content) : HasBody (enclosing c) c := ⟨rfl, _, rfl, rfl, rfl⟩

theorem print_enclosing {c : Content} {cs : List Char}
    (h : c.print = ['\n', ' ', ' ', ' ', ' '] ++ cs ++ ['\n', ' ', ' ']) :
    (enclosing c).print = opening.toList ++ cs ++ closing.toList := by
  rw [opening_toList, closing_toList]
  simp [enclosing, Document.print, Document.body, Root.print, Content.print, Misc.print,
    print_escaped, escapeChars, escapeChar, noGap, h]

theorem declaration_isDeclaration : declaration.IsDeclaration := by
  refine ⟨rfl,
    plainAttribute ⟨['v', 'e', 'r', 's', 'i', 'o', 'n'], by decide⟩ ['1', '.', '0'] (by decide),
    some (plainAttribute ⟨['e', 'n', 'c', 'o', 'd', 'i', 'n', 'g'], by decide⟩
      ['u', 't', 'f', '-', '8'] (by decide)), none, noGap, ?_, ⟨?_, ?_⟩, ?_, ?_⟩
  · simp [print_plainAttribute, noGap]
  · rfl
  · exact ⟨List.cons_ne_nil _ _, List.forall_mem_singleton.mpr rfl⟩
  · rintro _ ⟨⟩
    have hencoding : IsEncoding ['u', 't', 'f', '-', '8'] := by decide
    exact ⟨rfl, hencoding⟩
  · rintro _ ⟨⟩

theorem strict_escaped {cs : List Char} (h : IsXmlText cs) : CharData.Strict (escaped cs) :=
  strict_escapedPieces h

/-- A plain attribute is strict when its value is an escaped one. -/
theorem strict_plainAttribute {name : Name} (cs : List Char) {value : List Char}
    {hquote : '"' ∉ value} (hvalue : value = escapeChars cs) (h : IsXmlText cs) :
    (plainAttribute name value hquote).Strict := by
  refine ⟨escaped cs, ?_, ?_⟩
  · rw [print_escaped]
    exact hvalue
  · rwa [chars_escaped]

theorem strict_envelopeTag : envelopeTag.Strict := by
  refine ⟨by decide, fun a ha => ?_⟩
  simp only [envelopeTag, List.mem_cons, List.not_mem_nil, or_false] at ha
  rcases ha with rfl | rfl | rfl
  · exact strict_plainAttribute envelopeNamespace.toList (by decide) (by decide)
  · exact strict_plainAttribute "http://www.w3.org/2001/XMLSchema-instance".toList (by decide)
      (by decide)
  · exact strict_plainAttribute "http://www.w3.org/2001/XMLSchema".toList (by decide) (by decide)

theorem strict_bodyTag : bodyTag.Strict := ⟨List.nodup_nil, List.forall_mem_nil _⟩

theorem strict_operationTag {operation : Name} {ns : String} (h : IsXmlText ns.toList) :
    (operationTag operation ns).Strict := by
  refine ⟨by simp [operationTag], fun a ha => ?_⟩
  rw [List.mem_singleton.mp ha]
  exact strict_plainAttribute ns.toList rfl h

theorem wellFormed_enclosing {c : Content} (hc : c.Strict) (h : IsXmlText (enclosing c).print) :
    (enclosing c).WellFormed where
  chars := h
  prolog := ⟨Or.inr ⟨rfl, declaration_isDeclaration⟩, List.forall_mem_nil _⟩
  root := ⟨strict_envelopeTag, strict_escaped (by decide), strict_bodyTag, hc,
    strict_escaped (by decide)⟩
  epilog := List.forall_mem_nil _

/-! ### An envelope of names -/

/-- The parameters are the children of their content. -/
theorem children_parametersContent (params : Dictionary Value)
    (h : ∀ p ∈ params, IsName p.1.toList) :
    List.Forall₂ Holds (parametersContent params h).children params := by
  induction params with
  | nil => exact List.Forall₂.nil
  | cons p params ih => exact List.Forall₂.cons ⟨rfl, rfl, chars_escaped _⟩ (ih _)

theorem strict_parametersContent (params : Dictionary Value)
    (h : ∀ p ∈ params, IsName p.1.toList)
    (hxml : ∀ p ∈ params, IsXmlText (parameterText p.2)) :
    (parametersContent params h).Strict := by
  induction params with
  | nil => exact strict_escaped isXmlText_nil
  | cons p params ih =>
    obtain ⟨hp, hps⟩ := List.forall_mem_cons.mp hxml
    exact ⟨strict_escaped isXmlText_nil, ⟨List.nodup_nil, List.forall_mem_nil _⟩,
      strict_escaped hp, ih _ hps⟩

/-- **An envelope of names encloses its parameters**, whatever the values and the
namespace. -/
theorem exists_encloses {operation ns text : String} {params : Dictionary Value}
    (h : envelope operation ns params = .ok text)
    (hnames : operation = "" ∨ IsName operation.toList ∧ ∀ p ∈ params, IsName p.1.toList) :
    ∃ d : Document, d.print = text.toList ∧ Encloses d operation params ∧
      (IsXmlText text.toList → d.WellFormed) := by
  have htext := toList_envelope h
  rcases hnames with rfl | ⟨hop, hkeys⟩
  · -- nothing but blanks stands in the body
    have hprint : (enclosing (.text (escaped ['\n', ' ', ' ', ' ', ' ', '\n', ' ', ' ']))).print
        = text.toList := by
      rw [htext, if_pos rfl]
      exact print_enclosing rfl
    refine ⟨_, hprint, ⟨_, hasBody_enclosing _, fun _ => rfl, fun h => absurd rfl h⟩,
      fun hxml => ?_⟩
    refine wellFormed_enclosing (strict_escaped (by decide)) ?_
    rwa [hprint]
  · have hc := print_parametersContent params hkeys
    have hne : operation ≠ "" := by
      rintro rfl
      exact hop
    have hprint : (enclosing (bodyContent (operationTag ⟨operation.toList, hop⟩ ns)
        (parametersContent params hkeys))).print = text.toList := by
      rw [htext, if_neg hne, ← print_operation hop ns hc]
      exact print_document _ ns _
    refine ⟨_, hprint, ⟨_, hasBody_enclosing _, fun h => absurd h hne, fun _ => ?_⟩,
      fun hxml => ?_⟩
    · exact ⟨_, rfl, rfl, children_parametersContent params hkeys⟩
    · have hparts : IsXmlText (operationElement operation ns params) := by
        rw [htext, if_neg hne, isXmlText_append, isXmlText_append] at hxml
        exact hxml.1.2
      obtain ⟨-, hns, hparams⟩ := isXmlText_operationElement.mp hparts
      refine wellFormed_enclosing ⟨strict_escaped (by decide), strict_operationTag hns,
        strict_parametersContent params hkeys fun p hp => (hparams p hp).2,
        strict_escaped (by decide)⟩ ?_
      rwa [hprint]

/-! ### Exactly the proper envelopes -/

/-- The element of a parameter has a name, which is the key. -/
theorem isName_of_holds {es : List Element} {params : Dictionary Value}
    (h : List.Forall₂ Holds es params) : ∀ p ∈ params, IsName p.1.toList := by
  induction h with
  | nil => exact List.forall_mem_nil _
  | @cons e p es params he _ ih =>
    have hname : IsName p.1.toList := he.name ▸ e.name.isName
    exact List.forall_mem_cons.mpr ⟨hname, ih⟩

/-- **An envelope is a well-formed document that encloses what it was made of exactly if
that is proper.** -/
theorem wellFormed_envelope_iff {operation ns text : String} {params : Dictionary Value}
    (h : envelope operation ns params = .ok text) :
    (∃ d : Document, d.print = text.toList ∧ d.WellFormed ∧ Encloses d operation params) ↔
      Proper operation ns params := by
  have htext := toList_envelope h
  constructor
  · rintro ⟨d, hprint, hwf, c, -, -, hcall⟩
    by_cases hop : operation = ""
    · exact Or.inl hop
    · obtain ⟨e, -, hname, hchildren⟩ := hcall hop
      have hxml : IsXmlText (operationElement operation ns params) := by
        have hall := hwf.chars
        rw [hprint, htext, if_neg hop, isXmlText_append, isXmlText_append] at hall
        exact hall.1.2
      obtain ⟨-, hns, hparams⟩ := isXmlText_operationElement.mp hxml
      refine Or.inr ⟨hname ▸ e.name.isName, hns, fun p hp => ⟨?_, (hparams p hp).2⟩⟩
      exact isName_of_holds hchildren p hp
  · intro hproper
    have hnames : operation = "" ∨ IsName operation.toList ∧ ∀ p ∈ params, IsName p.1.toList :=
      hproper.imp_right fun hp => ⟨hp.1, fun p hmem => (hp.2.2 p hmem).1⟩
    obtain ⟨d, hprint, hencloses, hwf⟩ := exists_encloses h hnames
    refine ⟨d, hprint, hwf ?_, hencloses⟩
    rw [htext, isXmlText_append, isXmlText_append]
    refine ⟨⟨isXmlText_opening, ?_⟩, isXmlText_closing⟩
    split
    case isTrue => exact isXmlText_nil
    case isFalse hop =>
      obtain ⟨hname, hns, hparams⟩ := hproper.resolve_left hop
      refine isXmlText_operationElement.mpr ⟨isXmlText_of_isName hname, hns, fun p hp => ?_⟩
      exact ⟨isXmlText_of_isName (hparams p hp).1, (hparams p hp).2⟩

theorem wellFormed_envelope_two :
    (∃ text, envelope "Sum" "urn:x&<" [("a", .string "1 < 2"), ("b", .null)] = .ok text ∧
      ∃ d : Document, d.print = text.toList ∧ d.WellFormed ∧
        Encloses d "Sum" [("a", .string "1 < 2"), ("b", .null)]) ∧
    (∃ text, envelope "Sum" "urn:x" [("a", .string "\x01")] = .ok text ∧
      ¬ ∃ d : Document, d.print = text.toList ∧ d.WellFormed ∧
        Encloses d "Sum" [("a", .string "\x01")]) := by
  have hop : IsName "Sum".toList := by decide
  have henvelope := envelope_of_ne (by decide : "Sum" ≠ "")
  constructor
  · refine ⟨_, henvelope _ _, (wellFormed_envelope_iff (henvelope _ _)).mpr ?_⟩
    refine Or.inr ⟨hop, by decide, fun p hp => ?_⟩
    rcases List.mem_cons.mp hp with rfl | hp
    · exact ⟨by decide, by decide⟩
    · rw [List.mem_singleton.mp hp]
      exact ⟨by decide, by decide⟩
  · refine ⟨_, henvelope _ _, fun hd => ?_⟩
    rcases (wellFormed_envelope_iff (henvelope _ _)).mp hd with h | ⟨-, -, hparams⟩
    · exact absurd h (by decide)
    · exact absurd (hparams _ List.mem_cons_self).2 (by decide)

/-! ### A key that is markup -/

/-- Two elements without content and a comment. -/
def markupContent : Content :=
  .empty [] ⟨⟨['a'], by decide⟩, [], noGap⟩
    (.empty [] ⟨⟨['b'], by decide⟩, [], noGap⟩
      (.aside [] (.comment ">Ada</a/><b/><!".toList fun h =>
        absurd (h.subset List.mem_cons_self) (by decide)) (.text [])))

theorem strict_markupContent : markupContent.Strict := by
  have htext : CharData.Strict [] := strict_escaped isXmlText_nil
  have htag : ∀ name, Tag.Strict ⟨name, [], noGap⟩ := fun _ =>
    ⟨List.nodup_nil, List.forall_mem_nil _⟩
  have hcomment : ¬ ['-'] <:+ ">Ada</a/><b/><!".toList := by decide
  exact ⟨htext, htag _, htext, htag _, htext, hcomment, htext⟩

/-- **A key that is no name can put other elements in the place of its own**: what
begins as the key's element ends as a comment. -/
theorem envelope_of_markup :
    ∃ text, envelope "Get" "urn:x" [("a/><b/><!--", .string "Ada")] = .ok text ∧
      (∃ (d : Document) (c : Content) (e : Element),
        d.print = text.toList ∧ d.WellFormed ∧ HasBody d c ∧ c.children = [e] ∧
          e.content.children.map (fun child => child.name.chars) = [['a'], ['b']]) ∧
      ¬ ∃ d : Document, d.print = text.toList ∧ d.WellFormed ∧
        Encloses d "Get" [("a/><b/><!--", .string "Ada")] := by
  have hop : IsName "Get".toList := by decide
  have hcontent : markupContent.print
      = List.flatMap parameterElement [("a/><b/><!--", .string "Ada")] := by decide
  have hprint : (enclosing (bodyContent (operationTag ⟨_, hop⟩ "urn:x") markupContent)).print
      = opening.toList ++ operationElement "Get" "urn:x" [("a/><b/><!--", .string "Ada")]
        ++ closing.toList := by
    rw [← print_operation hop "urn:x" hcontent]
    exact print_document _ "urn:x" markupContent
  have hwf :
      (enclosing (bodyContent (operationTag ⟨_, hop⟩ "urn:x") markupContent)).WellFormed := by
    refine wellFormed_enclosing ⟨strict_escaped (by decide), strict_operationTag (by decide),
      strict_markupContent, strict_escaped (by decide)⟩ ?_
    rw [hprint, isXmlText_append, isXmlText_append]
    exact ⟨⟨isXmlText_opening, by decide⟩, isXmlText_closing⟩
  refine ⟨_, envelope_of_ne (by decide) _ _, ⟨_, _, ⟨⟨_, hop⟩, markupContent⟩,
    hprint.trans String.toList_ofList.symm, hwf, hasBody_enclosing _, rfl, rfl⟩, ?_⟩
  -- no element has the key for its name
  rintro ⟨d, -, -, c, -, -, hcall⟩
  obtain ⟨e, -, -, hchildren⟩ := hcall (by decide)
  have hname := isName_of_holds hchildren _ List.mem_cons_self
  exact absurd hname (by decide)

end Switchboard.Soap
