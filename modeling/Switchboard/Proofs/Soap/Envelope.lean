import Switchboard.Proofs.Dictionary
import Switchboard.Proofs.Soap.Fields
import Switchboard.Soap.Envelope

/-!
# Envelopes are read back

The envelope of an operation is a document, and the fields of that document are the
parameters of the operation.

## Main definitions

* `parameterField?` — what is left of a parameter once it was written and read.
* `parametersContent` — the parameters as the content of an element.
* `document` — the document of an envelope.

## Main results

* `entries_parametersContent` — the fields of the parameters.
* `exists_document` — an envelope is a document.
* `fields_envelope` — **what is read from an envelope is what was written into it**.
-/

namespace Switchboard.Soap

open Xml
open Json (Value)

/-! ### Plain parts -/

/-- No blanks. -/
def noGap : Gap := ⟨[], fun _ h => absurd h List.not_mem_nil⟩

/-- A name as an attribute with one blank before it and a value in double quotes. -/
def plainAttribute (name : Name) (value : List Char) (h : '"' ∉ value) : Attribute where
  before := ⟨[' '], by simp [isBlankChar]⟩
  before_ne := List.cons_ne_nil _ _
  name := name
  left := noGap
  right := noGap
  quote := '"'
  isQuote := Or.inl rfl
  value := value
  notMem := h

theorem print_plainAttribute (name : Name) (value : List Char) (h : '"' ∉ value) :
    (plainAttribute name value h).print = ' ' :: name.chars ++ '=' :: '"' :: value ++ ['"'] := by
  simp [plainAttribute, noGap, Attribute.print]

theorem quote_notMem_escapeChars (cs : List Char) : '"' ∉ escapeChars cs :=
  notMem_escapeChars (by simp) cs

/-- Characters as the writer escapes them. -/
def escaped (cs : List Char) : CharData := cs.map escapedPiece

theorem print_escaped (cs : List Char) : (escaped cs).print = escapeChars cs :=
  (escapeChars_eq_print cs).symm

theorem chars_escaped (cs : List Char) : (escaped cs).chars = cs := chars_map_escapedPiece cs

/-! ### Parameters -/

/-- What is left of a parameter: its text without the blanks at both ends, unless
nothing is. -/
def parameterField? (p : String × Value) : Option (String × String) :=
  if Text.trimChars (parameterText p.2) = [] then none
  else some (p.1, String.ofList (Text.trimChars (parameterText p.2)))

theorem parameterField?_key {p : String × Value} {q : String × String}
    (h : parameterField? p = some q) : q.1 = p.1 := by
  unfold parameterField? at h
  split at h
  · cases h
  · cases h
    rfl

/-- The field of the element that a parameter is written as. -/
theorem field?_parameter {key : String} (hname : IsName key.toList) (hcolon : ':' ∉ key.toList)
    (v : Value) :
    field? ⟨⟨key.toList, hname⟩, .text (escaped (parameterText v))⟩ = parameterField? (key, v) := by
  have hlocal : Name.localName ⟨key.toList, hname⟩ = key := by
    rw [Name.localName_of_notMem hcolon, String.ofList_toList]
  have hne : key ≠ "" := by
    rintro rfl
    exact hname
  have hchars : Content.chars (.text (escaped (parameterText v))) = parameterText v :=
    chars_escaped _
  rw [field?, parameterField?, hlocal, hchars]
  by_cases h : Text.trimChars (parameterText v) = []
  · simp [h]
  · simp [h, hne, Content.children]

/-- The parameters as the content of an element, with no text between them. -/
def parametersContent : (params : Dictionary Value) → (∀ p ∈ params, IsName p.1.toList) → Content
  | [], _ => .text []
  | p :: params, h =>
    .element [] ⟨⟨p.1.toList, h p List.mem_cons_self⟩, [], noGap⟩
      (.text (escaped (parameterText p.2))) noGap
      (parametersContent params fun q hq => h q (List.mem_cons_of_mem p hq))

theorem print_parametersContent (params : Dictionary Value)
    (h : ∀ p ∈ params, IsName p.1.toList) :
    (parametersContent params h).print = params.flatMap parameterElement := by
  induction params with
  | nil => rfl
  | cons p params ih =>
    rw [List.flatMap_cons, ← ih fun q hq => h q (List.mem_cons_of_mem p hq), parametersContent,
      Content.print, Content.print, print_escaped]
    simp [parameterElement, CharData.print, Tag.printOpen, Tag.print, printClose, noGap]

theorem chars_parametersContent (params : Dictionary Value)
    (h : ∀ p ∈ params, IsName p.1.toList) : (parametersContent params h).chars = [] := by
  induction params with
  | nil => rfl
  | cons p params ih => exact ih _

/-- **The fields of the parameters** are what is left of each, where no name has a prefix. -/
theorem entries_parametersContent (params : Dictionary Value)
    (h : ∀ p ∈ params, IsName p.1.toList) (hcolon : ∀ p ∈ params, ':' ∉ p.1.toList) :
    entries (parametersContent params h) = params.filterMap parameterField? := by
  induction params with
  | nil => rfl
  | cons p params ih =>
    obtain ⟨hp, hrest⟩ := List.forall_mem_cons.mp hcolon
    rw [parametersContent, entries_element, field?_parameter _ hp p.2, ih _ hrest,
      List.filterMap_cons]
    cases parameterField? (p.1, p.2) <;> rfl

/-! ### The document -/

/-- The declaration that an envelope begins with. -/
def declaration : Aside :=
  .instruction ⟨['x', 'm', 'l'], by decide⟩ " version=\"1.0\" encoding=\"utf-8\"".toList
    fun h => absurd (h.subset List.mem_cons_self) (by simp)

/-- The prefix of the envelope's own elements. -/
def soapAttribute : Attribute :=
  plainAttribute ⟨['x', 'm', 'l', 'n', 's', ':', 's', 'o', 'a', 'p'], by decide⟩
    envelopeNamespace.toList (by simp [envelopeNamespace])

/-- The prefix of the attributes that instances of a schema may have. -/
def instanceAttribute : Attribute :=
  plainAttribute ⟨['x', 'm', 'l', 'n', 's', ':', 'x', 's', 'i'], by decide⟩
    "http://www.w3.org/2001/XMLSchema-instance".toList (by simp)

/-- The prefix of the types of a schema. -/
def schemaAttribute : Attribute :=
  plainAttribute ⟨['x', 'm', 'l', 'n', 's', ':', 'x', 's', 'd'], by decide⟩
    "http://www.w3.org/2001/XMLSchema".toList (by simp)

/-- The tag of the root. -/
def envelopeTag : Tag where
  name := ⟨['s', 'o', 'a', 'p', ':', 'E', 'n', 'v', 'e', 'l', 'o', 'p', 'e'], by decide⟩
  attributes := [soapAttribute, instanceAttribute, schemaAttribute]
  after := noGap

/-- The tag of the body. -/
def bodyTag : Tag := ⟨⟨['s', 'o', 'a', 'p', ':', 'B', 'o', 'd', 'y'], by decide⟩, [], noGap⟩

/-- The tag of the operation. -/
def operationTag (operation : Name) (ns : String) : Tag where
  name := operation
  attributes :=
    [plainAttribute ⟨['x', 'm', 'l', 'n', 's'], by decide⟩ (escapeChars ns.toList)
      (quote_notMem_escapeChars _)]
  after := noGap

/-- The content of the body: one element, with blanks around it. -/
def bodyContent (tag : Tag) (inner : Content) : Content :=
  .element (escaped ['\n', ' ', ' ', ' ', ' ']) tag inner noGap (.text (escaped ['\n', ' ', ' ']))

/-- The content of the root: the body, with blanks around it. -/
def rootContent (tag : Tag) (inner : Content) : Content :=
  .element (escaped ['\n', ' ', ' ']) bodyTag (bodyContent tag inner) noGap
    (.text (escaped ['\n']))

/-- The document of an envelope whose body holds one element. -/
def document (tag : Tag) (inner : Content) : Document where
  mark := false
  prolog := [(noGap, declaration)]
  before := ⟨['\n'], by simp [isBlankChar]⟩
  root := .element envelopeTag (rootContent tag inner) noGap
  epilog := []
  after := noGap

theorem print_operationTag (operation : Name) (ns : String) :
    (operationTag operation ns).print
      = operation.chars ++ " xmlns=\"".toList ++ escapeChars ns.toList ++ ['"'] := by
  rw [operationTag, Tag.print, List.flatMap_singleton, print_plainAttribute]
  simp [noGap]

theorem printOpen_envelopeTag :
    envelopeTag.printOpen
      = "<soap:Envelope xmlns:soap=\"".toList ++ envelopeNamespace.toList ++ "\"".toList
        ++ instanceAttribute.print ++ schemaAttribute.print ++ ['>'] := by
  rw [Tag.printOpen, Tag.print, envelopeTag, List.flatMap_cons, List.flatMap_cons,
    List.flatMap_singleton, soapAttribute, print_plainAttribute]
  simp [noGap]

/-- What stands before the content of the body, as parts of a document. -/
theorem opening_toList :
    opening.toList
      = declaration.print ++ '\n' :: (envelopeTag.printOpen
        ++ '\n' :: ' ' :: ' ' :: (bodyTag.printOpen ++ ['\n', ' ', ' ', ' ', ' '])) := by
  have hdeclaration : "<?xml version=\"1.0\" encoding=\"utf-8\"?>\n".toList
      = declaration.print ++ ['\n'] := by
    delta declaration
    simp [Aside.print]
  have hinstance : " xmlns:xsi=\"http://www.w3.org/2001/XMLSchema-instance\"".toList
      = instanceAttribute.print := by
    delta instanceAttribute
    simp [print_plainAttribute]
  have hschema : " xmlns:xsd=\"http://www.w3.org/2001/XMLSchema\">\n".toList
      = schemaAttribute.print ++ ['>', '\n'] := by
    delta schemaAttribute
    simp [print_plainAttribute]
  have hbody : "  <soap:Body>\n    ".toList
      = ' ' :: ' ' :: bodyTag.printOpen ++ ['\n', ' ', ' ', ' ', ' '] := by
    simp [bodyTag, Tag.printOpen, Tag.print, noGap]
  -- unfolding by its equation would have the literals evaluated
  delta opening
  rw [String.toList_append, String.toList_append, String.toList_append, String.toList_append,
    String.toList_append, String.toList_append, hdeclaration, hinstance, hschema, hbody,
    printOpen_envelopeTag]
  simp only [List.append_assoc, List.cons_append, List.nil_append]

/-- What stands after it. -/
theorem closing_toList :
    closing.toList
      = '\n' :: ' ' :: ' ' :: (printClose bodyTag.name noGap
        ++ '\n' :: printClose envelopeTag.name noGap) := by
  simp [closing, printClose, bodyTag, envelopeTag, noGap]

theorem print_document (operation : Name) (ns : String) (c : Content) :
    (document (operationTag operation ns) c).print
      = opening.toList ++ ((operationTag operation ns).printOpen ++ c.print
        ++ printClose operation noGap) ++ closing.toList := by
  rw [opening_toList, closing_toList]
  simp [document, Document.print, Document.body, Root.print, rootContent, bodyContent,
    Content.print, Misc.print, print_escaped, escapeChars, escapeChar, noGap, operationTag]

theorem print_operation {operation : String} (h : IsName operation.toList) (ns : String)
    {params : Dictionary Value} {c : Content} (hc : c.print = params.flatMap parameterElement) :
    (operationTag ⟨operation.toList, h⟩ ns).printOpen ++ c.print
        ++ printClose ⟨operation.toList, h⟩ noGap
      = operationElement operation ns params := by
  rw [Tag.printOpen, print_operationTag, hc, operationElement]
  simp [printClose, noGap]

/-- **The fields of an envelope** are those of the elements in that of its operation,
which gives no field of its own when no text stands in it. -/
theorem treeFields_document (tag : Tag) {c : Content} (hchars : c.chars = []) :
    treeFields (document tag c) = .ok (Dictionary.ofList (entries c)) := by
  have hroot : (document tag c).root.toElement = ⟨envelopeTag.name, rootContent tag c⟩ := rfl
  have hname : envelopeTag.name.localName = "Envelope" := by decide
  have hbody : bodyTag.name.localName = "Body" := by decide
  have hnone : field? ⟨tag.name, c⟩ = none :=
    if_neg fun h => h.2.1 (congrArg Text.trimChars hchars)
  have hcontent : entries (bodyContent tag c) = entries c := by
    rw [bodyContent, entries_element, hnone]
    exact List.append_nil _
  have hfields : bodyEntries (rootContent tag c) = entries c := by
    rw [rootContent, bodyEntries_element, if_pos hbody, hcontent]
    exact List.append_nil _
  rw [treeFields, hroot, if_pos hname, hfields]

/-- **An envelope is a document**, and the fields of its tree are the parameters. -/
theorem exists_document {operation : String} (hop : IsName operation.toList) (ns : String)
    {params : Dictionary Value} (hkeys : ∀ p ∈ params, IsName p.1.toList ∧ ':' ∉ p.1.toList) :
    ∃ d : Document, envelope operation ns params = .ok (String.ofList d.print) ∧
      treeFields d = .ok (Dictionary.ofList (params.filterMap parameterField?)) := by
  have hnames : ∀ p ∈ params, IsName p.1.toList := fun p hp => (hkeys p hp).1
  have hne : operation ≠ "" := by
    rintro rfl
    exact hop
  refine ⟨document (operationTag ⟨operation.toList, hop⟩ ns) (parametersContent params hnames),
    ?_, ?_⟩
  · -- the text
    rw [print_document, print_operation hop ns (print_parametersContent params hnames), envelope,
      if_neg fun h => hne h.1]
    simp only [if_neg hne]
  · -- its fields
    rw [treeFields_document _ (chars_parametersContent params hnames),
      entries_parametersContent params hnames fun p hp => (hkeys p hp).2]

/-- **What is read from an envelope is what was written into it.** -/
theorem fields_envelope {operation : String} (hop : IsName operation.toList) (ns : String)
    {params : Dictionary Value} (hparams : params.Ordered)
    (hkeys : ∀ p ∈ params, IsName p.1.toList ∧ ':' ∉ p.1.toList) :
    ∃ text, envelope operation ns params = .ok text ∧
      fields (Text.Utf8.encode text) = .ok (params.filterMap parameterField?) := by
  obtain ⟨d, henvelope, htree⟩ := exists_document hop ns hkeys
  have hordered : Dictionary.Ordered (params.filterMap parameterField?) :=
    hparams.filterMap fun p q hq => parameterField?_key hq
  refine ⟨String.ofList d.print, henvelope, ?_⟩
  rw [Text.Utf8.encode, String.toList_ofList, fields, tokens_print, fieldsOf_document, htree,
    Dictionary.ofList_of_ordered hordered]

theorem fields_envelope_sum :
    ∃ text, envelope "m:Sum" "urn:x&<\"" [("a", .string " 1 < 2 "), ("b", .null)] = .ok text ∧
      fields (Text.Utf8.encode text) = .ok [("a", "1 < 2")] := by
  have hop : IsName "m:Sum".toList := by decide
  have hkeys : ∀ p ∈ [("a", Value.string " 1 < 2 "), ("b", .null)],
      IsName p.1.toList ∧ ':' ∉ p.1.toList := by
    intro p hp
    rcases List.mem_cons.mp hp with rfl | hp
    · exact ⟨by decide, by decide⟩
    · rw [List.mem_singleton.mp hp]
      exact ⟨by decide, by decide⟩
  exact fields_envelope hop "urn:x&<\"" (by decide) hkeys

end Switchboard.Soap
