import Switchboard.Proofs.Xml.Reference
import Switchboard.Proofs.Xml.Scanning
import Switchboard.Soap.Fields

/-!
# What the reader of envelopes computes

The reader takes one token after another.  On the tokens of a document it computes
a function of the tree: the fields of the elements below the bodies of the root.

## Main definitions

* `field?` — the field of one element.
* `treeFields` — the fields of a document, off its tree.
* `Reading.after` — what the reader has come to after content inside a body.

## Main results

* `foldlM_inside`, `foldlM_outside`, `foldlM_root` — the three places that content
  can stand in.
* `fieldsOf_document` — the reader on the tokens of a document.
* `fields_print` — **the fields of a document are those of its tree**.
-/

namespace Switchboard.Soap

open Xml
open Text.Utf8 (encodeChars decodeCharsLossy_encodeChars)

/-! ### Fields of a tree -/

/-- The field of an element that holds no element and whose text is not blank.  A name
that ends at its colon has no local part, and an element of that name no field. -/
def field? (e : Element) : Option (String × String) :=
  if e.content.children.isEmpty ∧ Text.trimChars e.content.chars ≠ [] ∧ e.name.localName ≠ "" then
    some (e.name.localName, String.ofList (Text.trimChars e.content.chars))
  else none

/-- The fields of all elements in content, in document order. -/
def entries (c : Content) : List (String × String) := c.descendants.filterMap field?

/-- The fields of all elements below those that are named as a body. -/
def bodyEntries (c : Content) : List (String × String) :=
  (c.children.filter fun e => e.name.localName = "Body").flatMap fun e => entries e.content

/-- How the root is shown where it is not the one expected. -/
def rootTag : Root → String
  | .element tag _ _ => "<" ++ tag.name.localName ++ ">"
  | .empty tag => "<" ++ tag.name.localName ++ "/>"

/-- The fields of a document whose root is an envelope. -/
def treeFields (d : Document) : Except Failure (Dictionary String) :=
  if d.root.toElement.name.localName = "Envelope" then
    .ok (Dictionary.ofList (bodyEntries d.root.toElement.content))
  else .error (Reading.notEnvelope (rootTag d.root))

theorem bodyEntries_element (t : CharData) (tag : Tag) (inner : Content) (gap : Gap)
    (tail : Content) :
    bodyEntries (.element t tag inner gap tail)
      = (if tag.name.localName = "Body" then entries inner else []) ++ bodyEntries tail := by
  rw [bodyEntries, Content.children, List.filter_cons]
  by_cases h : tag.name.localName = "Body"
  · rw [if_pos (decide_eq_true h), if_pos h, List.flatMap_cons]
    rfl
  · rw [if_neg (by simpa using h), if_neg h]
    rfl

theorem bodyEntries_empty (t : CharData) (tag : Tag) (tail : Content) :
    bodyEntries (.empty t tag tail) = bodyEntries tail := by
  rw [bodyEntries, Content.children, List.filter_cons]
  split
  · rfl
  · rfl

/-- The dictionary with entries put in, one after the other. -/
def insertAll (found : Dictionary String) (es : List (String × String)) : Dictionary String :=
  es.foldl (fun d e => Dictionary.insert e.1 e.2 d) found

theorem insertAll_append (found : Dictionary String) (es fs : List (String × String)) :
    insertAll found (es ++ fs) = insertAll (insertAll found es) fs := List.foldl_append

theorem descendants_eq_nil {c : Content} (h : c.children = []) : c.descendants = [] := by
  induction c with
  | text t => rfl
  | element t tag inner gap tail _ _ => cases h
  | empty t tag tail _ => cases h
  | cdata t s tail ih => exact ih h
  | aside t a tail ih => exact ih h

theorem entries_eq_nil {c : Content} (h : c.children = []) : entries c = [] := by
  rw [entries, descendants_eq_nil h]
  rfl

theorem entries_element (t : CharData) (tag : Tag) (inner : Content) (gap : Gap)
    (tail : Content) :
    entries (.element t tag inner gap tail)
      = (field? ⟨tag.name, inner⟩).toList ++ entries inner ++ entries tail := by
  rw [entries, Content.descendants, List.filterMap_cons, List.filterMap_append]
  cases field? ⟨tag.name, inner⟩ <;> rfl

theorem entries_empty (t : CharData) (tag : Tag) (tail : Content) :
    entries (.empty t tag tail) = entries tail := by
  have hblank : field? ⟨tag.name, .text []⟩ = none := if_neg fun h => h.2.1 rfl
  rw [entries, Content.descendants, List.filterMap_cons, hblank]
  rfl

namespace Reading

variable {r : Reading}

/-! ### Steps -/

theorem foldlM_step {t : Token} {r' : Reading} (h : r.step t = .ok r') (ts : List Token) :
    (t :: ts).foldlM step r = ts.foldlM step r' := by
  rw [List.foldlM_cons, h]
  rfl

theorem collect_append (r : Reading) (cs ds : List Char) :
    r.collect (cs ++ ds) = (r.collect cs).collect ds := by
  unfold collect
  by_cases h : r.current = ""
  · simp only [if_pos h]
  · simp only [if_neg h, List.append_assoc]

theorem collect_nil (r : Reading) : r.collect [] = r := by
  unfold collect
  split
  · rfl
  · rw [List.append_nil]

theorem collect_of_idle (h : r.current = "") (cs : List Char) : r.collect cs = r := if_pos h

@[simp] theorem inBody_collect (r : Reading) (cs : List Char) :
    (r.collect cs).inBody = r.inBody := by
  unfold collect
  split <;> rfl

@[simp] theorem depth_collect (r : Reading) (cs : List Char) :
    (r.collect cs).depth = r.depth := by
  unfold collect
  split <;> rfl

/-- The reader with entries put in and no text being collected. -/
def settle (r : Reading) (es : List (String × String)) : Reading :=
  { r.forget with found := insertAll r.found es }

@[simp] theorem settle_collect (r : Reading) (cs : List Char) (es : List (String × String)) :
    (r.collect cs).settle es = r.settle es := by
  unfold collect
  split <;> rfl

@[simp] theorem settle_settle (r : Reading) (es fs : List (String × String)) :
    (r.settle es).settle fs = r.settle (es ++ fs) := by
  rw [settle, settle, settle, insertAll_append]
  rfl

theorem step_charData (r : Reading) (t : CharData) :
    r.step (.text (encodeChars t.print)) = .ok (r.collect t.chars) := by
  by_cases h : r.current = ""
  · rw [step, if_pos h, collect_of_idle h]
  · rw [step, if_neg h, textOf?_print]

/-- Character data is collected. -/
theorem foldlM_charData (t : CharData) (ts : List Token) :
    (textTokens t.print ++ ts).foldlM step r = ts.foldlM step (r.collect t.chars) := by
  by_cases hnil : t.print = []
  · rw [textTokens, if_pos hnil, CharData.chars_eq_nil hnil, collect_nil]
    rfl
  · rw [textTokens, if_neg hnil, List.singleton_append, foldlM_step (step_charData r t)]

/-- Where no text is collected, character data changes nothing. -/
theorem foldlM_textTokens (h : r.current = "") (cs : List Char) (ts : List Token) :
    (textTokens cs ++ ts).foldlM step r = ts.foldlM step r := by
  rw [textTokens]
  split
  · rfl
  · exact foldlM_step (by rw [step, if_pos h]) ts

theorem step_cdata (s : Section) :
    r.step (.cdata (encodeChars s.chars)) = .ok (r.collect s.chars) := by
  rw [step, decodeCharsLossy_encodeChars]

theorem step_empty (h : 0 < r.depth) (n : Name) :
    r.step (.empty (encodeChars n.chars)) = .ok (r.settle []) := by
  rw [step, empty?, if_neg (Nat.ne_of_gt h)]
  rfl

/-- The reader at the beginning of an element below a body. -/
def enter (r : Reading) (n : Name) : Reading :=
  { r with depth := r.depth + 1, current := n.localName, text := [] }

/-- Below a body, a start tag begins a new text. -/
theorem step_open_inside (hbody : r.inBody = true) (hdepth : 2 ≤ r.depth) (n : Name) :
    r.step (.open (encodeChars n.chars)) = .ok (r.enter n) := by
  rw [step, localText_encode, open?]
  rw [if_neg (by simp; omega), if_neg (by simp [hbody]), if_pos (by simp [hbody]; omega), enter]

/-- Below another child of the root, it is only counted. -/
theorem step_open_outside (hbody : r.inBody = false) (hdepth : 2 ≤ r.depth) (n : Name) :
    r.step (.open (encodeChars n.chars)) = .ok { r with depth := r.depth + 1 } := by
  rw [step, localText_encode, open?]
  rw [if_neg (by simp; omega), if_neg (by simp; omega), if_neg (by simp [hbody])]

/-- Directly below the root, it may begin a body. -/
theorem step_open_second (hbody : r.inBody = false) (hdepth : r.depth = 1) (n : Name) :
    r.step (.open (encodeChars n.chars))
      = .ok { r with depth := 2, inBody := decide (n.localName = "Body") } := by
  rw [step, localText_encode, open?]
  by_cases h : n.localName = "Body"
  · simp [hbody, hdepth, h]
  · simp [hbody, hdepth, h]

/-! ### Below a body -/

/-- What the reader has come to after content below a body: an element in it ends the
text that was being collected. -/
def after (r : Reading) (c : Content) : Reading :=
  if c.children = [] then r.collect c.chars else r.settle (entries c)

theorem after_of_nil {c : Content} (h : c.children = []) : r.after c = r.collect c.chars :=
  if_pos h

theorem after_of_ne_nil {c : Content} (h : c.children ≠ []) : r.after c = r.settle (entries c) :=
  if_neg h

theorem after_settle (r : Reading) (es : List (String × String)) (c : Content) :
    (r.settle es).after c = r.settle (es ++ entries c) := by
  by_cases h : c.children = []
  · rw [after_of_nil h, collect_of_idle rfl, entries_eq_nil h, List.append_nil]
  · rw [after_of_ne_nil h, settle_settle]

theorem after_cdata (r : Reading) (t : CharData) (s : Section) (tail : Content) :
    ((r.collect t.chars).collect s.chars).after tail = r.after (.cdata t s tail) := by
  by_cases h : tail.children = []
  · rw [after_of_nil h, after_of_nil (c := .cdata t s tail) h, Content.chars, collect_append,
      collect_append]
  · rw [after_of_ne_nil h, after_of_ne_nil (c := .cdata t s tail) h, settle_collect,
      settle_collect]
    rfl

theorem after_aside (r : Reading) (t : CharData) (a : Aside) (tail : Content) :
    (r.collect t.chars).after tail = r.after (.aside t a tail) := by
  by_cases h : tail.children = []
  · rw [after_of_nil h, after_of_nil (c := .aside t a tail) h, Content.chars, collect_append]
  · rw [after_of_ne_nil h, after_of_ne_nil (c := .aside t a tail) h, settle_collect]
    rfl

/-- An end tag below a body puts in what was collected, if it is not blank. -/
theorem close_inside (hbody : r.inBody = true) (hdepth : 2 < r.depth) :
    r.close =
      { r.settle (if r.current ≠ "" ∧ Text.trimChars r.text ≠ [] then
          [(r.current, String.ofList (Text.trimChars r.text))] else []) with
        depth := r.depth - 1 } := by
  have hstays : (r.inBody && r.depth ≠ 2) = r.inBody := by
    rw [hbody, Bool.true_and, decide_eq_true_iff]
    omega
  rw [close, hstays]
  simp only [hbody, hdepth, true_and]
  split <;> simp [settle, forget, hbody, insertAll]

/-- An element below a body, from its start tag to its end tag. -/
theorem close_after (hbody : r.inBody = true) (hdepth : 2 ≤ r.depth) (tag : Tag)
    (inner : Content) :
    ((r.enter tag.name).after inner).close
      = r.settle ((field? ⟨tag.name, inner⟩).toList ++ entries inner) := by
  have hmore : 2 < (r.enter tag.name).depth := Nat.lt_succ_of_le hdepth
  have hin : (r.enter tag.name).inBody = true := hbody
  by_cases hinner : inner.children = []
  · -- the text of the element has been collected whole, if it has a name
    rw [after_of_nil hinner, entries_eq_nil hinner, List.append_nil,
      close_inside (by rw [inBody_collect, hin]) (by rw [depth_collect]; exact hmore), collect]
    by_cases hname : tag.name.localName = ""
    · have hcurrent : (r.enter tag.name).current = "" := hname
      have hfield : field? ⟨tag.name, inner⟩ = none := if_neg fun h => h.2.2 hname
      rw [if_pos hcurrent, hfield]
      simp [settle, forget, enter, hname]
    · have hcurrent : (r.enter tag.name).current ≠ "" := hname
      rw [if_neg hcurrent, field?]
      by_cases hblank : Text.trimChars inner.chars = []
      · simp [settle, forget, enter, hname, hblank]
      · simp [settle, forget, enter, hname, hblank, hinner]
  · -- an element inside has ended the text
    have hfield : field? ⟨tag.name, inner⟩ = none :=
      if_neg fun h => hinner (List.isEmpty_iff.mp h.1)
    rw [after_of_ne_nil hinner,
      close_inside (r := (r.enter tag.name).settle (entries inner)) hin hmore, hfield]
    simp [settle, forget, enter, insertAll]

/-- **Content below a body.**  By induction on the content: every element starts a text
of its own and ends the one that was being collected. -/
theorem foldlM_inside (c : Content) :
    ∀ (r : Reading) (ts : List Token), r.inBody = true → 2 ≤ r.depth →
      (c.tokens ++ ts).foldlM step r = ts.foldlM step (r.after c) := by
  induction c with
  | text t => exact fun r ts _ _ => foldlM_charData t ts
  | element t tag inner gap tail ihinner ihtail =>
    intro r ts hbody hdepth
    -- the text before the element is dropped when the element ends
    have hbody' : (r.collect t.chars).inBody = true := by rw [inBody_collect, hbody]
    have hdepth' : 2 ≤ (r.collect t.chars).depth := by rw [depth_collect]; exact hdepth
    rw [Content.tokens, List.append_assoc, foldlM_charData, List.cons_append, List.append_assoc,
      foldlM_step (step_open_inside hbody' hdepth' tag.name),
      ihinner (enter _ _) _ hbody' (Nat.le_succ_of_le hdepth'), List.cons_append,
      foldlM_step (step_close _ _), close_after hbody' hdepth', settle_collect]
    rw [ihtail (r.settle _) ts hbody hdepth, after_settle,
      after_of_ne_nil (c := .element t tag inner gap tail) (List.cons_ne_nil _ _),
      entries_element]
  | empty t tag tail ih =>
    intro r ts hbody hdepth
    -- as it is by an element without content, which gives no entry
    have hopen : 0 < (r.collect t.chars).depth := by rw [depth_collect]; omega
    rw [Content.tokens, List.append_assoc, foldlM_charData, List.cons_append,
      foldlM_step (step_empty hopen tag.name), settle_collect]
    rw [ih (r.settle []) ts hbody hdepth, after_settle,
      after_of_ne_nil (c := .empty t tag tail) (List.cons_ne_nil _ _), entries_empty,
      List.nil_append]
  | cdata t s tail ih =>
    intro r ts hbody hdepth
    rw [Content.tokens, List.append_assoc, foldlM_charData, List.cons_append,
      foldlM_step (step_cdata s), ih _ _ (by simpa using hbody) (by simpa using hdepth),
      after_cdata]
  | aside t a tail ih =>
    intro r ts hbody hdepth
    rw [Content.tokens, List.append_assoc, foldlM_charData, List.cons_append,
      foldlM_step (step_other _), ih _ _ (by simpa using hbody) (by simpa using hdepth),
      after_aside]

/-! ### Outside a body -/

/-- No text is being collected. -/
def Idle (r : Reading) : Prop := r.current = "" ∧ r.text = []

theorem Idle.settle_nil (h : r.Idle) : r.settle [] = r := by
  obtain ⟨depth, saw, inBody, current, text, found⟩ := r
  obtain ⟨rfl, rfl⟩ := h
  rfl

theorem close_outside (hidle : r.Idle) (hbody : r.inBody = false) :
    ({ r with depth := r.depth + 1 } : Reading).close = r := by
  obtain ⟨depth, saw, inBody, current, text, found⟩ := r
  obtain ⟨rfl, rfl⟩ := hidle
  cases hbody
  rfl

/-- Content below another child of the root changes nothing. -/
theorem foldlM_outside (c : Content) :
    ∀ (r : Reading) (ts : List Token), r.Idle → r.inBody = false → 2 ≤ r.depth →
      (c.tokens ++ ts).foldlM step r = ts.foldlM step r := by
  induction c with
  | text t => exact fun r ts hidle _ _ => foldlM_textTokens hidle.1 _ ts
  | element t tag inner gap tail ihinner ihtail =>
    intro r ts hidle hbody hdepth
    rw [Content.tokens, List.append_assoc, foldlM_textTokens hidle.1, List.cons_append,
      List.append_assoc, foldlM_step (step_open_outside hbody hdepth tag.name),
      ihinner { r with depth := r.depth + 1 } _ hidle hbody (Nat.le_succ_of_le hdepth),
      List.cons_append, foldlM_step (step_close _ _), close_outside hidle hbody,
      ihtail r ts hidle hbody hdepth]
  | empty t tag tail ih =>
    intro r ts hidle hbody hdepth
    rw [Content.tokens, List.append_assoc, foldlM_textTokens hidle.1, List.cons_append,
      foldlM_step (step_empty (Nat.lt_of_lt_of_le Nat.two_pos hdepth) tag.name),
      hidle.settle_nil, ih r ts hidle hbody hdepth]
  | cdata t s tail ih =>
    intro r ts hidle hbody hdepth
    rw [Content.tokens, List.append_assoc, foldlM_textTokens hidle.1, List.cons_append,
      foldlM_step (step_cdata s), collect_of_idle hidle.1, ih r ts hidle hbody hdepth]
  | aside t a tail ih =>
    intro r ts hidle hbody hdepth
    rw [Content.tokens, List.append_assoc, foldlM_textTokens hidle.1, List.cons_append,
      foldlM_step (step_other _), ih r ts hidle hbody hdepth]

/-! ### Directly below the root -/

/-- A child of the root, from its start tag to its end tag. -/
theorem foldlM_child (hidle : r.Idle) (hbody : r.inBody = false) (hdepth : r.depth = 1)
    (n : Name) (inner : Content) (ts : List Token) :
    (.open (encodeChars n.chars) :: (inner.tokens ++ .close (encodeChars n.chars) :: ts)).foldlM
        step r
      = ts.foldlM step (r.settle (if n.localName = "Body" then entries inner else [])) := by
  rw [foldlM_step (step_open_second hbody hdepth n)]
  by_cases h : n.localName = "Body"
  · -- its entries are put in, and its end tag leaves the body
    have hidle' : Idle { r with depth := 2, inBody := true } := hidle
    rw [decide_eq_true h, if_pos h, foldlM_inside _ _ _ rfl (Nat.le_refl 2),
      foldlM_step (step_close _ _), ← hidle'.settle_nil, after_settle, List.nil_append]
    apply congrArg (ts.foldlM step)
    obtain ⟨depth, saw, inBody, current, text, found⟩ := r
    cases hbody
    cases hdepth
    rfl
  · have hidle' : Idle { r with depth := 2, inBody := false } := hidle
    rw [decide_eq_false h, if_neg h, foldlM_outside _ _ _ hidle' rfl (Nat.le_refl 2),
      foldlM_step (step_close _ _), hidle.settle_nil]
    apply congrArg (ts.foldlM step)
    obtain ⟨depth, saw, inBody, current, text, found⟩ := r
    obtain ⟨rfl, rfl⟩ := hidle
    cases hbody
    cases hdepth
    rfl

/-- **The content of the root.** -/
theorem foldlM_root (c : Content) :
    ∀ (r : Reading) (ts : List Token), r.Idle → r.inBody = false → r.depth = 1 →
      (c.tokens ++ ts).foldlM step r = ts.foldlM step (r.settle (bodyEntries c)) := by
  induction c with
  | text t =>
    intro r ts hidle _ _
    have hnone : bodyEntries (.text t) = [] := rfl
    rw [Content.tokens, foldlM_textTokens hidle.1, hnone, hidle.settle_nil]
  | element t tag inner gap tail ihinner ihtail =>
    intro r ts hidle hbody hdepth
    rw [Content.tokens, List.append_assoc, foldlM_textTokens hidle.1, List.cons_append,
      List.append_assoc, List.cons_append, foldlM_child hidle hbody hdepth,
      ihtail (r.settle _) ts ⟨rfl, rfl⟩ hbody hdepth, settle_settle, bodyEntries_element]
  | empty t tag tail ih =>
    intro r ts hidle hbody hdepth
    rw [Content.tokens, List.append_assoc, foldlM_textTokens hidle.1, List.cons_append,
      foldlM_step (step_empty (by omega) tag.name), hidle.settle_nil,
      ih r ts hidle hbody hdepth, bodyEntries_empty]
  | cdata t s tail ih =>
    intro r ts hidle hbody hdepth
    rw [Content.tokens, List.append_assoc, foldlM_textTokens hidle.1, List.cons_append,
      foldlM_step (step_cdata s), collect_of_idle hidle.1, ih r ts hidle hbody hdepth]
    rfl
  | aside t a tail ih =>
    intro r ts hidle hbody hdepth
    rw [Content.tokens, List.append_assoc, foldlM_textTokens hidle.1, List.cons_append,
      foldlM_step (step_other _), ih r ts hidle hbody hdepth]
    rfl

theorem foldlM_misc (m : Misc) (h : r.current = "") (ts : List Token) :
    (m.tokens ++ ts).foldlM step r = ts.foldlM step r := by
  induction m with
  | nil => rfl
  | cons p m ih =>
    obtain ⟨g, a⟩ := p
    rw [Misc.tokens_cons, List.append_assoc, foldlM_textTokens h, List.cons_append,
      foldlM_step (step_other _), ih]

/-! ### At the root -/

theorem step_open_root (hdepth : r.depth = 0) (n : Name) :
    r.step (.open (encodeChars n.chars))
      = if n.localName = "Envelope" then .ok { r with depth := 1, sawEnvelope := true }
        else .error (notEnvelope ("<" ++ n.localName ++ ">")) := by
  rw [step, localText_encode, open?]
  simp [hdepth]

theorem step_empty_root (hdepth : r.depth = 0) (n : Name) :
    r.step (.empty (encodeChars n.chars))
      = if n.localName = "Envelope" then .ok { r.forget with sawEnvelope := true }
        else .error (notEnvelope ("<" ++ n.localName ++ "/>")) := by
  rw [step, localText_encode, empty?]
  simp [hdepth]

end Reading

/-! ### Documents -/

/-- What follows the root changes nothing. -/
theorem foldlM_end {r : Reading} (h : r.current = "") (d : Document) :
    (d.epilog.tokens ++ textTokens d.after.chars).foldlM Reading.step r = .ok r := by
  have hafter := Reading.foldlM_textTokens h d.after.chars []
  rw [List.append_nil] at hafter
  rw [Reading.foldlM_misc _ h, hafter]
  rfl

/-- The reader on the root and what follows it. -/
theorem foldlM_document (d : Document) :
    d.tokens.foldlM Reading.step Reading.start
      = if d.root.toElement.name.localName = "Envelope" then
          .ok { Reading.start with
            sawEnvelope := true
            found := Dictionary.ofList (bodyEntries d.root.toElement.content) }
        else .error (Reading.notEnvelope (rootTag d.root)) := by
  rw [Document.tokens, Reading.foldlM_misc _ rfl, Reading.foldlM_textTokens rfl]
  cases d.root with
  | element tag inner gap =>
    rw [Root.tokens, List.cons_append, List.append_assoc, List.foldlM_cons,
      Reading.step_open_root rfl]
    show _ = if tag.name.localName = "Envelope" then _ else _
    split
    · show (inner.tokens ++ _).foldlM Reading.step _ = _
      rw [Reading.foldlM_root inner _ _ ⟨rfl, rfl⟩ rfl rfl, List.singleton_append,
        Reading.foldlM_step (Reading.step_close _ _), foldlM_end rfl]
      rfl
    · rfl
  | empty tag =>
    rw [Root.tokens, List.singleton_append, List.foldlM_cons, Reading.step_empty_root rfl]
    show _ = if tag.name.localName = "Envelope" then _ else _
    split
    · exact foldlM_end rfl d
    · rfl

theorem fieldsOf_document (d : Document) : fieldsOf d.tokens = treeFields d := by
  rw [fieldsOf, foldlM_document, treeFields]
  by_cases h : d.root.toElement.name.localName = "Envelope"
  · rw [if_pos h, if_pos h]
    rfl
  · rw [if_neg h, if_neg h]

/-- **The fields of a document are those of its tree.** -/
theorem fields_print (d : Document) : fields (encodeChars d.print) = treeFields d := by
  rw [fields, tokens_print, fieldsOf_document]

end Switchboard.Soap
