import Switchboard.Proofs.Soap.Envelope
import Switchboard.Proofs.Soap.Fault

/-!
# What a fault says

The search for a fault takes one token after another.  On the tokens of a document it
computes a function of the tree: the texts of the parts of the faults on the third
level.  What it hears is not all that a fault says: it passes over plain sections, and
once a fault has begun it also listens to elements of that name outside the bodies.

## Main definitions

* `thirdLevel` — the elements on the third level, each with its parent.
* `BodyFault` — a fault: an element of that name in a body of the root.
* `faults`, `heard` — the faults of a document, and the elements that the search takes
  for one.
* `Fault.said` — the fault whose texts are those of the parts of some elements.

## Main results

* `foldlM_deep`, `foldlM_third`, `foldlM_second`, `foldlM_first` — the four places that
  content can stand in.
* `fault?_document` — **the fault of a document is that of its tree**.
* `isSome_fault?_iff` — **which documents hold a fault**.
* `fault?_eq_said` — **what the fault of a document says**, and where that is all that
  stands in its parts.
-/

namespace Switchboard.Soap

open Xml
open Text.Utf8 (encodeChars)

/-! ### Faults of a tree -/

/-- The elements on the third level of a document, in document order, each with its
parent. -/
def thirdLevel (c : Content) : List (Element × Element) :=
  c.children.flatMap fun b => b.content.children.map fun f => (b, f)

/-- An element is named as a fault. -/
def NamedFault (e : Element) : Prop := e.name.localName = "Fault"

instance : DecidablePred NamedFault := fun _ => inferInstanceAs (Decidable (_ = _))

/-- A child of the root and a child of it are a body and a fault. -/
def BodyFault (e : Element × Element) : Prop :=
  e.1.name.localName = "Body" ∧ NamedFault e.2

instance : DecidablePred BodyFault := fun _ => inferInstanceAs (Decidable (_ ∧ _))

/-- The faults below a root: the elements of that name in its bodies. -/
def faults (c : Content) : List Element :=
  ((thirdLevel c).filter BodyFault).map Prod.snd

/-- The elements below a root that the search takes for a fault: those of that name on
the third level, from the first fault on. -/
def heard (c : Content) : List Element :=
  (((thirdLevel c).dropWhile fun e => ¬ BodyFault e).filter fun e => NamedFault e.2).map Prod.snd

/-- The children of an element that hold a part of a fault. -/
def partsOf (p : Fault.Part) (f : Element) : List Element :=
  f.content.children.filter fun e => Fault.Part.ofName? e.name.localName = some p

/-- What a part says in some elements, if content says what `say` makes of it. -/
def partChars (say : Content → List Char) (p : Fault.Part) (fs : List Element) : List Char :=
  fs.flatMap fun f => (partsOf p f).flatMap fun e => say e.content

/-- The fault whose texts are those of the parts of some elements, trimmed. -/
def Fault.said (say : Content → List Char) (fs : List Element) : Fault where
  code := String.ofList (Text.trimChars (partChars say .code fs))
  string := String.ofList (Text.trimChars (partChars say .string fs))
  detail := String.ofList (Text.trimChars (partChars say .detail fs))

/-- The fault that the search makes of a document. -/
def treeFault (d : Document) : Option Fault :=
  if d.root.toElement.name.localName = "Envelope" ∧ faults d.root.toElement.content ≠ [] then
    some (Fault.said Content.dataChars (heard d.root.toElement.content))
  else none

/-! ### What has been collected -/

namespace Collected

/-- The text of one part. -/
def get (c : Collected) : Fault.Part → List Char
  | .code => c.code
  | .string => c.string
  | .detail => c.detail

theorem get_add (c : Collected) (p q : Fault.Part) (cs : List Char) :
    (c.add p cs).get q = c.get q ++ if p = q then cs else [] := by
  cases p <;> cases q <;> simp [add, get]

@[simp] theorem get_none (p : Fault.Part) : Collected.none.get p = [] := by
  cases p <;> rfl

theorem add_nil (c : Collected) (p : Fault.Part) : c.add p [] = c := by
  cases p <;> simp [add]

theorem add_add (c : Collected) (p : Fault.Part) (cs ds : List Char) :
    (c.add p cs).add p ds = c.add p (cs ++ ds) := by
  cases p <;> simp [add]

theorem toFault_eq (c : Collected) :
    c.toFault = ⟨String.ofList (Text.trimChars (c.get .code)),
      String.ofList (Text.trimChars (c.get .string)),
      String.ofList (Text.trimChars (c.get .detail))⟩ := rfl

/-- With what one child of a fault says, if it is a part of it. -/
def addChild (c : Collected) (e : Element) : Collected :=
  match Fault.Part.ofName? e.name.localName with
  | some p => c.add p e.content.dataChars
  | .none => c

/-- With what the children of a fault say. -/
def addParts (c : Collected) (f : Element) : Collected := f.content.children.foldl addChild c

theorem get_addChild (c : Collected) (e : Element) (p : Fault.Part) :
    (c.addChild e).get p = c.get p ++
      if Fault.Part.ofName? e.name.localName = some p then e.content.dataChars else [] := by
  rw [addChild]
  cases Fault.Part.ofName? e.name.localName with
  | none => simp
  | some q => simp [get_add]

theorem get_foldl_addChild (p : Fault.Part) (es : List Element) :
    ∀ c : Collected, (es.foldl addChild c).get p = c.get p ++
      (es.filter fun e => Fault.Part.ofName? e.name.localName = some p).flatMap
        fun e => e.content.dataChars := by
  induction es with
  | nil => exact fun c => (List.append_nil _).symm
  | cons e es ih =>
    intro c
    rw [List.foldl_cons, ih, get_addChild, List.filter_cons, List.append_assoc]
    split <;> simp_all

theorem get_foldl_addParts (p : Fault.Part) (fs : List Element) :
    ∀ c : Collected, (fs.foldl addParts c).get p
      = c.get p ++ partChars Content.dataChars p fs := by
  induction fs with
  | nil => exact fun c => (List.append_nil _).symm
  | cons f fs ih =>
    intro c
    rw [List.foldl_cons, ih, addParts, get_foldl_addChild, List.append_assoc]
    rfl

end Collected

namespace Search

/-! ### Steps -/

theorem foldlM_step {s s' : Search} {t : Token} (h : s.step t = some s') (ts : List Token) :
    (t :: ts).foldlM step s = ts.foldlM step s' := by
  rw [List.foldlM_cons, h]
  rfl

/-- The search with some more of the part that is being collected. -/
def hear (s : Search) (cs : List Char) : Search :=
  match s.part with
  | some (p, _) => { s with found := s.found.map (·.add p cs) }
  | none => s

theorem hear_none {s : Search} (h : s.part = none) (cs : List Char) : s.hear cs = s := by
  rw [hear, h]

theorem hear_nil (s : Search) : s.hear [] = s := by
  obtain ⟨path, found, _ | ⟨p, n⟩⟩ := s
  · rfl
  · cases found <;> simp [hear, Collected.add_nil]

theorem hear_hear (s : Search) (cs ds : List Char) :
    (s.hear cs).hear ds = s.hear (cs ++ ds) := by
  obtain ⟨path, found, _ | ⟨p, n⟩⟩ := s
  · rfl
  · cases found <;> simp [hear, Collected.add_add]

@[simp] theorem path_hear (s : Search) (cs : List Char) : (s.hear cs).path = s.path := by
  obtain ⟨path, found, _ | ⟨p, n⟩⟩ := s <;> rfl

@[simp] theorem part_hear (s : Search) (cs : List Char) : (s.hear cs).part = s.part := by
  obtain ⟨path, found, _ | ⟨p, n⟩⟩ := s <;> rfl

/-- Character data is heard. -/
theorem foldlM_charData (s : Search) (t : CharData) (ts : List Token) :
    (textTokens t.print ++ ts).foldlM step s = ts.foldlM step (s.hear t.chars) := by
  by_cases hnil : t.print = []
  · rw [textTokens, if_pos hnil, CharData.chars_eq_nil hnil, hear_nil]
    rfl
  · rw [textTokens, if_neg hnil, List.singleton_append]
    refine foldlM_step ?_ ts
    obtain ⟨path, _ | c, _ | ⟨p, n⟩⟩ := s
    · rfl
    · rfl
    · rfl
    · rw [step, text?, textOf?_print]
      rfl

/-! ### Below the third level -/

/-- The search inside one more element. -/
def enter (s : Search) (n : Name) : Search := { s with path := n.localName :: s.path }

/-- Far down, a start tag is only noted. -/
theorem step_open_deep {s : Search} (h : 4 ≤ s.path.length) (n : Name) :
    s.step (.open (encodeChars n.chars)) = some (s.enter n) := by
  rw [step, localText_encode]
  obtain ⟨_ | ⟨a, _ | ⟨b, _ | ⟨c, _ | ⟨d, path⟩⟩⟩⟩, found, part⟩ := s <;> simp at h
  rfl

theorem step_close (s : Search) (bs : Bytes) : s.step (.close bs) = some s.close := rfl

theorem step_cdata (s : Search) (bs : Bytes) : s.step (.cdata bs) = some s := rfl

theorem step_other (s : Search) : s.step .other = some s := rfl

/-- So is an end tag. -/
theorem close_deep {s : Search} (h : 4 ≤ s.path.length) (hpart : ∀ p ∈ s.part, p.2 = 4)
    (n : Name) (cs : List Char) : ((s.enter n).hear cs).close = s.hear cs := by
  have hlevel : s.path.length + 1 ≠ 4 := by omega
  obtain ⟨path, found, _ | ⟨p, k⟩⟩ := s
  · rfl
  · obtain rfl : k = 4 := hpart _ rfl
    have hk : ((p, 4) : Fault.Part × ℕ).2 ≠ (n.localName :: path).length := fun h4 => hlevel h4.symm
    simp only [close, hear, enter, List.tail_cons]
    rw [Option.filter_some_pos (by simpa using hk)]

theorem step_empty_deep {s : Search} (h : 4 ≤ s.path.length) (bs : Bytes) :
    s.step (.empty bs) = some s := by
  obtain ⟨_ | ⟨a, _ | ⟨b, _ | ⟨c, path⟩⟩⟩, found, part⟩ := s <;> simp at h
  rfl

/-- **Content of a child of a fault**: all character data in it is heard, at any depth. -/
theorem foldlM_deep (c : Content) :
    ∀ (s : Search) (ts : List Token), 4 ≤ s.path.length → (∀ p ∈ s.part, p.2 = 4) →
      (c.tokens ++ ts).foldlM step s = ts.foldlM step (s.hear c.dataChars) := by
  induction c with
  | text t => exact fun s ts _ _ => foldlM_charData s t ts
  | element t tag inner gap rest ihinner ihrest =>
    intro s ts hpath hpart
    have hpath' : 4 ≤ (s.hear t.chars).path.length := by rwa [path_hear]
    have hpart' : ∀ p ∈ (s.hear t.chars).part, p.2 = 4 := by rwa [part_hear]
    rw [Content.tokens, List.append_assoc, foldlM_charData, List.cons_append, List.append_assoc,
      foldlM_step (step_open_deep hpath' tag.name),
      ihinner (enter _ _) _ (Nat.le_succ_of_le hpath') hpart', List.cons_append,
      foldlM_step (step_close _ _), close_deep hpath' hpart',
      ihrest _ _ (by simpa using hpath) (by simpa using hpart), hear_hear, hear_hear]
    simp only [Content.dataChars]
  | empty t tag rest ih =>
    intro s ts hpath hpart
    rw [Content.tokens, List.append_assoc, foldlM_charData, List.cons_append,
      foldlM_step (step_empty_deep (by simpa using hpath) _),
      ih _ _ (by simpa using hpath) (by simpa using hpart), hear_hear]
    rfl
  | cdata t sec rest ih =>
    intro s ts hpath hpart
    rw [Content.tokens, List.append_assoc, foldlM_charData, List.cons_append,
      foldlM_step (step_cdata _ _), ih _ _ (by simpa using hpath) (by simpa using hpart), hear_hear]
    rfl
  | aside t a rest ih =>
    intro s ts hpath hpart
    rw [Content.tokens, List.append_assoc, foldlM_charData, List.cons_append,
      foldlM_step (step_other _), ih _ _ (by simpa using hpath) (by simpa using hpart), hear_hear]
    rfl

/-! ### Down to the third level -/

/-- A token between elements changes nothing where no part is open. -/
theorem step_between (path : List String) (found : Option Collected) (t : Token)
    (h : t.IsBetween) : step ⟨path, found, none⟩ t = some ⟨path, found, none⟩ := by
  cases h <;> rfl

/-- What has been collected, with a child of an element on the third level. -/
def addPart (a : String) (found : Option Collected) (e : Element) : Option Collected :=
  if a = "Fault" then found.map (·.addChild e) else found

/-- A child of an element on the third level. -/
theorem foldlM_part (a b r : String) (found : Option Collected) (n : Name) (inner : Content)
    (ts : List Token) :
    (.open (encodeChars n.chars) ::
        (inner.tokens ++ .close (encodeChars n.chars) :: ts)).foldlM step ⟨[a, b, r], found, none⟩
      = ts.foldlM step ⟨[a, b, r], addPart a found ⟨n, inner⟩, none⟩ := by
  by_cases ha : found.isSome = true ∧ a = "Fault"
  · -- the start tag opens a part, if it has the name of one
    obtain ⟨hfound, rfl⟩ := ha
    obtain ⟨c, rfl⟩ := Option.isSome_iff_exists.mp hfound
    let inside : Search := ⟨[n.localName, "Fault", b, r], some c,
      (Fault.Part.ofName? n.localName).map fun p => (p, 4)⟩
    have hopen : step ⟨["Fault", b, r], some c, none⟩ (.open (encodeChars n.chars))
        = some inside := by
      rw [step, localText_encode]
      rfl
    have hpart : ∀ p ∈ inside.part, p.2 = 4 := by simp [inside]
    rw [foldlM_step hopen, foldlM_deep inner inside _ (Nat.le_refl 4) hpart,
      foldlM_step (step_close _ _)]
    simp only [inside, addPart, Collected.addChild, if_true, Option.map_some]
    cases Fault.Part.ofName? n.localName <;> rfl
  · have hopen : step ⟨[a, b, r], found, none⟩ (.open (encodeChars n.chars))
        = some ⟨[n.localName, a, b, r], found, none⟩ := by
      rw [step, localText_encode]
      exact congrArg some (if_neg ha)
    have hnothing : addPart a found ⟨n, inner⟩ = found := by
      rw [addPart]
      split
      · rw [Option.not_isSome_iff_eq_none.mp fun hfound => ha ⟨hfound, ‹_›⟩]
        rfl
      · rfl
    have hpart : ∀ p ∈ (none : Option (Fault.Part × ℕ)), p.2 = 4 := by simp
    rw [foldlM_step hopen, foldlM_deep inner ⟨[n.localName, a, b, r], found, none⟩ _
      (Nat.le_refl 4) hpart, hear_none rfl, foldlM_step (step_close _ _), hnothing]
    rfl

/-- A child without content adds nothing. -/
theorem addPart_text (a : String) (found : Option Collected) (n : Name) :
    addPart a found ⟨n, .text []⟩ = found := by
  have hsame : ∀ c : Collected, c.addChild ⟨n, .text []⟩ = c := by
    intro c
    rw [Collected.addChild]
    cases Fault.Part.ofName? n.localName with
    | none => rfl
    | some p => exact c.add_nil p
  rw [addPart]
  split
  · rw [funext hsame]
    exact congrFun Option.map_id found
  · rfl

/-- **Content of an element on the third level**: the parts in it are collected once a
fault has begun, if the element is named as one. -/
theorem foldlM_third (a b r : String) (c : Content) :
    ∀ found ts, (c.tokens ++ ts).foldlM step ⟨[a, b, r], found, none⟩
      = ts.foldlM step ⟨[a, b, r], c.children.foldl (addPart a) found, none⟩ :=
  c.foldlM_children step (fun found => ⟨[a, b, r], found, none⟩) (addPart a)
    (fun _ => step_between _ _) (foldlM_part a b r) fun found n => by
      rw [addPart_text]
      rfl

theorem foldl_addPart (a : String) (es : List Element) :
    ∀ found, es.foldl (addPart a) found
      = if a = "Fault" then found.map (es.foldl Collected.addChild) else found := by
  induction es with
  | nil => intro found; simp
  | cons e es ih =>
    intro found
    rw [List.foldl_cons, ih, addPart]
    split
    · rw [Option.map_map]
      rfl
    · rfl

/-- What has been collected, with an element on the third level. -/
def addThird (found : Option Collected) (e : Element × Element) : Option Collected :=
  if NamedFault e.2 then
    (if BodyFault e then some (found.getD .none) else found).map (·.addParts e.2)
  else found

/-- An element on the third level. -/
theorem foldlM_fault (b : Element) (found : Option Collected) (n : Name) (inner : Content)
    (ts : List Token) :
    (.open (encodeChars n.chars) ::
        (inner.tokens ++ .close (encodeChars n.chars) :: ts)).foldlM step
          ⟨[b.name.localName, "Envelope"], found, none⟩
      = ts.foldlM step ⟨[b.name.localName, "Envelope"], addThird found (b, ⟨n, inner⟩), none⟩ := by
  have hopen : step ⟨[b.name.localName, "Envelope"], found, none⟩ (.open (encodeChars n.chars))
      = some ⟨[n.localName, b.name.localName, "Envelope"],
          if BodyFault (b, ⟨n, inner⟩) then some (found.getD .none) else found, none⟩ := by
    rw [step, localText_encode]
    by_cases hbody : BodyFault (b, ⟨n, inner⟩)
    · rw [if_pos hbody]
      exact congrArg some (if_pos hbody)
    · rw [if_neg hbody]
      exact congrArg some (if_neg hbody)
  rw [foldlM_step hopen, foldlM_third, foldl_addPart, foldlM_step (step_close _ _), addThird]
  by_cases hn : n.localName = "Fault"
  · rw [if_pos hn, if_pos (show NamedFault ⟨n, inner⟩ from hn)]
    rfl
  · rw [if_neg hn, if_neg (show ¬ NamedFault ⟨n, inner⟩ from hn), if_neg fun h => hn h.2]
    rfl

theorem step_empty_third (b : Element) (found : Option Collected) (n : Name) :
    step ⟨[b.name.localName, "Envelope"], found, none⟩ (.empty (encodeChars n.chars))
      = some ⟨[b.name.localName, "Envelope"], addThird found (b, ⟨n, .text []⟩), none⟩ := by
  have hname : localName (encodeChars n.chars) = ascii "Fault" ↔ n.localName = "Fault" := by
    rw [localName_eq_fault, localText_encode]
  have hparts : ∀ c : Collected, c.addParts ⟨n, .text []⟩ = c := fun _ => rfl
  rw [addThird, funext hparts, Option.map_id']
  by_cases hbody : BodyFault (b, ⟨n, .text []⟩)
  · rw [if_pos hbody.2, if_pos hbody]
    exact congrArg some (if_pos ⟨hbody.1, hname.mpr hbody.2⟩)
  · rw [if_neg hbody, ite_self]
    exact congrArg some (if_neg fun h => hbody ⟨h.1, hname.mp h.2⟩)

/-- **Content of a child of the root.** -/
theorem foldlM_second (b : Element) (c : Content) :
    ∀ found ts, (c.tokens ++ ts).foldlM step ⟨[b.name.localName, "Envelope"], found, none⟩
      = ts.foldlM step ⟨[b.name.localName, "Envelope"],
          c.children.foldl (fun found f => addThird found (b, f)) found, none⟩ :=
  c.foldlM_children step (fun found => ⟨[b.name.localName, "Envelope"], found, none⟩)
    (fun found f => addThird found (b, f)) (fun _ => step_between _ _) (foldlM_fault b)
    (step_empty_third b)

/-- What has been collected, with a child of the root. -/
def addSecond (found : Option Collected) (b : Element) : Option Collected :=
  b.content.children.foldl (fun found f => addThird found (b, f)) found

/-- **Content of the root.** -/
theorem foldlM_first (c : Content) :
    ∀ found ts, (c.tokens ++ ts).foldlM step ⟨["Envelope"], found, none⟩
      = ts.foldlM step ⟨["Envelope"], (thirdLevel c).foldl addThird found, none⟩ := by
  have hchildren := c.foldlM_children step (fun found => ⟨["Envelope"], found, none⟩) addSecond
    (fun _ => step_between _ _) (fun found n inner ts => ?_) fun found n => rfl
  · intro found ts
    rw [hchildren, thirdLevel, List.foldl_flatMap]
    simp only [List.foldl_map]
    rfl
  · have hopen : step ⟨["Envelope"], found, none⟩ (.open (encodeChars n.chars))
        = some ⟨[n.localName, "Envelope"], found, none⟩ := by
      rw [step, localText_encode]
      rfl
    rw [foldlM_step hopen, foldlM_second ⟨n, inner⟩ inner, foldlM_step (step_close _ _)]
    rfl

end Search

/-! ### What is collected in all -/

/-- Once a fault has begun, all elements of that name on the third level count. -/
theorem foldl_addThird_some (es : List (Element × Element)) :
    ∀ c, es.foldl Search.addThird (some c)
      = some (((es.filter fun e => NamedFault e.2).map Prod.snd).foldl Collected.addParts c) := by
  induction es with
  | nil => exact fun c => rfl
  | cons e es ih =>
    intro c
    have hsame : (if BodyFault e then some ((some c).getD .none) else some c) = some c := by
      split <;> rfl
    rw [List.foldl_cons, Search.addThird, hsame, List.filter_cons]
    by_cases hnamed : NamedFault e.2
    · rw [if_pos hnamed, if_pos (decide_eq_true hnamed), Option.map_some, ih]
      rfl
    · rw [if_neg hnamed, if_neg (by simpa using hnamed), ih]

/-- Before that, none does. -/
theorem foldl_addThird_none (es : List (Element × Element)) :
    es.foldl Search.addThird none
      = if es.filter BodyFault ≠ [] then
          some ((((es.dropWhile fun e => ¬ BodyFault e).filter fun e => NamedFault e.2).map
            Prod.snd).foldl Collected.addParts .none)
        else none := by
  induction es with
  | nil => rfl
  | cons e es ih =>
    by_cases hbody : BodyFault e
    · have hnamed : NamedFault e.2 := hbody.2
      rw [List.foldl_cons, Search.addThird, if_pos hnamed, if_pos hbody, Option.map_some,
        foldl_addThird_some, List.filter_cons_of_pos (by simpa using hbody),
        if_pos (List.cons_ne_nil _ _), List.dropWhile_cons_of_neg (by simpa using hbody),
        List.filter_cons_of_pos (by simpa using hnamed)]
      rfl
    · have hnothing : Search.addThird none e = none := by
        rw [Search.addThird, if_neg hbody]
        split <;> rfl
      rw [List.foldl_cons, hnothing, ih, List.filter_cons_of_neg (by simpa using hbody),
        List.dropWhile_cons_of_pos (by simpa using hbody)]

/-! ### Documents -/

/-- What follows the root changes nothing. -/
theorem search_end (path : List String) (found : Option Collected) (d : Document) :
    (d.epilog.tokens ++ textTokens d.after.chars).foldlM Search.step ⟨path, found, none⟩
      = some ⟨path, found, none⟩ := by
  have hbetween := fun found t h => Search.step_between path found t h
  have hafter := foldlM_between hbetween found d.after.chars []
  rw [List.append_nil] at hafter
  rw [Misc.foldlM_between hbetween d.epilog, hafter]
  rfl

theorem search_open (n : Name) :
    Search.start.step (.open (encodeChars n.chars))
      = if n.localName = "Envelope" then some ⟨["Envelope"], none, none⟩ else none := by
  rw [Search.step, localText_encode]
  by_cases h : n.localName = "Envelope"
  · rw [h]
    rfl
  · exact (if_neg h).trans (if_neg h).symm

theorem search_empty (n : Name) :
    Search.start.step (.empty (encodeChars n.chars))
      = if n.localName = "Envelope" then some Search.start else none := by
  have hname : localName (encodeChars n.chars) = ascii "Envelope" ↔ n.localName = "Envelope" := by
    rw [localName_eq_envelope, localText_encode]
  by_cases h : n.localName = "Envelope"
  · rw [if_pos h]
    exact if_pos (hname.mpr h)
  · rw [if_neg h]
    exact if_neg (mt hname.mp h)

/-- The search on the tokens of a document. -/
theorem search_document (d : Document) :
    d.tokens.foldlM Search.step Search.start
      = if d.root.toElement.name.localName = "Envelope" then
          some ⟨[], (thirdLevel d.root.toElement.content).foldl Search.addThird none, none⟩
        else none := by
  have hbetween := fun found t h => Search.step_between [] found t h
  have hbefore : d.tokens.foldlM Search.step Search.start
      = (d.root.tokens ++ (d.epilog.tokens ++ textTokens d.after.chars)).foldlM
          Search.step Search.start := by
    rw [Document.tokens, Search.start, Misc.foldlM_between hbetween d.prolog,
      foldlM_between hbetween]
  rw [hbefore]
  cases d.root with
  | element tag inner gap =>
    rw [Root.tokens, List.cons_append, List.append_assoc, List.foldlM_cons, search_open]
    show _ = if tag.name.localName = "Envelope" then _ else _
    split
    · show (inner.tokens ++ _).foldlM Search.step _ = _
      rw [Search.foldlM_first, List.singleton_append,
        Search.foldlM_step (Search.step_close _ _)]
      exact search_end [] _ d
    · rfl
  | empty tag =>
    rw [Root.tokens, List.singleton_append, List.foldlM_cons, search_empty]
    show _ = if tag.name.localName = "Envelope" then _ else _
    split
    · exact search_end [] none d
    · rfl

theorem toFault_foldl_addParts (fs : List Element) :
    (fs.foldl Collected.addParts .none).toFault = Fault.said Content.dataChars fs := by
  simp only [Collected.toFault_eq, Collected.get_foldl_addParts, Collected.get_none,
    List.nil_append]
  rfl

theorem faults_eq_nil {c : Content} : faults c = [] ↔ (thirdLevel c).filter BodyFault = [] :=
  List.map_eq_nil_iff

/-- **The fault of a document is that of its tree.** -/
theorem fault?_document (d : Document) : fault? (encodeChars d.print) = treeFault d := by
  rw [fault?, tokens_print, faultOf?, search_document, treeFault]
  by_cases hroot : d.root.toElement.name.localName = "Envelope"
  · rw [if_pos hroot]
    show (List.foldl Search.addThird none _).bind (fun c => some c.toFault) = _
    rw [foldl_addThird_none]
    by_cases hnone : (thirdLevel d.root.toElement.content).filter BodyFault = []
    · rw [if_neg (not_not_intro hnone), if_neg fun h => h.2 (faults_eq_nil.mpr hnone)]
      rfl
    · rw [if_pos hnone, if_pos ⟨hroot, mt faults_eq_nil.mp hnone⟩, Option.bind_some,
        toFault_foldl_addParts]
      rfl
  · rw [if_neg hroot, if_neg fun h => hroot h.1]
    rfl

theorem mem_faults {c : Content} {f : Element} :
    f ∈ faults c ↔ ∃ b ∈ c.children, b.name.localName = "Body" ∧ f ∈ b.content.children ∧
      f.name.localName = "Fault" := by
  simp only [faults, thirdLevel, List.mem_map, List.mem_filter, List.mem_flatMap,
    decide_eq_true_eq]
  constructor
  · rintro ⟨_, ⟨⟨b, hb, f', hf, rfl⟩, hbody, hnamed⟩, rfl⟩
    exact ⟨b, hb, hbody, hf, hnamed⟩
  · rintro ⟨b, hb, hbody, hf, hnamed⟩
    exact ⟨(b, f), ⟨⟨b, hb, f, hf, rfl⟩, hbody, hnamed⟩, rfl⟩

/-- **Which documents hold a fault**: the envelopes in which a body has a child of that
name.  An element of that name in any other place is none. -/
theorem isSome_fault?_iff (d : Document) :
    (fault? (encodeChars d.print)).isSome = true ↔
      d.root.toElement.name.localName = "Envelope" ∧
        ∃ b ∈ d.root.toElement.content.children, b.name.localName = "Body" ∧
          ∃ f ∈ b.content.children, f.name.localName = "Fault" := by
  have hsome : (treeFault d).isSome = true ↔
      d.root.toElement.name.localName = "Envelope" ∧
        faults d.root.toElement.content ≠ [] := by
    rw [treeFault]
    split
    · exact iff_of_true rfl ‹_›
    · exact iff_of_false Bool.false_ne_true ‹_›
  rw [fault?_document, hsome]
  refine and_congr_right fun _ => ?_
  constructor
  · intro hne
    obtain ⟨f, hmem⟩ := List.exists_mem_of_ne_nil _ hne
    obtain ⟨b, hb, hbody, hf, hnamed⟩ := mem_faults.mp hmem
    exact ⟨b, hb, hbody, f, hf, hnamed⟩
  · rintro ⟨b, hb, hbody, f, hf, hnamed⟩
    exact List.ne_nil_of_mem (mem_faults.mpr ⟨b, hb, hbody, hf, hnamed⟩)

/-! ### What is left out -/

theorem dataChars_of_sections {c : Content} (h : c.sections = []) : c.dataChars = c.allChars := by
  induction c with
  | text t => rfl
  | element t tag inner gap tail ihinner ihtail =>
    obtain ⟨hinner, htail⟩ := List.append_eq_nil_iff.mp h
    rw [Content.dataChars, Content.allChars, ihinner hinner, ihtail htail]
  | empty t tag tail ih => rw [Content.dataChars, Content.allChars, ih h]
  | cdata t s tail ih => cases h
  | aside t a tail ih => rw [Content.dataChars, Content.allChars, ih h]

/-- What elements say is all that stands in their parts if no section does. -/
theorem Fault.said_dataChars {fs : List Element}
    (h : ∀ f ∈ fs, ∀ p, ∀ e ∈ partsOf p f, e.content.sections = []) :
    Fault.said Content.dataChars fs = Fault.said Content.allChars fs := by
  have hpart : ∀ p, partChars Content.dataChars p fs = partChars Content.allChars p fs := by
    intro p
    rw [partChars, partChars]
    simp only [List.flatMap_def]
    refine congrArg List.flatten (List.map_congr_left fun f hf => ?_)
    exact congrArg List.flatten
      (List.map_congr_left fun e he => dataChars_of_sections (h f hf p e he))
  rw [Fault.said, Fault.said, hpart, hpart, hpart]

/-- If elements named as a fault stand in the bodies alone, those are what is heard. -/
theorem heard_eq_faults {c : Content} (h : ∀ e ∈ thirdLevel c, NamedFault e.2 → BodyFault e) :
    heard c = faults c := by
  rw [heard, faults]
  refine congrArg (List.map Prod.snd) ?_
  generalize thirdLevel c = es at h
  induction es with
  | nil => rfl
  | cons e es ih =>
    obtain ⟨he, hes⟩ := List.forall_mem_cons.mp h
    have hsame : ∀ e ∈ es, decide (NamedFault e.2) = decide (BodyFault e) := fun e hmem =>
      decide_eq_decide.mpr ⟨hes e hmem, And.right⟩
    by_cases hbody : BodyFault e
    · rw [List.dropWhile_cons_of_neg (by simpa using hbody),
        List.filter_cons_of_pos (by simpa using hbody.2),
        List.filter_cons_of_pos (by simpa using hbody), List.filter_congr hsame]
    · rw [List.dropWhile_cons_of_pos (by simpa using hbody),
        List.filter_cons_of_neg (by simpa using hbody), ih hes]

/-- **What the fault of a document says**: the character data in the parts of the elements
that the search hears.  That is all that the parts of the faults hold, and nothing else,
if no plain section stands in them and no other element on the third level is named as a
fault. -/
theorem fault?_eq_said {d : Document} {f : Fault} (h : fault? (encodeChars d.print) = some f) :
    f = Fault.said Content.dataChars (heard d.root.toElement.content) ∧
      ((∀ e ∈ thirdLevel d.root.toElement.content, NamedFault e.2 → BodyFault e) →
        (∀ g ∈ faults d.root.toElement.content, ∀ p, ∀ e ∈ partsOf p g,
          e.content.sections = []) →
        f = Fault.said Content.allChars (faults d.root.toElement.content)) := by
  rw [fault?_document, treeFault] at h
  split at h
  · cases h
    refine ⟨rfl, fun hbodies hsections => ?_⟩
    rw [heard_eq_faults hbodies, Fault.said_dataChars hsections]
  · cases h

/-- An element without attributes, between character data and the rest of the content. -/
def plainElement (t : CharData) (n : Name) (inner rest : Content) : Content :=
  .element t ⟨n, [], noGap⟩ inner noGap rest

/-- A document of an envelope with the given content. -/
def plainEnvelope (c : Content) : Document where
  mark := false
  prolog := []
  before := noGap
  root := .element ⟨⟨"Envelope".toList, by decide⟩, [], noGap⟩ c noGap
  epilog := []
  after := noGap

/-- A fault whose string is the given content, and what comes after the body. -/
def faultEnvelope (string rest : Content) : Document :=
  plainEnvelope <| plainElement [] ⟨"Body".toList, by decide⟩
    (plainElement [] ⟨"Fault".toList, by decide⟩
      (plainElement [] ⟨"faultstring".toList, by decide⟩ string (.text [])) (.text [])) rest

/-- A fault whose string is one letter. -/
def plainFault : Document := faultEnvelope (.text [.plain 'a' (by decide)]) (.text [])

theorem fault?_plainFault :
    fault? (encodeChars plainFault.print) = some ⟨"", "a", ""⟩ ∧
      (⟨"", "a", ""⟩ : Fault)
        = Fault.said Content.allChars (faults plainFault.root.toElement.content) := by
  have h : fault? (encodeChars plainFault.print) = some ⟨"", "a", ""⟩ := by
    rw [fault?_document]
    rfl
  refine ⟨h, (fault?_eq_said h).2 ?_ ?_⟩
  · decide
  · intro g hg p e he
    obtain rfl := List.mem_singleton.mp hg
    cases p with
    | string =>
      obtain rfl := List.mem_singleton.mp he
      rfl
    | _ => cases he

/-- A letter, and another one in a section. -/
def sectioned : Content :=
  .cdata [.plain 'a' (by decide)] ⟨['b'], by decide⟩ (.text [])

/-- A header with an element that is named as a fault. -/
def faultyHeader : Content :=
  plainElement [] ⟨"Header".toList, by decide⟩
    (plainElement [] ⟨"Fault".toList, by decide⟩
      (plainElement [] ⟨"detail".toList, by decide⟩
        (.text [.plain 'x' (by decide)]) (.text [])) (.text [])) (.text [])

/-- **A fault may leave something out and put something in**: here a section in its string,
and the detail that stands in a header. -/
theorem fault?_sectioned :
    (faultEnvelope sectioned faultyHeader).print
        = "<Envelope><Body><Fault><faultstring>a<![CDATA[b]]></faultstring></Fault>".toList ++
          "</Body><Header><Fault><detail>x</detail></Fault></Header></Envelope>".toList ∧
      fault? (encodeChars (faultEnvelope sectioned faultyHeader).print)
        = some ⟨"", "a", "x"⟩ ∧
      Fault.said Content.allChars
          (faults (faultEnvelope sectioned faultyHeader).root.toElement.content)
        = ⟨"", "ab", ""⟩ := by
  refine ⟨rfl, ?_, rfl⟩
  rw [fault?_document]
  rfl

end Switchboard.Soap
