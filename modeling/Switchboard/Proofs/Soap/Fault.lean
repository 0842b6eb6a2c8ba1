import Mathlib.Data.List.Induction
import Switchboard.ProtocolClient
import Switchboard.Proofs.Soap.Fields

/-!
# Which responses hold a fault

Two readers look at the body of a SOAP response: one for its fields, one for a fault.
They agree on where elements begin and end, but not on which character data they look
into: the search reads all of it inside the parts of a fault, and gives up at a
reference that stands for no character, where the reader of fields may not collect it.

## Main definitions

* `openNames` — the elements that tokens leave open.
* `FaultOpens` — a fault begins directly inside a body of the root.
* `InPart` — a place inside a part of a fault, wherever that stands.
* `PartsReadable` — the character data inside the parts of a fault can be read.
* `Search.Follows` — what the search has come to.
* `Fault.Reported` — how a call ends whose response holds a fault.

## Main results

* `Search.Follows.step`, `Search.Follows.run` — one token, and any number of them.
* `fault?_eq_some_iff` — **which of the responses that have fields are reported as a
  fault**.
* `fault?_print` — every well-formed document with a fault is.
-/

namespace Switchboard.Soap

open Xml
open Text.Utf8 (encodeChars)

/-! ### Where a fault begins -/

/-- The names of the open elements after a token, innermost first. -/
def namesAfter (names : List String) : Token → List String
  | .open n => localText n :: names
  | .close _ => names.tail
  | _ => names

/-- The names of the elements that tokens leave open, innermost first. -/
def openNames (ts : List Token) : List String := ts.foldl namesAfter []

/-- The name of the element that begins at a token. -/
def beginning? : Token → Option String
  | .open n => some (localText n)
  | .empty n => some (localText n)
  | _ => none

/-- A fault begins at a token that comes after others. -/
def BeginsFault (before : List Token) (t : Token) : Prop :=
  openNames before = ["Body", "Envelope"] ∧ beginning? t = some "Fault"

/-- A fault begins directly inside a body of the root. -/
def FaultOpens (ts : List Token) : Prop :=
  ∃ before t after, ts = before ++ t :: after ∧ BeginsFault before t

/-- The innermost of the open elements is a part of a fault on the third level, or stands in
one.  What the fault itself stands in does not matter: it need not be a body. -/
def InPart (names : List String) : Prop :=
  ∃ inner part body root, names = inner ++ [part, "Fault", body, root] ∧
    (Fault.Part.ofName? part).isSome = true

/-- A token that comes after others is not character data that should be read and
cannot be. -/
def ReadableAt (before : List Token) (t : Token) : Prop :=
  ∀ bs, t = .text bs → FaultOpens before → InPart (openNames before) → textOf? bs ≠ none

/-- Once a fault has begun, all character data inside the parts of faults can be read:
it is UTF-8, and every reference in it stands for a character. -/
def PartsReadable (ts : List Token) : Prop :=
  ∀ before t after, ts = before ++ t :: after → ReadableAt before t

@[simp] theorem openNames_append_singleton (before : List Token) (t : Token) :
    openNames (before ++ [t]) = namesAfter (openNames before) t := by
  rw [openNames, List.foldl_append]
  rfl

theorem not_faultOpens_nil : ¬ FaultOpens [] := by
  rintro ⟨before, t, after, h, -⟩
  exact List.cons_ne_nil _ _ (List.append_eq_nil_iff.mp h.symm).2

theorem faultOpens_append_singleton {before : List Token} {t : Token} :
    FaultOpens (before ++ [t]) ↔ FaultOpens before ∨ BeginsFault before t := by
  constructor
  · rintro ⟨bs, u, as, h, hbegins⟩
    rcases List.eq_nil_or_concat as with rfl | ⟨as, a, rfl⟩
    · obtain ⟨rfl, hu⟩ := List.append_inj' h rfl
      cases hu
      exact .inr hbegins
    · rw [List.concat_eq_append, ← List.cons_append, ← List.append_assoc] at h
      obtain ⟨rfl, -⟩ := List.append_inj' h rfl
      exact .inl ⟨bs, u, as, rfl, hbegins⟩
  · rintro (⟨bs, u, as, rfl, hbegins⟩ | hbegins)
    · exact ⟨bs, u, as ++ [t], by simp, hbegins⟩
    · exact ⟨before, t, [], rfl, hbegins⟩

theorem faultOpens_append_of_not {before : List Token} {t : Token} (h : ¬ BeginsFault before t) :
    FaultOpens (before ++ [t]) ↔ FaultOpens before := by
  rw [faultOpens_append_singleton, or_iff_left h]

theorem not_inPart_of_length_lt {names : List String} (h : names.length < 4) :
    ¬ InPart names := by
  rintro ⟨inner, part, body, root, rfl, -⟩
  rw [List.length_append] at h
  exact absurd h (Nat.not_lt.mpr (Nat.le_add_left 4 _))

theorem inPart_four {part fault body root : String} :
    InPart [part, fault, body, root] ↔
      fault = "Fault" ∧ (Fault.Part.ofName? part).isSome = true := by
  constructor
  · rintro ⟨inner, part', body', root', h, hpart⟩
    rw [← List.nil_append [part, fault, body, root]] at h
    obtain ⟨-, hfour⟩ := List.append_inj' h rfl
    cases hfour
    exact ⟨rfl, hpart⟩
  · rintro ⟨rfl, hpart⟩
    exact ⟨[], part, body, root, rfl, hpart⟩

/-- What stands in an element that is no deeper than the parts of a fault does stand in
one if the element does. -/
theorem inPart_cons {names : List String} (h : 4 ≤ names.length) (name : String) :
    InPart (name :: names) ↔ InPart names := by
  constructor
  · rintro ⟨_ | ⟨first, inner⟩, part, body, root, heq, hpart⟩
    · cases heq
      exact absurd h (Nat.lt_irrefl 3)
    · cases heq
      exact ⟨inner, part, body, root, rfl, hpart⟩
  · rintro ⟨inner, part, body, root, rfl, hpart⟩
    exact ⟨name :: inner, part, body, root, rfl, hpart⟩

theorem partsReadable_append_singleton {before : List Token} {t : Token} :
    PartsReadable (before ++ [t]) ↔ PartsReadable before ∧ ReadableAt before t := by
  constructor
  · intro h
    exact ⟨fun bs u as heq => h bs u (as ++ [t]) (by rw [heq, List.append_assoc]; rfl),
      h before t [] rfl⟩
  · rintro ⟨hbefore, ht⟩ bs u as heq
    rcases List.eq_nil_or_concat as with rfl | ⟨as, a, rfl⟩
    · obtain ⟨rfl, hu⟩ := List.append_inj' heq rfl
      cases hu
      exact ht
    · rw [List.concat_eq_append, ← List.cons_append, ← List.append_assoc] at heq
      exact hbefore bs u as (List.append_inj' heq rfl).1

/-! ### Names off the bytes and off the text -/

/-- A plain word is the text of a name only if it is the name byte for byte. -/
theorem localText_eq_iff {w : String} (hw : ∀ c ∈ w.toList, 0 < c.toNat ∧ c.toNat < 0x80)
    (n : Bytes) : localText n = w ↔ localName n = ascii w := by
  have hascii : encodeChars w.toList = ascii w := by
    rw [encodeChars, ascii, List.map_eq_flatMap, List.flatMap_def, List.flatMap_def]
    exact congrArg List.flatten
      (List.map_congr_left fun c hc => Text.Utf8.encode_one (hw c hc).2)
  constructor
  · intro h
    rw [← hascii]
    refine Text.Utf8.eq_encodeChars_of_decodeCharsLossy hw ?_
    rw [← h, localText, Text.Utf8.decodeLossy, String.toList_ofList]
  · intro h
    rw [localText, Text.Utf8.decodeLossy, h, ← hascii,
      Text.Utf8.decodeCharsLossy_encodeChars, String.ofList_toList]

theorem localName_eq_envelope (n : Bytes) :
    localName n = ascii "Envelope" ↔ localText n = "Envelope" :=
  (localText_eq_iff (by simp) n).symm

theorem localName_eq_fault (n : Bytes) :
    localName n = ascii "Fault" ↔ localText n = "Fault" :=
  (localText_eq_iff (by simp) n).symm

/-! ### The reader of fields -/

namespace Reading

variable {r r' : Reading}

theorem depth_of_open? {name : String} (h : r.open? name = .ok r') : r'.depth = r.depth + 1 := by
  rw [open?] at h
  repeat' split at h
  all_goals cases h
  all_goals rfl

theorem depth_of_empty? {name : String} (h : r.empty? name = .ok r') : r'.depth = r.depth := by
  rw [empty?] at h
  repeat' split at h
  all_goals cases h
  all_goals rfl

/-- The reader counts the elements that are open. -/
theorem depth_of_step {t : Token} {names : List String} (hdepth : r.depth = names.length)
    (h : r.step t = .ok r') : r'.depth = (namesAfter names t).length := by
  cases t with
  | «open» n => exact (depth_of_open? h).trans (congrArg (· + 1) hdepth)
  | close n =>
    cases h
    exact (congrArg (· - 1) hdepth).trans List.length_tail.symm
  | empty n => exact (depth_of_empty? h).trans hdepth
  | text bs =>
    rw [step] at h
    repeat' split at h
    · cases h
      exact hdepth
    · cases h
      exact (depth_collect _ _).trans hdepth
    · cases h
  | cdata bs =>
    cases h
    exact (depth_collect _ _).trans hdepth
  | other =>
    cases h
    exact hdepth
  | broken => cases h

/-- The reader accepts no root but an envelope. -/
theorem root_of_step {t : Token} (hdepth : r.depth = 0) (h : r.step t = .ok r') :
    ∀ name ∈ beginning? t, name = "Envelope" := by
  intro name hname
  cases t with
  | «open» n =>
    cases hname
    simp only [step, open?, hdepth, Nat.zero_add, if_true] at h
    split at h
    · assumption
    · cases h
  | empty n =>
    cases hname
    simp only [step, empty?, hdepth, if_true] at h
    split at h
    · assumption
    · cases h
  | _ => cases hname

end Reading

/-! ### The search -/

namespace Search

/-- What the search has come to after tokens. -/
structure Follows (s : Search) (before : List Token) : Prop where
  /-- It knows the open elements. -/
  path_eq : s.path = openNames before
  /-- The outermost is an envelope. -/
  root : ∀ name ∈ s.path.getLast?, name = "Envelope"
  /-- It has found a fault if one has begun. -/
  found_iff : s.found.isSome = true ↔ FaultOpens before
  /-- Then it collects where a part of a fault is open. -/
  part_iff : s.part.isSome = true ↔ FaultOpens before ∧ InPart s.path
  /-- The part is on the fourth level. -/
  level : ∀ p ∈ s.part, p.2 = 4

variable {s : Search} {before : List Token}

theorem follows_start : Follows .start [] where
  path_eq := rfl
  root _ h := nomatch h
  found_iff := by simp [start, not_faultOpens_nil]
  part_iff := by simp [start, not_faultOpens_nil]
  level _ h := nomatch h

/-- A fault begins at a token only on the third level. -/
theorem Follows.not_beginsFault (h : s.Follows before) {t : Token} (hlength : s.path.length ≠ 2) :
    ¬ BeginsFault before t := by
  rintro ⟨hnames, -⟩
  rw [h.path_eq, hnames] at hlength
  exact hlength rfl

/-- Nothing but the open elements changes at a token at which no fault begins, and which
does not lead into or out of a part of one. -/
theorem Follows.keep (h : s.Follows before) {t : Token} {names : List String}
    (hnames : openNames (before ++ [t]) = names)
    (hroot : ∀ name ∈ names.getLast?, name = "Envelope") (ht : ¬ BeginsFault before t)
    (hpart : FaultOpens before → (InPart names ↔ InPart s.path)) :
    Follows { s with path := names } (before ++ [t]) where
  path_eq := hnames.symm
  root := hroot
  found_iff := by rw [faultOpens_append_of_not ht, h.found_iff]
  part_iff := by
    rw [faultOpens_append_of_not ht, h.part_iff]
    exact and_congr_right fun hopens => (hpart hopens).symm
  level := h.level

/-- A fault begins. -/
theorem Follows.begin (h : s.Follows before) {t : Token} {names : List String}
    (hnames : openNames (before ++ [t]) = names)
    (hroot : ∀ name ∈ names.getLast?, name = "Envelope") (ht : BeginsFault before t)
    (hlength : names.length < 4) :
    Follows { s.begin with path := names } (before ++ [t]) where
  path_eq := hnames.symm
  root := hroot
  found_iff := iff_of_true rfl (faultOpens_append_singleton.mpr (.inr ht))
  part_iff := by
    have hlow : s.path.length < 4 := by
      rw [h.path_eq, ht.1]
      decide
    refine iff_of_false (fun hsome => ?_) fun hpart => not_inPart_of_length_lt hlength hpart.2
    exact not_inPart_of_length_lt hlow (h.part_iff.mp hsome).2
  level := h.level

/-- A start tag. -/
theorem Follows.open (h : s.Follows before) {n : Bytes}
    (hroot : s.path = [] → localText n = "Envelope") :
    ∃ s', s.step (.open n) = some s' ∧ s'.Follows (before ++ [.open n]) := by
  have hnames : openNames (before ++ [.open n]) = localText n :: s.path := by
    rw [openNames_append_singleton, ← h.path_eq]
    rfl
  obtain ⟨path, found, part⟩ := s
  rcases path with _ | ⟨a, _ | ⟨b, _ | ⟨c, _ | ⟨d, rest⟩⟩⟩⟩
  · -- the root
    refine ⟨_, if_pos (hroot rfl), h.keep hnames ?_ ?_ fun _ => ?_⟩
    · rintro _ ⟨⟩
      exact hroot rfl
    · exact h.not_beginsFault (by simp)
    · exact iff_of_false (not_inPart_of_length_lt (by simp)) (not_inPart_of_length_lt (by simp))
  · -- a child of the root
    refine ⟨_, rfl, h.keep hnames h.root ?_ fun _ => ?_⟩
    · exact h.not_beginsFault (by simp)
    · exact iff_of_false (not_inPart_of_length_lt (by simp)) (not_inPart_of_length_lt (by simp))
  · -- the third level, where a fault may begin
    obtain rfl : b = "Envelope" := h.root b rfl
    have hbegins : BeginsFault before (.open n) ↔ a = "Body" ∧ localText n = "Fault" := by
      rw [BeginsFault, ← h.path_eq]
      simp [beginning?]
    by_cases hf : a = "Body" ∧ localText n = "Fault"
    · exact ⟨_, congrArg some (if_pos hf),
        h.begin hnames h.root (hbegins.mpr hf) (by simp)⟩
    · refine ⟨_, congrArg some (if_neg hf), h.keep hnames h.root (mt hbegins.mp hf) fun _ => ?_⟩
      exact iff_of_false (not_inPart_of_length_lt (by simp)) (not_inPart_of_length_lt (by simp))
  · -- the fourth level, where a part of a fault may begin
    have hno : ¬ BeginsFault before (.open n) :=
      h.not_beginsFault (by simp)
    by_cases hf : found.isSome = true ∧ a = "Fault"
    · refine ⟨_, congrArg some (if_pos hf), ?_⟩
      have hopens := h.found_iff.mp hf.1
      refine ⟨hnames.symm, h.root, ?_, ?_, ?_⟩
      · rw [faultOpens_append_of_not hno]
        exact h.found_iff
      · rw [faultOpens_append_of_not hno, inPart_four, Option.isSome_map]
        simp [hopens, hf.2]
      · rintro p hp
        obtain ⟨q, -, rfl⟩ := Option.map_eq_some_iff.mp hp
        rfl
    · refine ⟨_, congrArg some (if_neg hf), h.keep hnames h.root hno fun hopens => ?_⟩
      refine iff_of_false (fun hpart => hf ⟨h.found_iff.mpr hopens, (inPart_four.mp hpart).1⟩) ?_
      exact not_inPart_of_length_lt (by simp)
  · -- further down
    refine ⟨_, rfl, h.keep hnames h.root ?_ fun _ => ?_⟩
    · exact h.not_beginsFault (by simp)
    · exact inPart_cons (by simp) _

/-- The tag of an element without content. -/
theorem Follows.empty (h : s.Follows before) {n : Bytes}
    (hroot : s.path = [] → localText n = "Envelope") :
    ∃ s', s.step (.empty n) = some s' ∧ s'.Follows (before ++ [.empty n]) := by
  have hnames : openNames (before ++ [.empty n]) = s.path := by
    rw [openNames_append_singleton, ← h.path_eq]
    rfl
  have hkeep (ht : ¬ BeginsFault before (.empty n)) : s.Follows (before ++ [.empty n]) :=
    h.keep hnames h.root ht fun _ => .rfl
  obtain ⟨path, found, part⟩ := s
  rcases path with _ | ⟨a, _ | ⟨b, _ | ⟨c, rest⟩⟩⟩
  · refine ⟨_, if_pos ((localName_eq_envelope n).mpr (hroot rfl)), hkeep ?_⟩
    exact h.not_beginsFault (by simp)
  · exact ⟨_, rfl, hkeep (h.not_beginsFault (by simp))⟩
  · -- directly below a child of the root, where a fault may begin
    obtain rfl : b = "Envelope" := h.root b rfl
    have hbegins : BeginsFault before (.empty n) ↔
        a = "Body" ∧ localName n = ascii "Fault" := by
      rw [BeginsFault, ← h.path_eq, localName_eq_fault]
      simp [beginning?]
    by_cases hf : a = "Body" ∧ localName n = ascii "Fault"
    · exact ⟨_, congrArg some (if_pos hf),
        h.begin hnames h.root (hbegins.mpr hf) (by simp)⟩
    · exact ⟨_, congrArg some (if_neg hf), hkeep (mt hbegins.mp hf)⟩
  · exact ⟨_, rfl, hkeep (h.not_beginsFault (by simp))⟩

theorem getLast?_tail {α : Type} {xs : List α} {x : α} (h : x ∈ xs.tail.getLast?) :
    x ∈ xs.getLast? := by
  cases xs with
  | nil => exact h
  | cons y ys =>
    rw [List.getLast?_cons]
    rw [List.tail_cons, Option.mem_def] at h
    simp [h]

/-- An end tag. -/
theorem Follows.close (h : s.Follows before) (n : Bytes) :
    s.close.Follows (before ++ [.close n]) := by
  have hnames : openNames (before ++ [.close n]) = s.path.tail := by
    rw [openNames_append_singleton, ← h.path_eq]
    rfl
  have hroot : ∀ name ∈ s.path.tail.getLast?, name = "Envelope" :=
    fun name hname => h.root name (getLast?_tail hname)
  have hno : ¬ BeginsFault before (.close n) := fun hbegins => nomatch hbegins.2
  by_cases hfour : s.path.length = 4
  · -- a part ends, if one is open
    have hlow : s.path.tail.length < 4 := by
      rw [List.length_tail, hfour]
      decide
    have hpart : s.close.part = none := by
      refine Option.filter_eq_none_iff.mpr fun p hp => ?_
      simp [h.level p hp, hfour]
    refine ⟨hnames.symm, hroot, ?_, ?_, ?_⟩
    · rw [faultOpens_append_of_not hno]
      exact h.found_iff
    · rw [hpart]
      exact iff_of_false Bool.false_ne_true fun hin => not_inPart_of_length_lt hlow hin.2
    · rw [hpart]
      exact fun p hp => nomatch hp
  · have hpart : s.close.part = s.part := by
      show s.part.filter _ = s.part
      rcases hsome : s.part with _ | p
      · rfl
      · exact Option.filter_some_pos (by simp [h.level p hsome, Ne.symm hfour])
    have hclose : s.close = { s with path := s.path.tail } := by
      rw [Search.mk.injEq]
      exact ⟨rfl, rfl, hpart⟩
    rw [hclose]
    refine h.keep hnames hroot hno fun _ => ?_
    rcases hpath : s.path with _ | ⟨a, rest⟩
    · exact .rfl
    · rw [hpath, List.length_cons] at hfour
      by_cases hlow : rest.length < 3
      · exact iff_of_false (not_inPart_of_length_lt (Nat.lt_succ_of_lt hlow))
          (not_inPart_of_length_lt (Nat.succ_lt_succ hlow))
      · exact (inPart_cons (by rw [List.tail_cons]; omega) a).symm

/-- The search collects where a part of a fault is open. -/
theorem Follows.part_eq_none_iff (h : s.Follows before) :
    s.part = none ↔ ¬ (FaultOpens before ∧ InPart (openNames before)) := by
  rw [← h.path_eq, ← h.part_iff, Option.not_isSome_iff_eq_none]

/-- Character data. -/
theorem Follows.text (h : s.Follows before) (bs : Bytes) :
    ((s.step (.text bs)).isSome = true ↔ ReadableAt before (.text bs)) ∧
      ∀ s', s.step (.text bs) = some s' → s'.Follows (before ++ [.text bs]) := by
  have hnames : openNames (before ++ [.text bs]) = s.path := by
    rw [openNames_append_singleton, ← h.path_eq]
    rfl
  have hno : ¬ BeginsFault before (.text bs) := fun hbegins => nomatch hbegins.2
  have hkeep : s.Follows (before ++ [.text bs]) := h.keep hnames h.root hno fun _ => .rfl
  rcases hpart : s.part with _ | ⟨p, level⟩
  · -- no part is open, and nothing is read
    have hstep : s.step (.text bs) = some s := by
      rw [step, text?, hpart]
    rw [hstep]
    refine ⟨iff_of_true rfl ?_, ?_⟩
    · exact fun _ _ hopens hin => absurd ⟨hopens, hin⟩ (h.part_eq_none_iff.mp hpart)
    · rintro _ ⟨⟩
      exact hkeep
  · obtain ⟨hopens, hin⟩ := h.part_iff.mp (by rw [hpart]; rfl)
    rw [h.path_eq] at hin
    obtain ⟨c, hfound⟩ := Option.isSome_iff_exists.mp (h.found_iff.mpr hopens)
    have hstep : s.step (.text bs)
        = (textOf? bs).map fun cs => { s with found := some (c.add p cs) } := by
      rw [step, text?, hpart, hfound]
      cases textOf? bs <;> rfl
    rw [hstep, Option.isSome_map]
    constructor
    · rw [Option.isSome_iff_ne_none]
      refine ⟨?_, fun hread => hread bs rfl hopens hin⟩
      rintro hne _ ⟨⟩ _ _
      exact hne
    · intro s' hs'
      obtain ⟨cs, -, rfl⟩ := Option.map_eq_some_iff.mp hs'
      refine ⟨hkeep.path_eq, hkeep.root, ?_, hkeep.part_iff, hkeep.level⟩
      exact iff_of_true rfl (faultOpens_append_singleton.mpr (.inl hopens))

/-- **One token that the reader of fields accepts**: the search gives up only at
character data that it should read and cannot. -/
theorem Follows.step {r r' : Reading} {t : Token} (h : s.Follows before)
    (hdepth : r.depth = (openNames before).length) (hr : r.step t = .ok r') :
    ((s.step t).isSome = true ↔ ReadableAt before t) ∧
      ∀ s', s.step t = some s' → s'.Follows (before ++ [t]) := by
  have hroot (n : Bytes) (hn : beginning? t = some (localText n)) :
      s.path = [] → localText n = "Envelope" := by
    intro hpath
    rw [← h.path_eq, hpath] at hdepth
    exact Reading.root_of_step hdepth hr _ hn
  have hdone {s' : Search} (hs : s.step t = some s') (hs' : s'.Follows (before ++ [t]))
      (ht : ∀ bs, t ≠ .text bs) :
      ((s.step t).isSome = true ↔ ReadableAt before t) ∧
        ∀ s', s.step t = some s' → s'.Follows (before ++ [t]) := by
    rw [hs]
    refine ⟨iff_of_true rfl fun bs hbs => absurd hbs (ht bs), ?_⟩
    rintro _ ⟨⟩
    exact hs'
  have hskip (hnames : openNames (before ++ [t]) = s.path) (ht : beginning? t = none) :
      s.Follows (before ++ [t]) := by
    refine h.keep hnames h.root (fun hbegins => ?_) fun _ => .rfl
    rw [BeginsFault, ht] at hbegins
    exact nomatch hbegins.2
  cases t with
  | «open» n =>
    obtain ⟨s', hs, hs'⟩ := h.open (hroot n rfl)
    exact hdone hs hs' nofun
  | close n => exact hdone rfl (h.close n) nofun
  | empty n =>
    obtain ⟨s', hs, hs'⟩ := h.empty (hroot n rfl)
    exact hdone hs hs' nofun
  | text bs => exact h.text bs
  | cdata bs =>
    exact hdone rfl (hskip (by rw [openNames_append_singleton, h.path_eq]; rfl) rfl) nofun
  | other => exact hdone rfl (hskip (by rw [openNames_append_singleton, h.path_eq]; rfl) rfl) nofun
  | broken => cases hr

end Search

/-- The reader of fields accepts tokens one by one. -/
theorem foldlM_append_singleton {ts : List Token} {t : Token} {r : Reading}
    (h : (ts ++ [t]).foldlM Reading.step Reading.start = .ok r) :
    ∃ r', ts.foldlM Reading.step Reading.start = .ok r' ∧ r'.step t = .ok r := by
  rw [List.foldlM_append] at h
  cases hts : ts.foldlM Reading.step Reading.start with
  | error f =>
    rw [hts] at h
    cases h
  | ok r' =>
    rw [hts] at h
    refine ⟨r', rfl, ?_⟩
    rw [← h]
    exact (bind_pure (r'.step t)).symm

theorem Reading.depth_of_run {ts : List Token} {r : Reading}
    (h : ts.foldlM Reading.step Reading.start = .ok r) : r.depth = (openNames ts).length := by
  induction ts using List.reverseRecOn generalizing r with
  | nil =>
    cases h
    rfl
  | append_singleton ts t ih =>
    obtain ⟨r', hts, ht⟩ := foldlM_append_singleton h
    rw [openNames_append_singleton]
    exact depth_of_step (ih hts) ht

theorem partsReadable_nil : PartsReadable [] := fun _ t after h =>
  absurd (List.append_eq_nil_iff.mp h.symm).2 (List.cons_ne_nil t after)

/-- **Any number of tokens that the reader of fields accepts.** -/
theorem Search.Follows.run {ts : List Token} {r : Reading}
    (h : ts.foldlM Reading.step Reading.start = .ok r) :
    ((ts.foldlM Search.step Search.start).isSome = true ↔ PartsReadable ts) ∧
      ∀ s, ts.foldlM Search.step Search.start = some s → s.Follows ts := by
  induction ts using List.reverseRecOn generalizing r with
  | nil =>
    refine ⟨iff_of_true rfl partsReadable_nil, ?_⟩
    rintro _ ⟨⟩
    exact follows_start
  | append_singleton ts t ih =>
    obtain ⟨r', hts, ht⟩ := foldlM_append_singleton h
    obtain ⟨hreadable, hfollows⟩ := ih hts
    have happend : (ts ++ [t]).foldlM Search.step Search.start
        = (ts.foldlM Search.step Search.start).bind (Search.step · t) := by
      rw [List.foldlM_append]
      exact congrArg _ (funext fun s => bind_pure (s.step t))
    rw [happend, partsReadable_append_singleton, ← hreadable]
    cases hs : ts.foldlM Search.step Search.start with
    | none => exact ⟨by simp, fun s h => nomatch h⟩
    | some s =>
      obtain ⟨hstep, hnext⟩ := (hfollows s hs).step (Reading.depth_of_run hts) ht
      rw [Option.bind_some, hstep]
      exact ⟨(and_iff_right rfl).symm, hnext⟩

/-- A document whose fields can be read holds a fault exactly if one begins in it and its
parts can be read. -/
theorem fault?_isSome_iff {bs : Bytes} {found : Dictionary String} (h : fields bs = .ok found) :
    (fault? bs).isSome = true ↔ FaultOpens (tokens bs) ∧ PartsReadable (tokens bs) := by
  rw [fields, fieldsOf] at h
  cases hr : (tokens bs).foldlM Reading.step Reading.start with
  | error f =>
    rw [hr] at h
    cases h
  | ok r =>
    obtain ⟨hreadable, hfollows⟩ := Search.Follows.run hr
    rw [← hreadable, fault?, faultOf?]
    cases hs : (tokens bs).foldlM Search.step Search.start with
    | none => simp
    | some s =>
      rw [← (hfollows s hs).found_iff]
      show (s.found.bind fun c => some c.toFault).isSome = true ↔ _
      cases s.found <;> simp

/-! ### What a call makes of it -/

/-- Every call whose response has the given body comes to the given fault, whatever the
status and the headers are: it fails with the text of the fault, and its result holds
the fields beside it. -/
def Fault.Reported (f : Fault) (bs : Bytes) (found : Dictionary String) : Prop :=
  ∀ (σ : Type) (net : Network σ) (c : Client) (q : CallRequest) (s : σ) (wire : Http.Request)
    (d : Duration) (reply : Http.Reply),
    c.request q = .ok wire → (Http.send net.http wire s).1 = .after d (.ok reply) →
    reply.body = .ok bs →
    ∃ a : Attempt, ((ProtocolClient.soap c).perform net q s).1 = .after d a ∧
      a.finish = .error (.withResult (.protocol f.message)
        ⟨reply.status, .object (Dictionary.mapValues .string found),
          Http.receivedHeaders reply.headers, some f.message⟩)

theorem Fault.message_protocol (f : Fault) : (Failure.protocol f.message).message = f.message := by
  rw [Failure.message]
  exact String.empty_append

/-- The attempt that a response with a fault stands for. -/
theorem attemptOf_eq {f : Fault} {bs : Bytes} {reply : Http.Reply} (hbody : reply.body = .ok bs)
    (hfault : fault? bs = some f) :
    attemptOf (.ok reply) = .ok ⟨reply.status, Http.receivedHeaders reply.headers, .soap bs,
      some (.protocol f.message)⟩ := by
  rw [attemptOf, withFault, Http.Reply.response, hbody]
  simp only [hfault]

/-- The value of an envelope is made of its fields. -/
theorem value_soap {bs : Bytes} {found : Dictionary String} (h : fields bs = .ok found) :
    (ResponseBody.soap bs).value = .object (Dictionary.mapValues .string found) := by
  cases bs with
  | nil => cases h
  | cons b bs =>
    rw [ResponseBody.value, h]
    exact List.cons_ne_nil b bs

theorem Fault.reported {f : Fault} {bs : Bytes} {found : Dictionary String}
    (hfault : fault? bs = some f) (hfields : fields bs = .ok found) : f.Reported bs found := by
  intro σ net c q s wire d reply hwire hsend hbody
  refine ⟨attemptOf (.ok reply), ?_, ?_⟩
  · rw [ProtocolClient.perform]
    simp only [hwire, hsend]
    rfl
  · rw [attemptOf_eq hbody hfault, Attempt.finish, Attempt.failure?_ok, Attempt.result]
    simp only [Option.map_some, Fault.message_protocol, value_soap hfields]

/-! ### Well-formed documents -/

theorem partsReadable_of_forall {ts : List Token} (h : ∀ bs, .text bs ∈ ts → textOf? bs ≠ none) :
    PartsReadable ts := by
  rintro before _ after rfl bs rfl - -
  exact h bs (List.mem_append_right _ List.mem_cons_self)

/-- The character data among tokens can all be read. -/
def Readable (ts : List Token) : Prop := ∀ bs, .text bs ∈ ts → textOf? bs ≠ none

theorem readable_cons_of_ne {t : Token} (ht : ∀ bs, t ≠ .text bs) {ts : List Token}
    (h : Readable ts) : Readable (t :: ts) := by
  intro bs hbs
  rcases List.mem_cons.mp hbs with heq | hbs
  · exact absurd heq.symm (ht bs)
  · exact h bs hbs

theorem readable_append {ts us : List Token} (ht : Readable ts) (hu : Readable us) :
    Readable (ts ++ us) := fun bs hbs =>
  (List.mem_append.mp hbs).elim (ht bs) (hu bs)

theorem readable_textTokens {cs rs : List Char} (h : textOf? (encodeChars cs) = some rs) :
    Readable (textTokens cs) := by
  intro bs hbs
  rw [textTokens] at hbs
  split at hbs
  · cases hbs
  · cases List.mem_singleton.mp hbs
    rw [h]
    exact Option.some_ne_none rs

theorem readable_gap (g : Gap) : Readable (textTokens g.chars) :=
  readable_textTokens (textOf?_of_notMem (g.notMem (by decide)))

theorem readable_content (c : Content) : Readable c.tokens := by
  induction c with
  | text t => exact readable_textTokens (textOf?_print t)
  | element t tag inner gap rest ihinner ihrest =>
    exact readable_append (readable_textTokens (textOf?_print t)) (readable_cons_of_ne (by nofun)
      (readable_append ihinner (readable_cons_of_ne (by nofun) ihrest)))
  | empty t tag rest ih =>
    exact readable_append (readable_textTokens (textOf?_print t))
      (readable_cons_of_ne (by nofun) ih)
  | cdata t s rest ih =>
    exact readable_append (readable_textTokens (textOf?_print t))
      (readable_cons_of_ne (by nofun) ih)
  | aside t a rest ih =>
    exact readable_append (readable_textTokens (textOf?_print t))
      (readable_cons_of_ne (by nofun) ih)

theorem readable_nil : Readable [] := fun _ h => nomatch h

theorem readable_misc (m : Misc) : Readable m.tokens := by
  induction m with
  | nil => exact readable_nil
  | cons p m ih =>
    rw [Misc.tokens_cons]
    exact readable_append (readable_gap p.1) (readable_cons_of_ne (by nofun) ih)

theorem readable_root (r : Root) : Readable r.tokens := by
  cases r with
  | element tag inner gap =>
    exact readable_cons_of_ne (by nofun) (readable_append (readable_content inner)
      (readable_cons_of_ne (by nofun) readable_nil))
  | empty tag => exact readable_cons_of_ne (by nofun) readable_nil

/-- All character data of a well-formed document can be read. -/
theorem readable_document (d : Document) : Readable d.tokens :=
  readable_append (readable_misc d.prolog) (readable_append (readable_gap d.before)
    (readable_append (readable_root d.root) (readable_append (readable_misc d.epilog)
      (readable_gap d.after))))

/-- **Every fault in a well-formed envelope is found.** -/
theorem fault?_print {d : Document} (h : d.root.toElement.name.localName = "Envelope") :
    (fault? (encodeChars d.print)).isSome = true ↔ FaultOpens d.tokens := by
  have hfields : fields (encodeChars d.print)
      = .ok (Dictionary.ofList (bodyEntries d.root.toElement.content)) := by
    rw [fields_print, treeFields, if_pos h]
  rw [fault?_isSome_iff hfields, tokens_print]
  exact and_iff_left (partsReadable_of_forall (readable_document d))

/-! ### The responses with a fault -/

/-- **Which of the responses that have fields are reported as a fault**: those in which
a fault begins inside the body, if all character data inside its parts can be read. -/
theorem fault?_eq_some_iff {bs : Bytes} {found : Dictionary String} (h : fields bs = .ok found) :
    FaultOpens (tokens bs) ∧ PartsReadable (tokens bs) ↔
      ∃ f, fault? bs = some f ∧ f.Reported bs found := by
  rw [← fault?_isSome_iff h, Option.isSome_iff_exists]
  exact exists_congr fun f => (and_iff_left_of_imp fun hf => Fault.reported hf h).symm

/-- The tokens of a fault whose detail holds an element and then some character data. -/
def mixedFault (bs : Bytes) : List Token :=
  [.open (ascii "Envelope"), .open (ascii "Body"), .open (ascii "Fault"),
    .open (ascii "faultcode"), .text (ascii "Server"), .close (ascii "faultcode"),
    .open (ascii "detail"), .empty (ascii "at"), .text bs, .close (ascii "detail"),
    .close (ascii "Fault"), .close (ascii "Body"), .close (ascii "Envelope")]

/-- The text of such a fault. -/
def mixedFaultText (data : String) : Bytes :=
  ascii ("<Envelope><Body><Fault><faultcode>Server</faultcode><detail><at/>" ++ data ++
    "</detail></Fault></Body></Envelope>")

theorem localText_ascii {w : String} (h : localName (ascii w) = encodeChars w.toList) :
    localText (ascii w) = w := by
  rw [localText, h, Text.Utf8.decodeLossy, Text.Utf8.decodeCharsLossy_encodeChars,
    String.ofList_toList]

theorem textOf?_ascii {w : String} (h : ascii w = encodeChars w.toList) :
    textOf? (ascii w) = unescape w.toList := by
  rw [h, textOf?, Text.Utf8.decodeChars?_encodeChars]
  rfl

theorem faultOpens_of_opening (ts : List Token) :
    FaultOpens
      (.open (ascii "Envelope") :: .open (ascii "Body") :: .open (ascii "Fault") :: ts) := by
  refine ⟨[.open (ascii "Envelope"), .open (ascii "Body")], .open (ascii "Fault"), ts, rfl, ?_, ?_⟩
  · show [localText (ascii "Body"), localText (ascii "Envelope")] = _
    rw [localText_ascii (by decide), localText_ascii (by decide)]
  · exact congrArg some (localText_ascii (by decide))

/-- In the detail, character data has to be read. -/
theorem not_partsReadable_mixedFault {bs : Bytes} (h : textOf? bs = none) :
    ¬ PartsReadable (mixedFault bs) := by
  intro hreadable
  refine hreadable [.open (ascii "Envelope"), .open (ascii "Body"), .open (ascii "Fault"),
    .open (ascii "faultcode"), .text (ascii "Server"), .close (ascii "faultcode"),
    .open (ascii "detail"), .empty (ascii "at")] (.text bs) _ rfl bs rfl
    (faultOpens_of_opening _) ?_ h
  refine ⟨[], "detail", "Body", "Envelope", ?_, rfl⟩
  show [localText (ascii "detail"), localText (ascii "Fault"), localText (ascii "Body"),
    localText (ascii "Envelope")] = _
  rw [localText_ascii (by decide), localText_ascii (by decide), localText_ascii (by decide),
    localText_ascii (by decide)]
  rfl

/-- The reader of fields does not look at what follows the element in the detail. -/
theorem fieldsOf_mixedFault (bs : Bytes) :
    fieldsOf (mixedFault bs) = .ok [("faultcode", "Server")] := by
  have henvelope : localText (ascii "Envelope") = "Envelope" := localText_ascii (by decide)
  have hbody : localText (ascii "Body") = "Body" := localText_ascii (by decide)
  have hfault : localText (ascii "Fault") = "Fault" := localText_ascii (by decide)
  have hcode : localText (ascii "faultcode") = "faultcode" := localText_ascii (by decide)
  have hdetail : localText (ascii "detail") = "detail" := localText_ascii (by decide)
  have hat : localText (ascii "at") = "at" := localText_ascii (by decide)
  have htext : textOf? (ascii "Server") = some "Server".toList := textOf?_ascii (by decide)
  simp only [fieldsOf, mixedFault, List.foldlM_cons, Reading.step, henvelope, hbody, hfault,
    hcode, hdetail, hat, htext]
  rfl

theorem fault?_eq_some_ampersand :
    fields (mixedFaultText "&amp;") = .ok [("faultcode", "Server")] ∧
      ∃ f, fault? (mixedFaultText "&amp;") = some f ∧
        f.Reported (mixedFaultText "&amp;") [("faultcode", "Server")] := by
  have htokens : tokens (mixedFaultText "&amp;") = mixedFault (ascii "&amp;") := by rfl
  have hfields : fields (mixedFaultText "&amp;") = .ok [("faultcode", "Server")] := by
    rw [fields, htokens, fieldsOf_mixedFault]
  have hserver : textOf? (ascii "Server") = some "Server".toList := textOf?_ascii (by decide)
  have hampersand : textOf? (ascii "&amp;") = some ['&'] := textOf?_ascii (by decide)
  have hreadable : Readable (mixedFault (ascii "&amp;")) := by
    intro bs hbs
    simp only [mixedFault, List.mem_cons, List.not_mem_nil, reduceCtorEq, Token.text.injEq,
      false_or, or_false] at hbs
    rcases hbs with rfl | rfl
    · simp [hserver]
    · simp [hampersand]
  refine ⟨hfields, (fault?_eq_some_iff hfields).mp ?_⟩
  rw [htokens]
  exact ⟨faultOpens_of_opening _, partsReadable_of_forall hreadable⟩

/-- **A fault can be missed**, and the response reported as a success: this one has a
reference that stands for no character, where the reader of fields does not look. -/
theorem fault?_eq_none_nbsp :
    FaultOpens (tokens (mixedFaultText "&nbsp;")) ∧
      fields (mixedFaultText "&nbsp;") = .ok [("faultcode", "Server")] ∧
      fault? (mixedFaultText "&nbsp;") = none ∧
      (attemptOf (.ok ⟨200, [], .ok (mixedFaultText "&nbsp;")⟩)).finish
        = .ok ⟨200, .object [("faultcode", .string "Server")], [], none⟩ := by
  have htokens : tokens (mixedFaultText "&nbsp;") = mixedFault (ascii "&nbsp;") := by rfl
  have hfields : fields (mixedFaultText "&nbsp;") = .ok [("faultcode", "Server")] := by
    rw [fields, htokens, fieldsOf_mixedFault]
  have hopens : FaultOpens (mixedFault (ascii "&nbsp;")) := faultOpens_of_opening _
  have hnone : fault? (mixedFaultText "&nbsp;") = none := by
    have hdata : textOf? (ascii "&nbsp;") = none := textOf?_ascii (by decide)
    rw [← Option.not_isSome_iff_eq_none, fault?_isSome_iff hfields, htokens]
    exact fun h => not_partsReadable_mixedFault hdata h.2
  refine ⟨htokens ▸ hopens, hfields, hnone, ?_⟩
  rw [attemptOf, withFault, Http.Reply.response]
  simp only [hnone, Attempt.finish, Attempt.failure?_ok, Attempt.result, value_soap hfields]
  rfl

end Switchboard.Soap
