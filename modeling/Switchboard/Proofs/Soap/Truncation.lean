import Switchboard.Call.Decoding
import Switchboard.Proofs.Soap.FaultTree
import Switchboard.Proofs.Xml.Cutting

/-!
# Envelopes that are cut short

The reader of envelopes does not ask whether the elements it has seen begin also end.  An
envelope that is cut short is refused if the cut tears something that the reader looks at:
markup, or a character or reference in a text that it collects.  At any other cut it is
taken for whole, and its fields are those whose end tags come before the cut.

## Main definitions

* `endedEntries` — the entries of the elements that have ended after some spans.
* `Collects` — tokens after which the text of an element is being collected.
* `Reading.Follows` — what the reader has come to.
* `Reading.ended?`, `Reading.Log` — what an end tag puts in, and the reader with the
  entries it has put in.
* `Torn` — the last thing before a cut is not whole.

## Main results

* `Reading.Follows.step` — one token.
* `Reading.Log.run` — the reader only ever puts entries in.
* `Reading.Log.inside`, `Reading.Log.outside`, `Reading.Log.root` — the three places that
  content can stand in.
* `fields_cut` — **what becomes of an envelope that is cut short**.
-/

namespace Switchboard.Soap

open Xml
open Text.Utf8 (encodeChars encodeChars_append)

/-! ### Entries and the spans that put them in -/

/-- The entries of content below a body in the order of their end tags, each with the
number of the span that ends with its end tag.  The first span of the content has the
number `i`. -/
def entriesAt : ℕ → Content → List (ℕ × String × String)
  | _, .text _ => []
  | i, .element _ tag inner _ tail =>
    entriesAt (i + 1) inner
      ++ ((field? ⟨tag.name, inner⟩).toList.map fun e => (i + 1 + inner.marks, e))
      ++ entriesAt (i + inner.marks + 2) tail
  | i, .empty _ _ tail => entriesAt (i + 1) tail
  | i, .cdata _ _ tail => entriesAt (i + 1) tail
  | i, .aside _ _ tail => entriesAt (i + 1) tail

/-- The same for the content of the root. -/
def bodyEntriesAt : ℕ → Content → List (ℕ × String × String)
  | _, .text _ => []
  | i, .element _ tag inner _ tail =>
    (if tag.name.localName = "Body" then entriesAt (i + 1) inner else [])
      ++ bodyEntriesAt (i + inner.marks + 2) tail
  | i, .empty _ _ tail => bodyEntriesAt (i + 1) tail
  | i, .cdata _ _ tail => bodyEntriesAt (i + 1) tail
  | i, .aside _ _ tail => bodyEntriesAt (i + 1) tail

/-- The same for the root. -/
def rootEntriesAt : Root → List (ℕ × String × String)
  | .element _ inner _ => bodyEntriesAt 1 inner
  | .empty _ => []

/-- The entries of the elements whose end tags are among the first `n` spans of the root. -/
def endedEntries (root : Root) (n : ℕ) : List (String × String) :=
  ((rootEntriesAt root).filter fun e => e.1 < n).map Prod.snd

theorem entries_append_field (e : Element) :
    entries e.content ++ (field? e).toList = (field? e).toList ++ entries e.content := by
  by_cases h : e.content.children = []
  · rw [entries_eq_nil h, List.nil_append, List.append_nil]
  · have hnone : field? e = none := if_neg fun h' => h (List.isEmpty_iff.mp h'.1)
    rw [hnone, Option.toList_none, List.nil_append, List.append_nil]

theorem map_snd_entriesAt (c : Content) : ∀ i, (entriesAt i c).map Prod.snd = entries c := by
  induction c with
  | text t => exact fun _ => rfl
  | element t tag inner gap tail ihinner ihtail =>
    intro i
    have hfield : ((field? ⟨tag.name, inner⟩).toList.map fun e => (i + 1 + inner.marks, e)).map
        Prod.snd = (field? ⟨tag.name, inner⟩).toList := by
      rw [List.map_map]
      exact List.map_id _
    rw [entriesAt, List.map_append, List.map_append, ihinner, ihtail, hfield,
      entries_append_field ⟨tag.name, inner⟩, entries_element]
  | empty t tag tail ih => exact fun i => (ih (i + 1)).trans (entries_empty t tag tail).symm
  | cdata t s tail ih => exact fun i => ih (i + 1)
  | aside t a tail ih => exact fun i => ih (i + 1)

theorem map_snd_bodyEntriesAt (c : Content) :
    ∀ i, (bodyEntriesAt i c).map Prod.snd = bodyEntries c := by
  induction c with
  | text t => exact fun _ => rfl
  | element t tag inner gap tail _ ih =>
    intro i
    rw [bodyEntriesAt, List.map_append, ih, bodyEntries_element]
    split
    · rw [map_snd_entriesAt]
    · rfl
  | empty t tag tail ih => exact fun i => (ih (i + 1)).trans (bodyEntries_empty t tag tail).symm
  | cdata t s tail ih => exact fun i => ih (i + 1)
  | aside t a tail ih => exact fun i => ih (i + 1)

theorem map_snd_rootEntriesAt (root : Root) :
    (rootEntriesAt root).map Prod.snd = bodyEntries root.toElement.content := by
  cases root with
  | element tag inner gap => exact map_snd_bodyEntriesAt inner 1
  | empty tag => rfl

/-! ### Where text is collected -/

/-- The last tag among tokens is a start tag below a body, of an element whose name has a
local part. -/
def Collects (ts : List Token) : Prop :=
  ∃ before n after, ts = before ++ .open n :: after ∧ (∀ t ∈ after, t.IsBetween) ∧
    localText n ≠ "" ∧ ∃ inner root, openNames before = inner ++ ["Body", root]

theorem collects_between {ts : List Token} {t : Token} (h : t.IsBetween) :
    Collects (ts ++ [t]) ↔ Collects ts := by
  constructor
  · rintro ⟨before, n, after, heq, hafter, hn, hbody⟩
    rcases List.eq_nil_or_concat after with rfl | ⟨after, u, rfl⟩
    · rw [(List.cons.inj (List.append_inj' heq rfl).2).1] at h
      cases h
    · rw [List.concat_eq_append, ← List.cons_append, ← List.append_assoc] at heq
      rw [List.concat_eq_append] at hafter
      exact ⟨before, n, after, (List.append_inj' heq rfl).1,
        fun u hu => hafter u (List.mem_append_left _ hu), hn, hbody⟩
  · rintro ⟨before, n, after, rfl, hafter, hn, hbody⟩
    refine ⟨before, n, after ++ [t], by simp, fun u hu => ?_, hn, hbody⟩
    rcases List.mem_append.mp hu with hu | hu
    · exact hafter u hu
    · exact List.mem_singleton.mp hu ▸ h

/-- A tag ends what is being collected, and only a start tag begins something else. -/
theorem collects_tag {ts : List Token} {t : Token} (h : ¬ t.IsBetween) :
    Collects (ts ++ [t]) ↔
      ∃ n, t = .open n ∧ localText n ≠ "" ∧
        ∃ inner root, openNames ts = inner ++ ["Body", root] := by
  constructor
  · rintro ⟨before, n, after, heq, hafter, hn, hbody⟩
    rcases List.eq_nil_or_concat after with rfl | ⟨after, u, rfl⟩
    · obtain ⟨rfl, ht⟩ := List.append_inj' heq rfl
      exact ⟨n, (List.cons.inj ht).1, hn, hbody⟩
    · rw [List.concat_eq_append, ← List.cons_append, ← List.append_assoc] at heq
      have ht := (List.cons.inj (List.append_inj' heq rfl).2).1
      exact absurd (hafter u (by simp)) (ht ▸ h)
  · rintro ⟨n, rfl, hn, hbody⟩
    exact ⟨ts, n, [], rfl, fun _ hu => absurd hu List.not_mem_nil, hn, hbody⟩

namespace Reading

/-- What the reader has come to after tokens. -/
structure Follows (r : Reading) (ts : List Token) : Prop where
  /-- It counts the open elements. -/
  depth_eq : r.depth = (openNames ts).length
  /-- It knows whether they stand in a body. -/
  inBody_iff : r.inBody = true ↔ ∃ inner root, openNames ts = inner ++ ["Body", root]
  /-- It knows whether text is being collected. -/
  collects_iff : r.current ≠ "" ↔ Collects ts
  /-- That is so only below a body. -/
  below : r.current ≠ "" → r.inBody = true ∧ 2 < r.depth

variable {r r' : Reading} {ts : List Token}

theorem follows_start : Follows .start [] where
  depth_eq := rfl
  inBody_iff := iff_of_false Bool.false_ne_true fun ⟨inner, root, h⟩ => by
    simpa [openNames] using congrArg List.length h
  collects_iff := iff_of_false (fun h => h rfl) fun ⟨before, n, after, h, _⟩ => by
    simpa using congrArg List.length h
  below h := absurd rfl h

/-- What stands between elements changes nothing but the text. -/
theorem Follows.between (h : r.Follows ts) {t : Token} (ht : t.IsBetween)
    (hstep : r.step t = .ok r') : r'.Follows (ts ++ [t]) := by
  have hnames : openNames (ts ++ [t]) = openNames ts := by
    rw [openNames_append_singleton]
    cases ht <;> rfl
  have hsame : r'.depth = r.depth ∧ r'.inBody = r.inBody ∧ r'.current = r.current := by
    have hcollect : ∀ cs, (r.collect cs).depth = r.depth ∧ (r.collect cs).inBody = r.inBody ∧
        (r.collect cs).current = r.current := by
      intro cs
      unfold collect
      split <;> exact ⟨rfl, rfl, rfl⟩
    cases ht with
    | text bs =>
      rw [step] at hstep
      repeat' split at hstep
      · cases hstep
        exact ⟨rfl, rfl, rfl⟩
      · cases hstep
        exact hcollect _
      · cases hstep
    | cdata bs =>
      cases hstep
      exact hcollect _
    | other =>
      cases hstep
      exact ⟨rfl, rfl, rfl⟩
  obtain ⟨hdepth, hbody, hcurrent⟩ := hsame
  refine ⟨?_, ?_, ?_, ?_⟩
  · rw [hnames, hdepth, h.depth_eq]
  · rw [hnames, hbody, h.inBody_iff]
  · rw [hcurrent, collects_between ht, h.collects_iff]
  · rw [hcurrent, hbody, hdepth]
    exact h.below

/-- A start tag. -/
theorem Follows.open (h : r.Follows ts) {n : Bytes} (hstep : r.open? (localText n) = .ok r') :
    r'.Follows (ts ++ [.open n]) := by
  have hnames : openNames (ts ++ [.open n]) = localText n :: openNames ts :=
    openNames_append_singleton ts _
  have hdepth : r'.depth = (openNames (ts ++ [.open n])).length := by
    rw [depth_of_open? hstep, hnames, List.length_cons, h.depth_eq]
  have hcollects : Collects (ts ++ [.open n]) ↔ localText n ≠ "" ∧ r.inBody = true := by
    rw [collects_tag (by rintro ⟨⟩), h.inBody_iff]
    constructor
    · rintro ⟨n', hn, hname, hbody⟩
      cases hn
      exact ⟨hname, hbody⟩
    · rintro ⟨hname, hbody⟩
      exact ⟨n, rfl, hname, hbody⟩
  -- elements that stand in a body are at least two
  have hlevel : r.inBody = true → 2 ≤ r.depth := by
    intro hbody
    obtain ⟨inner, root, hinner⟩ := h.inBody_iff.mp hbody
    rw [h.depth_eq, hinner, List.length_append]
    exact Nat.le_add_left 2 _
  have hinBody : (∃ inner root, openNames (ts ++ [.open n]) = inner ++ ["Body", root]) ↔
      r.inBody = true ∨ r.depth = 1 ∧ localText n = "Body" := by
    rw [hnames, h.inBody_iff, h.depth_eq]
    constructor
    · rintro ⟨_ | ⟨name, inner⟩, root, hbody⟩
      · obtain ⟨hname, hroot⟩ := List.cons.inj hbody
        exact .inr ⟨by rw [hroot]; rfl, hname⟩
      · exact .inl ⟨inner, root, (List.cons.inj hbody).2⟩
    · rintro (⟨inner, root, hbody⟩ | ⟨hone, hname⟩)
      · exact ⟨localText n :: inner, root, by rw [hbody]; rfl⟩
      · obtain ⟨root, hroot⟩ := List.length_eq_one_iff.mp hone
        exact ⟨[], root, by rw [hroot, hname]; rfl⟩
  suffices hopen : (r'.inBody = true ↔ r.inBody = true ∨ r.depth = 1 ∧ localText n = "Body") ∧
      (r'.current ≠ "" ↔ localText n ≠ "" ∧ r.inBody = true) by
    refine ⟨hdepth, hopen.1.trans hinBody.symm, hopen.2.trans hcollects.symm, fun hcurrent => ?_⟩
    have hbody := (hopen.2.mp hcurrent).2
    refine ⟨hopen.1.mpr (.inl hbody), ?_⟩
    rw [depth_of_open? hstep]
    exact Nat.lt_succ_of_le (hlevel hbody)
  -- an element outside the bodies leaves the text that is collected as it is, so there is none
  have houtside : r.inBody = false → (r.current ≠ "" ↔ localText n ≠ "" ∧ r.inBody = true) := by
    intro hbody
    rw [hbody]
    refine iff_of_false (fun hcurrent => ?_) fun hin => Bool.false_ne_true hin.2
    rw [(h.below hcurrent).1] at hbody
    cases hbody
  rw [open?] at hstep
  dsimp only at hstep
  split at hstep
  · next hzero =>
    have hbody : r.inBody = false := Bool.eq_false_iff.mpr fun hbody => by
      have := hlevel hbody
      omega
    split at hstep
    · cases hstep
      exact ⟨by simp only [hbody]; simp; omega, houtside hbody⟩
    · cases hstep
  next hzero =>
  split at hstep
  · next hsecond =>
    cases hstep
    have hone : r.depth = 1 := by omega
    refine ⟨by simp [hone, hsecond.2.2], houtside hsecond.2.1⟩
  next hsecond =>
  split at hstep
  · next hthird =>
    cases hstep
    exact ⟨by simp [hthird.1], by simp [hthird.1]⟩
  next hthird =>
  cases hstep
  have hbody : r.inBody = false := Bool.eq_false_iff.mpr fun hbody => by
    have := hlevel hbody
    exact hthird ⟨hbody, by omega⟩
  refine ⟨?_, houtside hbody⟩
  rw [hbody]
  refine iff_of_false Bool.false_ne_true ?_
  rintro (hin | ⟨hone, hname⟩)
  · cases hin
  · exact hsecond ⟨by omega, hbody, hname⟩

/-- An end tag. -/
theorem Follows.close (h : r.Follows ts) (n : Bytes) : r.close.Follows (ts ++ [.close n]) := by
  have hnames : openNames (ts ++ [.close n]) = (openNames ts).tail :=
    openNames_append_singleton ts _
  refine ⟨?_, ?_, ?_, fun hcurrent => absurd rfl hcurrent⟩
  · rw [hnames, List.length_tail, ← h.depth_eq]
    rfl
  · show (r.inBody && r.depth ≠ 2) = true ↔ _
    rw [hnames, Bool.and_eq_true, h.inBody_iff, decide_eq_true_iff, h.depth_eq]
    constructor
    · rintro ⟨⟨_ | ⟨name, inner⟩, root, hbody⟩, htwo⟩
      · rw [hbody] at htwo
        exact absurd rfl htwo
      · exact ⟨inner, root, by rw [hbody]; rfl⟩
    · rintro ⟨inner, root, hbody⟩
      cases hopen : openNames ts with
      | nil =>
        rw [hopen] at hbody
        simpa using congrArg List.length hbody
      | cons name names =>
        rw [hopen, List.tail_cons] at hbody
        exact ⟨⟨name :: inner, root, by rw [hbody]; rfl⟩, by simp [hbody]⟩
  · rw [collects_tag (by rintro ⟨⟩)]
    refine iff_of_false (fun hcurrent => hcurrent rfl) ?_
    rintro ⟨n', hn, -⟩
    cases hn

/-- The tag of an element without content. -/
theorem Follows.empty (h : r.Follows ts) {n : Bytes} (hstep : r.empty? (localText n) = .ok r') :
    r'.Follows (ts ++ [.empty n]) := by
  have hnames : openNames (ts ++ [.empty n]) = openNames ts := openNames_append_singleton ts _
  have hsame : r'.inBody = r.inBody ∧ r'.current = "" := by
    rw [empty?] at hstep
    repeat' split at hstep
    all_goals cases hstep
    all_goals exact ⟨rfl, rfl⟩
  refine ⟨?_, ?_, ?_, fun hcurrent => absurd hsame.2 hcurrent⟩
  · rw [hnames, depth_of_empty? hstep, h.depth_eq]
  · rw [hnames, hsame.1, h.inBody_iff]
  · rw [collects_tag (by rintro ⟨⟩)]
    refine iff_of_false (fun hcurrent => hcurrent hsame.2) ?_
    rintro ⟨n', hn, -⟩
    cases hn

/-- **One token.** -/
theorem Follows.step (h : r.Follows ts) {t : Token} (hstep : r.step t = .ok r') :
    r'.Follows (ts ++ [t]) := by
  cases t with
  | «open» n => exact h.open hstep
  | close n =>
    cases hstep
    exact h.close n
  | empty n => exact h.empty hstep
  | text bs => exact h.between (.text bs) hstep
  | cdata bs => exact h.between (.cdata bs) hstep
  | other => exact h.between .other hstep
  | broken => cases hstep

/-- **Any number of tokens.** -/
theorem Follows.run (h : r.Follows ts) {us : List Token}
    (hrun : us.foldlM Reading.step r = .ok r') : r'.Follows (ts ++ us) := by
  induction us generalizing r ts with
  | nil =>
    cases hrun
    rwa [List.append_nil]
  | cons t us ih =>
    rw [List.foldlM_cons] at hrun
    cases hstep : r.step t with
    | error f =>
      rw [hstep] at hrun
      cases hrun
    | ok r'' =>
      rw [hstep] at hrun
      have hus := ih (h.step hstep) hrun
      rwa [List.append_assoc] at hus

theorem sawEnvelope_step {t : Token} (hsaw : r.sawEnvelope = true) (h : r.step t = .ok r') :
    r'.sawEnvelope = true := by
  cases t with
  | «open» n =>
    rw [step, open?] at h
    repeat' split at h
    all_goals cases h
    all_goals first | rfl | exact hsaw
  | close n =>
    cases h
    exact hsaw
  | empty n =>
    rw [step, empty?] at h
    repeat' split at h
    all_goals cases h
    all_goals first | rfl | exact hsaw
  | text bs =>
    rw [step] at h
    repeat' split at h
    · cases h
      exact hsaw
    · cases h
      unfold collect
      split <;> exact hsaw
    · cases h
  | cdata bs =>
    cases h
    unfold collect
    split <;> exact hsaw
  | other =>
    cases h
    exact hsaw
  | broken => cases h

theorem sawEnvelope_run (hsaw : r.sawEnvelope = true) (h : ts.foldlM step r = .ok r') :
    r'.sawEnvelope = true := by
  induction ts generalizing r with
  | nil =>
    cases h
    exact hsaw
  | cons t ts ih =>
    rw [List.foldlM_cons] at h
    cases hstep : r.step t with
    | error f =>
      rw [hstep] at h
      cases h
    | ok r'' =>
      rw [hstep] at h
      exact ih (sawEnvelope_step hsaw hstep) h

/-! ### The entries, one by one -/

/-- The entry that an end tag puts in. -/
def ended? (r : Reading) : Option (String × String) :=
  if r.inBody ∧ 2 < r.depth ∧ r.current ≠ "" ∧ Text.trimChars r.text ≠ [] then
    some (r.current, String.ofList (Text.trimChars r.text))
  else none

theorem ended?_of_current (h : r.current = "") : r.ended? = none :=
  if_neg fun h' => h'.2.2.1 h

theorem ended?_of_inBody (h : r.inBody = false) : r.ended? = none :=
  if_neg fun h' => Bool.false_ne_true (h.symm.trans h'.1)

/-- The entry that a token puts in. -/
def put? (r : Reading) : Token → Option (String × String)
  | .close _ => r.ended?
  | _ => none

theorem found_close (r : Reading) : r.close.found = insertAll r.found r.ended?.toList := by
  rw [close, ended?]
  dsimp only
  split <;> rfl

/-- A token puts in its entry, and nothing else. -/
theorem found_step {t : Token} (h : r.step t = .ok r') :
    r'.found = insertAll r.found (r.put? t).toList := by
  cases t with
  | «open» n =>
    rw [step, open?] at h
    repeat' split at h
    all_goals cases h
    all_goals rfl
  | close n =>
    cases h
    exact found_close r
  | empty n =>
    rw [step, empty?] at h
    repeat' split at h
    all_goals cases h
    all_goals rfl
  | text bs =>
    rw [step] at h
    repeat' split at h
    · cases h
      rfl
    · cases h
      unfold collect
      split <;> rfl
    · cases h
  | cdata bs =>
    cases h
    unfold collect
    split <;> rfl
  | other =>
    cases h
    rfl
  | broken => cases h

/-- The reader after some spans, with the entries that have been put in and, for each of
them, the number of the span whose markup did so. -/
structure Log where
  /-- The reader. -/
  reader : Reading
  /-- The entries. -/
  noted : List (ℕ × String × String)
  /-- The number of spans. -/
  spans : ℕ

/-- Markup is read. -/
def Log.mark (s : Log) (m : Markup) : Except Failure Log :=
  (s.reader.step m.token).map fun r =>
    ⟨r, s.noted ++ (s.reader.put? m.token).toList.map fun e => (s.spans, e), s.spans + 1⟩

/-- A span is read. -/
def Log.span (s : Log) (x : Span) : Except Failure Log :=
  Log.mark { s with reader := s.reader.collect x.data.chars } x.markup

/-- **The reader only ever puts entries in**, and the log has them in order. -/
theorem Log.run {xs : List Span} {es fs : List (ℕ × String × String)} {i j : ℕ}
    (h : xs.foldlM Log.span ⟨r, es, i⟩ = .ok ⟨r', fs, j⟩) :
    (spanTokens xs).foldlM step r = .ok r' ∧ j = i + xs.length ∧
      ∃ more, fs = es ++ more ∧ (∀ e ∈ more, i ≤ e.1 ∧ e.1 < j) ∧
        r'.found = insertAll r.found (more.map Prod.snd) := by
  induction xs generalizing r es i with
  | nil =>
    cases h
    exact ⟨rfl, rfl, [], (List.append_nil _).symm, by simp, rfl⟩
  | cons x xs ih =>
    rw [List.foldlM_cons, Log.span, Log.mark] at h
    cases hstep : (r.collect x.data.chars).step x.markup.token with
    | error f =>
      rw [hstep] at h
      cases h
    | ok r'' =>
      rw [hstep] at h
      have hrest : xs.foldlM Log.span ⟨r'', es ++ ((r.collect x.data.chars).put?
          x.markup.token).toList.map fun e => (i, e), i + 1⟩ = .ok ⟨r', fs, j⟩ := h
      obtain ⟨hrun, rfl, more, rfl, hmore, hfound⟩ := ih hrest
      have hput : ∀ e ∈ ((r.collect x.data.chars).put? x.markup.token).toList.map fun e => (i, e),
          i ≤ e.1 ∧ e.1 < i + 1 + xs.length := by
        intro e he
        obtain ⟨e', -, rfl⟩ := List.mem_map.mp he
        exact ⟨Nat.le_refl i, by omega⟩
      refine ⟨?_, by rw [List.length_cons]; omega, _, List.append_assoc _ _ _, fun e he => ?_, ?_⟩
      · rw [spanTokens_cons, foldlM_charData, foldlM_step hstep]
        exact hrun
      · rcases List.mem_append.mp he with he | he
        · exact hput e he
        · exact ⟨Nat.le_of_succ_le (hmore e he).1, (hmore e he).2⟩
      · have hsame : (r.collect x.data.chars).found = r.found := by
          unfold collect
          split <;> rfl
        rw [hfound, found_step hstep, hsame, ← insertAll_append, List.map_append, List.map_map]
        congr 2
        exact (List.map_id _).symm

/-- Markup that puts nothing in. -/
theorem Log.mark_quiet {m : Markup} (h : r.step m.token = .ok r') (hquiet : r.put? m.token = none)
    (es : List (ℕ × String × String)) (i : ℕ) : Log.mark ⟨r, es, i⟩ m = .ok ⟨r', es, i + 1⟩ := by
  rw [Log.mark, h, hquiet, Option.toList_none, List.map_nil, List.append_nil]
  rfl

/-- A span is read, and then others. -/
theorem Log.foldlM_span {s s' : Log} {x : Span} (h : s.span x = .ok s') (xs : List Span) :
    (x :: xs).foldlM Log.span s = xs.foldlM Log.span s' := by
  rw [List.foldlM_cons, h]
  rfl

/-- Spans are read, and then others. -/
theorem Log.foldlM_spans {s s' : Log} {xs : List Span} (h : xs.foldlM Log.span s = .ok s')
    (ys : List Span) : (xs ++ ys).foldlM Log.span s = ys.foldlM Log.span s' := by
  rw [List.foldlM_append, h]
  rfl

/-- The end tag of an element below a body puts in its field. -/
theorem ended?_after (hbody : r.inBody = true) (hdepth : 2 ≤ r.depth) (n : Name)
    (inner : Content) : ((r.enter n).after inner).ended? = field? ⟨n, inner⟩ := by
  have hmore : 2 < (r.enter n).depth := Nat.lt_succ_of_le hdepth
  by_cases hinner : inner.children = []
  · rw [after_of_nil hinner, collect]
    by_cases hname : n.localName = ""
    · have hcurrent : (r.enter n).current = "" := hname
      rw [if_pos hcurrent, ended?_of_current hcurrent, field?, if_neg fun h => h.2.2 hname]
    · have hcurrent : (r.enter n).current ≠ "" := hname
      rw [if_neg hcurrent, ended?, field?]
      simp [enter, hbody, hname, hinner, Nat.lt_succ_of_le hdepth]
  · rw [after_of_ne_nil hinner, ended?_of_current rfl, field?,
      if_neg fun h => hinner (List.isEmpty_iff.mp h.1)]

/-- **Content below a body**, up to the markup after it. -/
theorem Log.inside (c : Content) :
    ∀ (m : Markup) (r : Reading) (es : List (ℕ × String × String)) (i : ℕ), r.inBody = true →
      2 ≤ r.depth →
      (c.spans m).foldlM Log.span ⟨r, es, i⟩
        = Log.mark ⟨r.after c, es ++ entriesAt i c, i + c.marks⟩ m := by
  induction c with
  | text t =>
    intro m r es i _ _
    rw [Content.spans, List.foldlM_cons, after_of_nil rfl, entriesAt, List.append_nil]
    exact bind_pure _
  | element t tag inner gap tail ihinner ihtail =>
    intro m r es i hbody hdepth
    have hbody' : (r.collect t.chars).inBody = true := by rw [inBody_collect, hbody]
    have hdepth' : 2 ≤ (r.collect t.chars).depth := by rw [depth_collect]; exact hdepth
    have hopen : Log.span ⟨r, es, i⟩ ⟨t, .open tag⟩
        = .ok ⟨(r.collect t.chars).enter tag.name, es, i + 1⟩ :=
      mark_quiet (m := .open tag) (step_open_inside hbody' hdepth' tag.name) rfl es i
    have hnext : i + 1 + inner.marks + 1 = i + inner.marks + 2 := by omega
    have hlast : i + inner.marks + 2 + tail.marks = i + (inner.marks + tail.marks + 2) := by omega
    have hclose := ihinner (.close tag.name gap) (enter _ tag.name) es (i + 1) hbody'
      (Nat.le_succ_of_le hdepth')
    rw [Log.mark, Markup.token, step_close, close_after hbody' hdepth', settle_collect, put?,
      ended?_after hbody' hdepth'] at hclose
    rw [Content.spans, foldlM_span hopen, foldlM_spans hclose,
      ihtail m (r.settle _) _ _ hbody hdepth, after_settle,
      after_of_ne_nil (c := .element t tag inner gap tail) (List.cons_ne_nil _ _),
      entries_element, entriesAt, Content.marks, hnext, hlast]
    simp only [List.append_assoc]
  | empty t tag tail ih =>
    intro m r es i hbody hdepth
    have hopen : 0 < (r.collect t.chars).depth := by rw [depth_collect]; omega
    have hempty : Log.span ⟨r, es, i⟩ ⟨t, .empty tag⟩ = .ok ⟨r.settle [], es, i + 1⟩ := by
      have hstep := step_empty hopen tag.name
      rw [settle_collect] at hstep
      exact mark_quiet (m := .empty tag) hstep rfl es i
    rw [Content.spans, foldlM_span hempty, ih m (r.settle []) _ _ hbody hdepth, after_settle,
      after_of_ne_nil (c := .empty t tag tail) (List.cons_ne_nil _ _), entries_empty,
      List.nil_append, entriesAt, Content.marks, Nat.add_right_comm]
    rfl
  | cdata t s tail ih =>
    intro m r es i hbody hdepth
    have hsection : Log.span ⟨r, es, i⟩ ⟨t, .cdata s⟩
        = .ok ⟨(r.collect t.chars).collect s.chars, es, i + 1⟩ :=
      mark_quiet (m := .cdata s) (step_cdata s) rfl es i
    rw [Content.spans, foldlM_span hsection,
      ih m _ _ _ (by simpa using hbody) (by simpa using hdepth), after_cdata, entriesAt,
      Content.marks, Nat.add_right_comm]
    rfl
  | aside t a tail ih =>
    intro m r es i hbody hdepth
    have hother : Log.span ⟨r, es, i⟩ ⟨t, .aside a⟩ = .ok ⟨r.collect t.chars, es, i + 1⟩ :=
      mark_quiet (m := .aside a) (step_other _) rfl es i
    rw [Content.spans, foldlM_span hother,
      ih m _ _ _ (by simpa using hbody) (by simpa using hdepth), after_aside, entriesAt,
      Content.marks, Nat.add_right_comm]
    rfl

/-- Where no text is collected, a span comes to its markup. -/
theorem Log.span_idle (h : r.current = "") (es : List (ℕ × String × String)) (i : ℕ) (x : Span) :
    Log.span ⟨r, es, i⟩ x = Log.mark ⟨r, es, i⟩ x.markup := by
  rw [Log.span, collect_of_idle h]

/-- **Content that stands in no body**, up to the markup after it. -/
theorem Log.outside (c : Content) :
    ∀ (m : Markup) (r : Reading) (es : List (ℕ × String × String)) (i : ℕ), r.Idle →
      r.inBody = false → 2 ≤ r.depth →
      (c.spans m).foldlM Log.span ⟨r, es, i⟩ = Log.mark ⟨r, es, i + c.marks⟩ m := by
  induction c with
  | text t =>
    intro m r es i hidle _ _
    rw [Content.spans, List.foldlM_cons, span_idle hidle.1]
    exact bind_pure _
  | element t tag inner gap tail ihinner ihtail =>
    intro m r es i hidle hbody hdepth
    have hopen : Log.span ⟨r, es, i⟩ ⟨t, .open tag⟩
        = .ok ⟨{ r with depth := r.depth + 1 }, es, i + 1⟩ := by
      rw [span_idle hidle.1]
      exact mark_quiet (m := .open tag) (step_open_outside hbody hdepth tag.name) rfl es i
    have hclose := ihinner (.close tag.name gap) { r with depth := r.depth + 1 } es (i + 1) hidle
      hbody (Nat.le_succ_of_le hdepth)
    rw [mark_quiet (m := .close tag.name gap) (congrArg _ (close_outside hidle hbody))
      (ended?_of_inBody hbody)] at hclose
    have hlast : i + 1 + inner.marks + 1 + tail.marks = i + (inner.marks + tail.marks + 2) := by
      omega
    rw [Content.spans, foldlM_span hopen, foldlM_spans hclose, ihtail m r _ _ hidle hbody hdepth,
      Content.marks, hlast]
  | empty t tag tail ih =>
    intro m r es i hidle hbody hdepth
    have hempty : Log.span ⟨r, es, i⟩ ⟨t, .empty tag⟩ = .ok ⟨r, es, i + 1⟩ := by
      have hstep := step_empty (Nat.lt_of_lt_of_le Nat.two_pos hdepth) tag.name
      rw [hidle.settle_nil] at hstep
      rw [span_idle hidle.1]
      exact mark_quiet (m := .empty tag) hstep rfl es i
    rw [Content.spans, foldlM_span hempty, ih m r _ _ hidle hbody hdepth, Content.marks,
      Nat.add_right_comm]
    rfl
  | cdata t s tail ih =>
    intro m r es i hidle hbody hdepth
    have hsection : Log.span ⟨r, es, i⟩ ⟨t, .cdata s⟩ = .ok ⟨r, es, i + 1⟩ := by
      have hstep := step_cdata (r := r) s
      rw [collect_of_idle hidle.1] at hstep
      rw [span_idle hidle.1]
      exact mark_quiet (m := .cdata s) hstep rfl es i
    rw [Content.spans, foldlM_span hsection, ih m r _ _ hidle hbody hdepth, Content.marks,
      Nat.add_right_comm]
    rfl
  | aside t a tail ih =>
    intro m r es i hidle hbody hdepth
    have hother : Log.span ⟨r, es, i⟩ ⟨t, .aside a⟩ = .ok ⟨r, es, i + 1⟩ := by
      rw [span_idle hidle.1]
      exact mark_quiet (m := .aside a) (step_other _) rfl es i
    rw [Content.spans, foldlM_span hother, ih m r _ _ hidle hbody hdepth, Content.marks,
      Nat.add_right_comm]
    rfl

/-- A child of the root, behind its start tag. -/
theorem Log.child (hidle : r.Idle) (hbody : r.inBody = false) (hdepth : r.depth = 1)
    (n : Name) (inner : Content) (gap : Gap) (es : List (ℕ × String × String)) (i : ℕ) :
    (inner.spans (.close n gap)).foldlM Log.span
        ⟨{ r with depth := 2, inBody := decide (n.localName = "Body") }, es, i⟩
      = .ok ⟨r.settle (if n.localName = "Body" then entries inner else []),
          es ++ (if n.localName = "Body" then entriesAt i inner else []),
          i + inner.marks + 1⟩ := by
  by_cases h : n.localName = "Body"
  · -- its entries are put in, and its end tag puts in nothing
    have hidle' : Idle { r with depth := 2, inBody := true } := hidle
    have hclose : (({ r with depth := 2, inBody := true } : Reading).settle (entries inner)).step
        (Markup.close n gap).token = .ok (r.settle (entries inner)) := by
      rw [Markup.token, step_close]
      obtain ⟨depth, saw, inBody, current, text, found⟩ := r
      cases hbody
      cases hdepth
      rfl
    rw [decide_eq_true h, if_pos h, if_pos h, inside _ _ _ _ _ rfl (Nat.le_refl 2),
      ← hidle'.settle_nil, after_settle, List.nil_append]
    exact mark_quiet hclose (ended?_of_current rfl) _ _
  · have hidle' : Idle { r with depth := 2, inBody := false } := hidle
    have hclose : ({ r with depth := 2, inBody := false } : Reading).step
        (Markup.close n gap).token = .ok r := by
      rw [Markup.token, step_close]
      obtain ⟨depth, saw, inBody, current, text, found⟩ := r
      obtain ⟨rfl, rfl⟩ := hidle
      cases hbody
      cases hdepth
      rfl
    rw [decide_eq_false h, if_neg h, if_neg h, outside _ _ _ _ _ hidle' rfl (Nat.le_refl 2),
      hidle.settle_nil, List.append_nil]
    exact mark_quiet hclose (ended?_of_inBody rfl) _ _

/-- **The content of the root**, up to the markup after it. -/
theorem Log.root (c : Content) :
    ∀ (m : Markup) (r : Reading) (es : List (ℕ × String × String)) (i : ℕ), r.Idle →
      r.inBody = false → r.depth = 1 →
      (c.spans m).foldlM Log.span ⟨r, es, i⟩
        = Log.mark ⟨r.settle (bodyEntries c), es ++ bodyEntriesAt i c, i + c.marks⟩ m := by
  induction c with
  | text t =>
    intro m r es i hidle _ _
    have hnone : bodyEntries (.text t) = [] := rfl
    rw [Content.spans, List.foldlM_cons, span_idle hidle.1, hnone, hidle.settle_nil,
      bodyEntriesAt, List.append_nil]
    exact bind_pure _
  | element t tag inner gap tail _ ih =>
    intro m r es i hidle hbody hdepth
    have hopen : Log.span ⟨r, es, i⟩ ⟨t, .open tag⟩
        = .ok ⟨{ r with depth := 2, inBody := decide (tag.name.localName = "Body") }, es,
          i + 1⟩ := by
      rw [span_idle hidle.1]
      exact mark_quiet (m := .open tag) (step_open_second hbody hdepth tag.name) rfl es i
    have hnext : i + 1 + inner.marks + 1 = i + inner.marks + 2 := by omega
    have hlast : i + inner.marks + 2 + tail.marks = i + (inner.marks + tail.marks + 2) := by omega
    rw [Content.spans, foldlM_span hopen, foldlM_spans (child hidle hbody hdepth ..),
      ih m (r.settle _) _ _ ⟨rfl, rfl⟩ hbody hdepth, settle_settle, bodyEntries_element,
      bodyEntriesAt, Content.marks, List.append_assoc, hnext, hlast]
  | empty t tag tail ih =>
    intro m r es i hidle hbody hdepth
    have hempty : Log.span ⟨r, es, i⟩ ⟨t, .empty tag⟩ = .ok ⟨r, es, i + 1⟩ := by
      have hstep := step_empty (r := r) (by omega) tag.name
      rw [hidle.settle_nil] at hstep
      rw [span_idle hidle.1]
      exact mark_quiet (m := .empty tag) hstep rfl es i
    rw [Content.spans, foldlM_span hempty, ih m r _ _ hidle hbody hdepth, bodyEntries_empty,
      Content.marks, Nat.add_right_comm]
    rfl
  | cdata t s tail ih =>
    intro m r es i hidle hbody hdepth
    have hsection : Log.span ⟨r, es, i⟩ ⟨t, .cdata s⟩ = .ok ⟨r, es, i + 1⟩ := by
      have hstep := step_cdata (r := r) s
      rw [collect_of_idle hidle.1] at hstep
      rw [span_idle hidle.1]
      exact mark_quiet (m := .cdata s) hstep rfl es i
    rw [Content.spans, foldlM_span hsection, ih m r _ _ hidle hbody hdepth, Content.marks,
      Nat.add_right_comm]
    rfl
  | aside t a tail ih =>
    intro m r es i hidle hbody hdepth
    have hother : Log.span ⟨r, es, i⟩ ⟨t, .aside a⟩ = .ok ⟨r, es, i + 1⟩ := by
      rw [span_idle hidle.1]
      exact mark_quiet (m := .aside a) (step_other _) rfl es i
    rw [Content.spans, foldlM_span hother, ih m r _ _ hidle hbody hdepth, Content.marks,
      Nat.add_right_comm]
    rfl

theorem foldlM_append (h : ts.foldlM step r = .ok r') (us : List Token) :
    (ts ++ us).foldlM step r = us.foldlM step r' := by
  rw [List.foldlM_append, h]
  rfl

/-- What comes before the root changes nothing. -/
theorem foldlM_lead (d : Document) (ts : List Token) :
    (d.leadTokens ++ ts).foldlM step start = ts.foldlM step start := by
  rw [Document.leadTokens, List.append_assoc, foldlM_misc _ rfl, foldlM_textTokens rfl]

/-- **The entries of an envelope**, each with the span that puts it in. -/
theorem Log.envelope {root : Root} (h : root.toElement.name.localName = "Envelope") :
    ∃ r' j, root.spans.foldlM Log.span ⟨start, [], 0⟩ = .ok ⟨r', rootEntriesAt root, j⟩ := by
  cases root with
  | element tag inner gap =>
    have hopen : Log.span ⟨start, [], 0⟩ ⟨[], .open tag⟩
        = .ok ⟨{ start with depth := 1, sawEnvelope := true }, [], 1⟩ :=
      mark_quiet (m := .open tag) ((step_open_root rfl tag.name).trans (if_pos h)) rfl [] 0
    rw [Root.spans, foldlM_span hopen, root _ _ _ _ _ ⟨rfl, rfl⟩ rfl rfl,
      mark_quiet (m := .close tag.name gap) (step_close _ _) (ended?_of_current rfl)]
    exact ⟨_, _, rfl⟩
  | empty tag =>
    have hempty : Log.span ⟨start, [], 0⟩ ⟨[], .empty tag⟩
        = .ok ⟨{ start with sawEnvelope := true }, [], 1⟩ :=
      mark_quiet (m := .empty tag) ((step_empty_root rfl tag.name).trans (if_pos h)) rfl [] 0
    rw [Root.spans, foldlM_span hempty]
    exact ⟨_, _, rfl⟩

/-- What the reader has come to in an envelope: the entries whose end tags it has seen. -/
theorem exists_reached {root : Root} (h : root.toElement.name.localName = "Envelope")
    {done : List Span} {s : Span} (hreaches : root.Reaches done s) :
    ∃ r', (spanTokens done).foldlM step start = .ok r' ∧ r'.Follows (spanTokens done) ∧
      endedEntries root done.length <+: bodyEntries root.toElement.content ∧
      r'.found = Dictionary.ofList (endedEntries root done.length) ∧
      (done ≠ [] → r'.sawEnvelope = true) := by
  obtain ⟨undone, hspans⟩ := hreaches
  obtain ⟨rEnd, j, hlog⟩ := Log.envelope h
  rw [hspans] at hlog
  cases hdone : done.foldlM Log.span ⟨start, [], 0⟩ with
  | error f =>
    rw [List.foldlM_append, hdone] at hlog
    cases hlog
  | ok reached =>
    obtain ⟨r', es, i⟩ := reached
    rw [Log.foldlM_spans hdone] at hlog
    obtain ⟨hrun, rfl, _, rfl, hbefore, hfound⟩ := Log.run hdone
    obtain ⟨-, -, more, hmore, hbehind, -⟩ := Log.run hlog
    rw [Nat.zero_add] at hbefore hbehind
    -- the entries put in so far are those with a span that is done
    have hended : endedEntries root done.length = es.map Prod.snd := by
      rw [endedEntries, hmore, List.filter_append, List.filter_eq_self.mpr,
        List.filter_eq_nil_iff.mpr, List.append_nil]
      · intro e he
        simpa using (hbehind e he).1
      · intro e he
        simpa using (hbefore e he).2
    refine ⟨r', hrun, follows_start.run hrun, ?_, ?_, fun hne => ?_⟩
    · rw [hended, ← map_snd_rootEntriesAt, hmore, List.map_append]
      exact List.prefix_append ..
    · rw [hended]
      exact hfound
    -- the first tag is that of the envelope
    obtain ⟨first, rest, rfl⟩ := List.exists_cons_of_ne_nil hne
    rw [spanTokens_cons] at hrun
    cases root with
    | element tag inner gap =>
      obtain ⟨rfl, -⟩ := List.cons.inj hspans
      have hopen : start.step (.open (encodeChars tag.name.chars))
          = .ok { start with depth := 1, sawEnvelope := true } :=
        (step_open_root rfl tag.name).trans (if_pos h)
      exact sawEnvelope_run rfl ((foldlM_step hopen _).symm.trans hrun)
    | empty tag => exact absurd (congrArg List.length hspans) (by simp [Root.spans])

end Reading

/-! ### Cut envelopes -/

/-- The last thing before a cut of the root is not whole: it is markup, or a character or
reference in a text that is being collected. -/
inductive Torn (root : Root) : Bytes → Prop where
  /-- Markup is cut. -/
  | markup {done : List Span} {s : Span} {front back : Bytes} (hreaches : root.Reaches done s)
      (hcut : front ++ back = encodeChars s.markup.print) (hfront : front ≠ [])
      (hback : back ≠ []) : Torn root (encodeChars (printSpans done ++ s.data.print) ++ front)
  /-- A piece of character data is cut. -/
  | data {done : List Span} {s : Span} {front back : Bytes} (hreaches : root.Reaches done s)
      (hcut : front ++ back = encodeChars s.data.print) (hcollects : Collects (spanTokens done))
      (hpiece : ∀ whole : CharData, whole <+: s.data → front ≠ encodeChars whole.print) :
      Torn root (encodeChars (printSpans done) ++ front)

section

variable {d : Document} {part rest : Bytes}

/-- The tokens up to a cut in character data. -/
theorem tokens_cut_data {done : List Span} {s : Span} {front back : Bytes}
    (hcut : encodeChars (printSpans done) ++ front ++ rest = encodeChars d.root.print)
    (hreaches : d.root.Reaches done s) (hdata : front ++ back = encodeChars s.data.print) :
    tokens (encodeChars d.lead ++ (encodeChars (printSpans done) ++ front))
      = d.leadTokens ++ (spanTokens done ++ dataTokens front) := by
  have hfront : ∀ b ∈ front, b ≠ 0x3C := fun b hb =>
    ne_of_mem_encodeChars (d := '<') (by decide) s.data.notMem_print
      (hdata ▸ List.mem_append_left _ hb)
  exact d.tokens_lead hcut (scans_spans done (scans_data hfront))
    (Root.matched_cut hreaches fun names => matched_dataTokens names front)

/-- The tokens up to a cut in markup. -/
theorem tokens_cut_markup {done : List Span} {s : Span} {front back : Bytes}
    (hcut : encodeChars (printSpans done ++ s.data.print) ++ front ++ rest
      = encodeChars d.root.print)
    (hreaches : d.root.Reaches done s) (hmarkup : front ++ back = encodeChars s.markup.print)
    (hfront : front ≠ []) (hback : back ≠ []) :
    tokens (encodeChars d.lead ++ (encodeChars (printSpans done ++ s.data.print) ++ front))
      = d.leadTokens ++ (spanTokens done ++ (textTokens s.data.print ++ [.broken])) := by
  have hhead : ∀ x ∈ front.head?, x = 0x3C := by
    obtain ⟨cs, hprint⟩ := s.markup.exists_print
    obtain ⟨b, front, rfl⟩ := List.exists_cons_of_ne_nil hfront
    rw [hprint, List.cons_append] at hmarkup
    rintro x ⟨⟩
    exact (List.cons.inj hmarkup).1
  have hscans : Scans (encodeChars (printSpans done ++ s.data.print) ++ front)
      (spanTokens done ++ (textTokens s.data.print ++ [.broken])) := by
    rw [encodeChars_append, List.append_assoc]
    exact scans_spans done
      ((Markup.scans_cut hmarkup hfront hback).textTokens s.data.notMem_print hhead)
  refine d.tokens_lead hcut hscans (Root.matched_cut hreaches fun names => ?_)
  rw [matched_textTokens]
  rfl

theorem fields_of_torn (hroot : d.root.toElement.name.localName = "Envelope")
    (hcut : part ++ rest = encodeChars d.root.print) (h : Torn d.root part) :
    ∃ message, fields (encodeChars d.lead ++ part) = .error (.decode message) := by
  cases h with
  | markup hreaches hmarkup hfront hback =>
    obtain ⟨r, hrun, -⟩ := Reading.exists_reached hroot hreaches
    rw [fields, tokens_cut_markup hcut hreaches hmarkup hfront hback, fieldsOf,
      Reading.foldlM_lead, Reading.foldlM_append hrun, Reading.foldlM_charData]
    exact ⟨_, rfl⟩
  | @data done s front back hreaches hdata hcollects hpiece =>
    obtain ⟨r, hrun, hfollows, -⟩ := Reading.exists_reached hroot hreaches
    have hcurrent : r.current ≠ "" := hfollows.collects_iff.mpr hcollects
    have hfront : front ≠ [] := hpiece [] List.nil_prefix
    have hnone : textOf? front = none := by
      refine Option.eq_none_iff_forall_ne_some.mpr fun cs hread => ?_
      obtain ⟨whole, hwhole, heq⟩ := exists_whole_of_textOf? hdata hread
      exact hpiece whole hwhole heq
    rw [fields, tokens_cut_data hcut hreaches hdata, fieldsOf, Reading.foldlM_lead,
      Reading.foldlM_append hrun, dataTokens, if_neg hfront, List.foldlM_cons,
      Reading.step, if_neg hcurrent, hnone]
    exact ⟨_, rfl⟩

theorem fields_of_not_torn (hroot : d.root.toElement.name.localName = "Envelope")
    (hcut : part ++ rest = encodeChars d.root.print) (hpart : part ≠ []) (hrest : rest ≠ [])
    (h : ¬ Torn d.root part) :
    ∃ done, d.root.EndsBehind done part ∧
      endedEntries d.root done.length <+: bodyEntries d.root.toElement.content ∧
      fields (encodeChars d.lead ++ part)
        = .ok (Dictionary.ofList (endedEntries d.root done.length)) := by
  obtain ⟨done, s, front, back, hreaches, ⟨rfl, hdata⟩ | ⟨rfl, hmarkup, hfront, hback⟩⟩ :=
    Root.exists_cut hcut hrest
  · obtain ⟨r, hrun, hfollows, hes, hfound, hsaw⟩ := Reading.exists_reached hroot hreaches
    have hdone : done ≠ [] := by
      rintro rfl
      rw [hreaches.data_eq_nil] at hdata
      exact hpart (List.append_eq_nil_iff.mp hdata).1
    -- what is left of the character data is read, if it is looked at
    have hlast : ∃ r', (dataTokens front).foldlM Reading.step r = .ok r' ∧
        r'.found = r.found ∧ r'.sawEnvelope = true := by
      rw [dataTokens]
      split
      · exact ⟨r, rfl, rfl, hsaw hdone⟩
      by_cases hcurrent : r.current = ""
      · have hstep : r.step (.text front) = .ok r := by rw [Reading.step, if_pos hcurrent]
        exact ⟨r, Reading.foldlM_step hstep [], rfl, hsaw hdone⟩
      · obtain ⟨whole, hwhole⟩ : ∃ whole : CharData, front = encodeChars whole.print := by
          by_contra hnot
          exact h (.data hreaches hdata (hfollows.collects_iff.mp hcurrent)
            fun whole _ heq => hnot ⟨whole, heq⟩)
        have hstep : r.step (.text front) = .ok (r.collect whole.chars) := by
          rw [hwhole, Reading.step_charData]
        exact ⟨_, Reading.foldlM_step hstep [], Reading.found_step hstep,
          Reading.sawEnvelope_step (hsaw hdone) hstep⟩
    obtain ⟨r', hlast, hsame, henvelope⟩ := hlast
    refine ⟨done, ⟨s, front, hreaches, ⟨back, hdata⟩, rfl⟩, hes, ?_⟩
    rw [fields, tokens_cut_data hcut hreaches hdata, fieldsOf, Reading.foldlM_lead,
      Reading.foldlM_append hrun, hlast]
    show (if r'.sawEnvelope then Except.ok r'.found else _) = _
    rw [if_pos henvelope, hsame, hfound]
  · exact absurd (.markup hreaches hmarkup hfront hback) h

theorem value_soap_of_error {bs : Bytes} {f : Failure} (hbs : bs ≠ []) (h : fields bs = .error f) :
    (ResponseBody.soap bs).value = rawText bs := by
  obtain ⟨b, bs, rfl⟩ := List.exists_cons_of_ne_nil hbs
  rw [ResponseBody.value, h]
  exact List.cons_ne_nil b bs

/-- **An envelope that is cut short** in its root.  If the cut tears markup, or a character
or reference in a text that is being collected, it is refused, and its bytes are given as
plain text.  At any other cut it is taken for whole, with the entries whose end tags come
before the cut; they are the first entries of the whole envelope, and the others are lost. -/
theorem fields_cut (hroot : d.root.toElement.name.localName = "Envelope")
    (hcut : part ++ rest = encodeChars d.root.print) (hpart : part ≠ []) (hrest : rest ≠ []) :
    (Torn d.root part →
      (∃ message, fields (encodeChars d.lead ++ part) = .error (.decode message)) ∧
        (ResponseBody.soap (encodeChars d.lead ++ part)).value
          = rawText (encodeChars d.lead ++ part)) ∧
    (¬ Torn d.root part →
      ∃ done, d.root.EndsBehind done part ∧
        endedEntries d.root done.length <+: bodyEntries d.root.toElement.content ∧
        fields (encodeChars d.lead ++ part)
          = .ok (Dictionary.ofList (endedEntries d.root done.length)) ∧
        (ResponseBody.soap (encodeChars d.lead ++ part)).value
          = .object (Dictionary.mapValues .string
              (Dictionary.ofList (endedEntries d.root done.length)))) := by
  constructor
  · intro htorn
    obtain ⟨message, hfields⟩ := fields_of_torn hroot hcut htorn
    have hne : encodeChars d.lead ++ part ≠ [] := fun h =>
      hpart (List.append_eq_nil_iff.mp h).2
    exact ⟨⟨message, hfields⟩, value_soap_of_error hne hfields⟩
  · intro htorn
    obtain ⟨done, hends, hes, hfields⟩ := fields_of_not_torn hroot hcut hpart hrest htorn
    exact ⟨done, hends, hes, hfields, value_soap hfields⟩

end

theorem isName_body : IsName "Body".toList := by decide

theorem isName_a : IsName ['a'] := by decide

theorem isName_b : IsName ['b'] := by decide

/-- An envelope with two fields. -/
def pairEnvelope : Document :=
  plainEnvelope <| plainElement [] ⟨"Body".toList, isName_body⟩
    (plainElement [] ⟨['a'], isName_a⟩ (.text [.plain '1' (by decide)])
      (plainElement [] ⟨['b'], isName_b⟩ (.text [.plain '2' (by decide)]) (.text []))) (.text [])

theorem print_pairEnvelope :
    ascii "<Envelope><Body><a>1</a>" ++ ascii "<b>2</b></Body></Envelope>"
      = encodeChars pairEnvelope.root.print := by
  decide

theorem bodyEntries_pairEnvelope :
    bodyEntries pairEnvelope.root.toElement.content = [("a", "1"), ("b", "2")] := by
  decide

/-- Its first half has one of them. -/
theorem fields_halfPair : fields (ascii "<Envelope><Body><a>1</a>") = .ok [("a", "1")] := by
  have htokens : tokens (ascii "<Envelope><Body><a>1</a>")
      = [.open (ascii "Envelope"), .open (ascii "Body"), .open (ascii "a"), .text (ascii "1"),
          .close (ascii "a")] := by rfl
  have henvelope : localText (ascii "Envelope") = "Envelope" := localText_ascii (by decide)
  have hbody : localText (ascii "Body") = "Body" := localText_ascii (by decide)
  have ha : localText (ascii "a") = "a" := localText_ascii (by decide)
  have htext : textOf? (ascii "1") = some "1".toList := textOf?_ascii (by decide)
  rw [fields, htokens]
  simp only [fieldsOf, List.foldlM_cons, Reading.step, henvelope, hbody, ha, htext]
  rfl

theorem fields_cut_half :
    ¬ Torn pairEnvelope.root (ascii "<Envelope><Body><a>1</a>") ∧
      ∃ done, pairEnvelope.root.EndsBehind done (ascii "<Envelope><Body><a>1</a>") ∧
        endedEntries pairEnvelope.root done.length <+: [("a", "1"), ("b", "2")] ∧
        fields (ascii "<Envelope><Body><a>1</a>")
          = .ok (Dictionary.ofList (endedEntries pairEnvelope.root done.length)) := by
  have hlead : encodeChars pairEnvelope.lead = [] := by decide
  have hcut := fields_cut (d := pairEnvelope) rfl print_pairEnvelope (by decide) (by decide)
  rw [hlead, List.nil_append, bodyEntries_pairEnvelope] at hcut
  have hwhole : ¬ Torn pairEnvelope.root (ascii "<Envelope><Body><a>1</a>") := by
    intro htorn
    obtain ⟨⟨message, herror⟩, -⟩ := hcut.1 htorn
    rw [fields_halfPair] at herror
    cases herror
  obtain ⟨done, hends, hes, hfields, -⟩ := hcut.2 hwhole
  exact ⟨hwhole, done, hends, hes, hfields⟩

/-- **A response that is cut short can pass for a whole one**: of this envelope with two
fields, one is left, and it is given as the value of the body. -/
theorem value_halfPair :
    ascii "<Envelope><Body><a>1</a>" ++ ascii "<b>2</b></Body></Envelope>"
        = encodeChars pairEnvelope.print ∧
      fields (encodeChars pairEnvelope.print) = .ok [("a", "1"), ("b", "2")] ∧
      fields (ascii "<Envelope><Body><a>1</a>") = .ok [("a", "1")] ∧
      (ResponseBody.soap (ascii "<Envelope><Body><a>1</a>")).value
        = .object [("a", .string "1")] := by
  refine ⟨by decide, ?_, fields_halfPair, value_soap fields_halfPair⟩
  rw [fields_print, treeFields, bodyEntries_pairEnvelope]
  rfl

end Switchboard.Soap
