import Switchboard.Proofs.Xml.Scanning

/-!
# Documents that are cut short

The root of a document is markup with character data between.  A cut of its bytes falls
into character data, between it and markup, or into markup; of markup that is not
complete the scanner makes no token but the one where reading has to stop.

## Main definitions

* `Markup`, `Span` — markup, and character data with the markup after it.
* `Root.spans` — the spans of a root.
* `Document.lead` — what comes before the root.

## Main results

* `Root.exists_cut` — every cut falls into the character data of a span or into its markup.
* `Markup.scans_cut` — **markup that is cut short is no markup**.
* `tokens_lead` — **the tokens of a document that is cut short in its root**.
-/

namespace Switchboard.Xml

open Text.Utf8

/-! ### Spans -/

/-- A tag or other markup. -/
inductive Markup where
  /-- A start tag. -/
  | open (tag : Tag)
  /-- An end tag. -/
  | close (n : Name) (gap : Gap)
  /-- The tag of an element without content. -/
  | empty (tag : Tag)
  /-- A section of plain character data. -/
  | cdata (s : Section)
  /-- A comment or an instruction. -/
  | aside (a : Aside)

/-- Markup as it is written. -/
def Markup.print : Markup → List Char
  | .open tag => tag.printOpen
  | .close n gap => printClose n gap
  | .empty tag => tag.printEmpty
  | .cdata s => s.print
  | .aside a => a.print

/-- The token of markup. -/
def Markup.token : Markup → Token
  | .open tag => .open (encodeChars tag.name.chars)
  | .close n _ => .close (encodeChars n.chars)
  | .empty tag => .empty (encodeChars tag.name.chars)
  | .cdata s => .cdata (encodeChars s.chars)
  | .aside _ => .other

theorem Markup.scans (m : Markup) {rest : Bytes} {ts : List Token} (h : Scans rest ts) :
    Scans (encodeChars m.print ++ rest) (m.token :: ts) := by
  cases m with
  | «open» tag => exact tag.scans_open h
  | close n gap => exact scans_close n gap h
  | empty tag => exact tag.scans_empty h
  | cdata s => exact s.scans h
  | aside a => exact a.scans h

theorem Markup.exists_print (m : Markup) : ∃ cs, m.print = '<' :: cs := by
  rcases m with _ | _ | _ | _ | (_ | _) <;> exact ⟨_, rfl⟩

theorem Markup.token_ne (m : Markup) : m.token ≠ .broken := by
  cases m <;> nofun

/-- Character data and the markup after it. -/
structure Span where
  /-- The character data. -/
  data : CharData
  /-- The markup. -/
  markup : Markup

/-- Spans as they are written. -/
def printSpans (ss : List Span) : List Char := ss.flatMap fun s => s.data.print ++ s.markup.print

/-- The tokens of spans. -/
def spanTokens (ss : List Span) : List Token :=
  ss.flatMap fun s => textTokens s.data.print ++ [s.markup.token]

/-- The spans of content and the markup after it. -/
def Content.spans : Content → Markup → List Span
  | text t, m => [⟨t, m⟩]
  | element t tag inner gap rest, m =>
    ⟨t, .open tag⟩ :: (inner.spans (.close tag.name gap) ++ rest.spans m)
  | empty t tag rest, m => ⟨t, .empty tag⟩ :: rest.spans m
  | cdata t s rest, m => ⟨t, .cdata s⟩ :: rest.spans m
  | aside t a rest, m => ⟨t, .aside a⟩ :: rest.spans m

/-- The spans of the root. -/
def Root.spans : Root → List Span
  | element tag inner gap => ⟨[], .open tag⟩ :: inner.spans (.close tag.name gap)
  | empty tag => [⟨[], .empty tag⟩]

/-- The number of tags and other markup in content. -/
def Content.marks : Content → ℕ
  | text _ => 0
  | element _ _ inner _ rest => inner.marks + rest.marks + 2
  | empty _ _ rest => rest.marks + 1
  | cdata _ _ rest => rest.marks + 1
  | aside _ _ rest => rest.marks + 1

theorem printSpans_cons (s : Span) (ss : List Span) :
    printSpans (s :: ss) = s.data.print ++ (s.markup.print ++ printSpans ss) := by
  rw [printSpans, List.flatMap_cons, List.append_assoc]
  rfl

theorem printSpans_append (ss ss' : List Span) :
    printSpans (ss ++ ss') = printSpans ss ++ printSpans ss' := List.flatMap_append

theorem spanTokens_cons (s : Span) (ss : List Span) :
    spanTokens (s :: ss) = textTokens s.data.print ++ s.markup.token :: spanTokens ss := by
  rw [spanTokens, List.flatMap_cons, List.append_assoc]
  rfl

theorem spanTokens_append (ss ss' : List Span) :
    spanTokens (ss ++ ss') = spanTokens ss ++ spanTokens ss' := List.flatMap_append

theorem Content.print_spans (c : Content) :
    ∀ m : Markup, printSpans (c.spans m) = c.print ++ m.print := by
  induction c with
  | text t => intro m; simp [spans, printSpans, print]
  | element t tag inner gap rest ihinner ihrest =>
    intro m
    rw [spans, printSpans_cons, printSpans_append, ihinner, ihrest, print]
    simp only [List.append_assoc]
    rfl
  | empty t tag rest ih =>
    intro m
    rw [spans, printSpans_cons, ih, print]
    simp only [List.append_assoc]
    rfl
  | cdata t s rest ih =>
    intro m
    rw [spans, printSpans_cons, ih, print]
    simp only [List.append_assoc]
    rfl
  | aside t a rest ih =>
    intro m
    rw [spans, printSpans_cons, ih, print]
    simp only [List.append_assoc]
    rfl

theorem Content.tokens_spans (c : Content) :
    ∀ m : Markup, spanTokens (c.spans m) = c.tokens ++ [m.token] := by
  induction c with
  | text t => intro m; simp [spans, spanTokens, tokens]
  | element t tag inner gap rest ihinner ihrest =>
    intro m
    rw [spans, spanTokens_cons, spanTokens_append, ihinner, ihrest, tokens]
    simp only [List.append_assoc, List.cons_append, List.nil_append]
    rfl
  | empty t tag rest ih =>
    intro m
    rw [spans, spanTokens_cons, ih, tokens]
    simp only [List.append_assoc, List.cons_append]
    rfl
  | cdata t s rest ih =>
    intro m
    rw [spans, spanTokens_cons, ih, tokens]
    simp only [List.append_assoc, List.cons_append]
    rfl
  | aside t a rest ih =>
    intro m
    rw [spans, spanTokens_cons, ih, tokens]
    simp only [List.append_assoc, List.cons_append]
    rfl

theorem Root.print_spans (r : Root) : printSpans r.spans = r.print := by
  cases r with
  | element tag inner gap =>
    rw [spans, printSpans_cons, Content.print_spans]
    rfl
  | empty tag => simp [spans, printSpans, print, Markup.print, CharData.print]

theorem Root.tokens_spans (r : Root) : spanTokens r.spans = r.tokens := by
  cases r with
  | element tag inner gap =>
    rw [spans, spanTokens_cons, Content.tokens_spans]
    rfl
  | empty tag => rfl

/-! ### Where a cut falls -/

/-- **A cut of joined lists falls into one of them.** -/
theorem exists_cut {α β : Type} (f : α → List β) (xs : List α) :
    ∀ {part rest : List β}, part ++ rest = xs.flatMap f → rest ≠ [] →
      ∃ done x undone front back, xs = done ++ x :: undone ∧
        part = done.flatMap f ++ front ∧ front ++ back = f x ∧ back ≠ [] := by
  induction xs with
  | nil =>
    intro part rest h hrest
    exact absurd (List.append_eq_nil_iff.mp h).2 hrest
  | cons x xs ih =>
    intro part rest h hrest
    rw [List.flatMap_cons] at h
    rcases List.append_eq_append_iff.mp h with ⟨back, hx, hback⟩ | ⟨more, hpart, hmore⟩
    · by_cases hnil : back = []
      · -- the cut is at the end of the first list
        subst hnil
        obtain ⟨done, y, undone, front, back, hxs, hfront, hcut, hne⟩ :=
          ih (show [] ++ rest = _ from hback) hrest
        refine ⟨x :: done, y, undone, front, back, by rw [hxs]; rfl, ?_, hcut, hne⟩
        rw [List.flatMap_cons, List.append_assoc, ← hfront, hx, List.append_nil, List.append_nil]
      · exact ⟨[], x, xs, part, back, rfl, rfl, hx.symm, hnil⟩
    · obtain ⟨done, y, undone, front, back, hxs, hfront, hcut, hne⟩ := ih hmore.symm hrest
      refine ⟨x :: done, y, undone, front, back, by rw [hxs]; rfl, ?_, hcut, hne⟩
      rw [List.flatMap_cons, List.append_assoc, ← hfront, hpart]

/-- A span of the root with the spans before it. -/
def Root.Reaches (r : Root) (done : List Span) (s : Span) : Prop :=
  ∃ undone, r.spans = done ++ s :: undone

/-- A part of the root that leaves some spans whole and ends in the character data behind
them. -/
def Root.EndsBehind (r : Root) (done : List Span) (part : Bytes) : Prop :=
  ∃ s front, r.Reaches done s ∧ front <+: encodeChars s.data.print ∧
    part = encodeChars (printSpans done) ++ front

theorem encodeChars_printSpans (ss : List Span) :
    encodeChars (printSpans ss)
      = ss.flatMap fun s => encodeChars (s.data.print ++ s.markup.print) :=
  List.flatMap_assoc

/-- **A cut of the root falls into the character data of a span or into its markup.** -/
theorem Root.exists_cut {r : Root} {part rest : Bytes}
    (hcut : part ++ rest = encodeChars r.print) (hrest : rest ≠ []) :
    ∃ done s front back, r.Reaches done s ∧
      (part = encodeChars (printSpans done) ++ front ∧
          front ++ back = encodeChars s.data.print ∨
        part = encodeChars (printSpans done ++ s.data.print) ++ front ∧
          front ++ back = encodeChars s.markup.print ∧ front ≠ [] ∧ back ≠ []) := by
  rw [← r.print_spans, encodeChars_printSpans] at hcut
  obtain ⟨done, s, undone, front, back, hspans, hpart, hspan, hback⟩ :=
    Xml.exists_cut _ _ hcut hrest
  rw [← encodeChars_printSpans] at hpart
  rw [encodeChars_append] at hspan
  rcases List.append_eq_append_iff.mp hspan with ⟨more, hdata, hmore⟩ | ⟨more, hfront, hmarkup⟩
  · exact ⟨done, s, front, more, ⟨undone, hspans⟩, .inl ⟨hpart, hdata.symm⟩⟩
  · by_cases hnil : more = []
    · -- between the character data and the markup
      rw [hnil, List.append_nil] at hfront
      exact ⟨done, s, front, [], ⟨undone, hspans⟩, .inl ⟨hpart, by rw [hfront, List.append_nil]⟩⟩
    · refine ⟨done, s, more, back, ⟨undone, hspans⟩, .inr ⟨?_, hmarkup.symm, hnil, hback⟩⟩
      rw [hpart, hfront, encodeChars_append, List.append_assoc]

/-- The root begins with its tag. -/
theorem Root.Reaches.data_eq_nil {r : Root} {s : Span} (h : r.Reaches [] s) : s.data = [] := by
  obtain ⟨undone, h⟩ := h
  cases r with
  | element tag inner gap => exact (List.cons.inj h).1 ▸ rfl
  | empty tag => exact (List.cons.inj h).1 ▸ rfl

/-! ### Markup that is cut short -/

theorem tagBody_append {quote : Option UInt8} {bs body rest : Bytes}
    (h : tagBody quote bs = some (body, rest)) (more : Bytes) :
    tagBody quote (bs ++ more) = some (body, rest ++ more) := by
  induction bs generalizing quote body with
  | nil => cases h
  | cons b bs ih =>
    rw [List.cons_append]
    cases quote with
    | none =>
      rw [tagBody] at h ⊢
      split
      · next hb =>
        rw [if_pos hb] at h
        cases h
        rfl
      · next hb =>
        rw [if_neg hb, Option.map_eq_some_iff] at h
        obtain ⟨⟨body, rest⟩, h, heq⟩ := h
        cases heq
        rw [ih h]
        rfl
    | some q =>
      rw [tagBody, Option.map_eq_some_iff] at h
      obtain ⟨⟨body, rest⟩, h, heq⟩ := h
      cases heq
      rw [tagBody, ih h]
      rfl

theorem upTo_append {ends : Bytes → Bool} {before bs body rest : Bytes}
    (h : upTo ends before bs = some (body, rest)) (more : Bytes) :
    upTo ends before (bs ++ more) = some (body, rest ++ more) := by
  induction bs generalizing before with
  | nil => cases h
  | cons b bs ih =>
    rw [List.cons_append]
    rw [upTo] at h ⊢
    split
    · next hb =>
      rw [if_pos hb] at h
      cases h
      rfl
    · next hb =>
      rw [if_neg hb] at h
      exact ih h

/-- Markup whose end is found is the same whatever follows it. -/
theorem ended_append {ends : Bytes → Bool} (c : Bytes → Prop) [DecidablePred c]
    (f : Bytes → Token) {bs rest : Bytes} {t : Token}
    (h : ((upTo ends [] bs).bind fun r => if c r.1 then some (f r.1, r.2) else none)
      = some (t, rest)) (more : Bytes) :
    ((upTo ends [] (bs ++ more)).bind fun r => if c r.1 then some (f r.1, r.2) else none)
      = some (t, rest ++ more) := by
  obtain ⟨⟨body, rest'⟩, hup, h⟩ := Option.bind_eq_some_iff.mp h
  rw [upTo_append hup, Option.bind_some]
  dsimp only at h ⊢
  split at h
  · next hc =>
    cases h
    exact if_pos hc
  · cases h

theorem bangToken_append {kind : UInt8} {bs rest : Bytes} {t : Token}
    (h : bangToken kind bs = some (t, rest)) (more : Bytes) :
    bangToken kind (bs ++ more) = some (t, rest ++ more) := by
  unfold bangToken at h ⊢
  split
  · next hcomment =>
    rw [if_pos hcomment] at h
    exact ended_append (fun body => body.take 2 = [0x2D, 0x2D]) (fun _ => .other) h more
  next hcomment =>
  rw [if_neg hcomment] at h
  split
  · next hcdata =>
    rw [if_pos hcdata] at h
    exact ended_append (fun body => body.take 7 = ascii "[CDATA[")
      (fun body => .cdata ((body.drop 7).take (body.length - 9))) h more
  next hcdata =>
  rw [if_neg hcdata] at h
  split
  · next hdoctype =>
    rw [if_pos hdoctype] at h
    exact ended_append (fun body => (startsWithWord "DOCTYPE" body &&
      (body.drop 7).any fun b => !isSpace b) = true) (fun _ => .other) h more
  next hdoctype =>
  rw [if_neg hdoctype] at h
  cases h

/-- **Markup is the same whatever follows it.** -/
theorem markup_append {bs rest : Bytes} {t : Token} (h : markup bs = some (t, rest))
    (more : Bytes) : markup (bs ++ more) = some (t, rest ++ more) := by
  -- what ends with a bracket outside quotes
  have htag : ∀ {bs : Bytes} {f : Bytes → Token},
      ((tagBody none bs).map fun r => (f r.1, r.2)) = some (t, rest) →
        ((tagBody none (bs ++ more)).map fun r => (f r.1, r.2)) = some (t, rest ++ more) := by
    intro bs f h
    obtain ⟨⟨body, rest'⟩, hbody, heq⟩ := Option.map_eq_some_iff.mp h
    cases heq
    rw [tagBody_append hbody]
    rfl
  unfold markup at h
  split at h
  · exact bangToken_append h more
  · cases h
  · exact htag (f := fun body => .close (endName body)) h
  · exact ended_append (fun body => 1 < body.length) (fun _ => .other) h more
  · next hbang hone hclose hinstruction =>
    cases bs with
    | nil => cases h
    | cons b bs =>
      have hfirst : ∀ b' ∈ (b :: (bs ++ more)).head?, b' ≠ 0x21 ∧ b' ≠ 0x2F ∧ b' ≠ 0x3F := by
        rintro b' ⟨⟩
        refine ⟨?_, ?_, ?_⟩
        · rintro rfl
          cases bs with
          | nil => exact hone rfl
          | cons kind bs => exact hbang kind bs rfl
        · rintro rfl
          exact hclose bs rfl
        · rintro rfl
          exact hinstruction bs rfl
      rw [List.cons_append, markup_of_tag hfirst]
      exact htag h

/-- Markup that stands alone is read whole. -/
theorem markup_of_scans {body : Bytes} {t : Token} (h : Scans (0x3C :: body) [t])
    (ht : t ≠ .broken) : markup body = some (t, []) := by
  have hscan := h (body.length + 1) (Nat.le_refl _)
  rw [scanFrom, if_pos rfl] at hscan
  split at hscan
  · exact absurd (List.cons.inj hscan).1.symm ht
  · next t' rest hmarkup =>
    obtain ⟨rfl, hrest⟩ := List.cons.inj hscan
    -- nothing follows it, or there would be another token
    cases rest with
    | nil => exact hmarkup
    | cons b rest =>
      exfalso
      cases hlength : body.length with
      | zero =>
        rw [hlength] at hrest
        cases hrest
      | succ fuel =>
        rw [hlength, scanFrom] at hrest
        repeat' split at hrest
        all_goals cases hrest

/-- **Markup that is cut short is no markup.** -/
theorem Markup.scans_cut {m : Markup} {front back : Bytes}
    (hcut : front ++ back = encodeChars m.print) (hfront : front ≠ []) (hback : back ≠ []) :
    Scans front [.broken] := by
  obtain ⟨cs, hprint⟩ := m.exists_print
  obtain ⟨b, front, rfl⟩ := List.exists_cons_of_ne_nil hfront
  have hbytes : b :: (front ++ back) = 0x3C :: encodeChars cs := by
    rw [← List.cons_append, hcut, hprint]
    rfl
  obtain ⟨rfl, hbody⟩ := List.cons.inj hbytes
  -- were it markup, so would it be with the rest, which would then be left over
  have hwhole : markup (front ++ back) = some (m.token, []) := by
    refine markup_of_scans ?_ m.token_ne
    have h := m.scans Scans.nil
    rwa [List.append_nil, ← hcut, List.cons_append] at h
  have hnone : markup front = none := by
    refine Option.eq_none_iff_forall_ne_some.mpr fun ⟨t, rest⟩ hmarkup => ?_
    rw [markup_append hmarkup back, Option.some.injEq, Prod.mk.injEq] at hwhole
    exact hback (List.append_eq_nil_iff.mp hwhole.2).2
  intro fuel hfuel
  cases fuel with
  | zero => exact absurd hfuel (Nat.not_succ_le_zero _)
  | succ fuel => rw [scanFrom, if_pos rfl, hnone]

/-! ### Tokens of a part -/

/-- The token of bytes without markup; there is none if there are no bytes. -/
def dataTokens (bs : Bytes) : List Token := if bs = [] then [] else [.text bs]

theorem scans_data {bs : Bytes} (h : ∀ b ∈ bs, b ≠ 0x3C) : Scans bs (dataTokens bs) := by
  cases bs with
  | nil => exact Scans.nil
  | cons b bs =>
    have hscans := Scans.nil.text h (by simp)
    rwa [List.append_nil] at hscans

theorem scans_spans (ss : List Span) {rest : Bytes} {ts : List Token} (h : Scans rest ts) :
    Scans (encodeChars (printSpans ss) ++ rest) (spanTokens ss ++ ts) := by
  induction ss with
  | nil => exact h
  | cons s ss ih =>
    rw [printSpans_cons, spanTokens_cons]
    simp only [encodeChars_append, List.append_assoc, List.cons_append]
    refine (s.markup.scans ih).textTokens s.data.notMem_print ?_
    obtain ⟨cs, hprint⟩ := s.markup.exists_print
    rw [hprint]
    exact head?_encode_lt _ _

/-- If end tags match, they do so in a part, whatever follows it that has none. -/
theorem matched_of_append {ts vs : List Token} (us : List Token)
    (hvs : ∀ names, matched names vs = vs) :
    ∀ {names : List Bytes}, matched names (ts ++ us) = ts ++ us →
      matched names (ts ++ vs) = ts ++ vs := by
  induction ts with
  | nil => exact fun {names} _ => hvs names
  | cons t ts ih =>
    intro names h
    rw [List.cons_append] at h ⊢
    cases t with
    | «open» n => exact congrArg _ (ih (List.cons.inj h).2)
    | close n =>
      simp only [matched] at h ⊢
      split at h
      · split at h
        · next hn => exact (if_pos hn).trans (congrArg _ (ih (List.cons.inj h).2))
        · cases h
      · cases h
    | _ => exact congrArg _ (ih (List.cons.inj h).2)

theorem Root.matched_cut {r : Root} {done : List Span} {s : Span} (h : r.Reaches done s)
    {ts : List Token} (hts : ∀ names, matched names ts = ts) :
    matched [] (spanTokens done ++ ts) = spanTokens done ++ ts := by
  obtain ⟨undone, h⟩ := h
  refine matched_of_append (spanTokens (s :: undone)) hts ?_
  rw [← spanTokens_append, ← h, r.tokens_spans]
  have hroot := r.matched_tokens []
  rwa [matched, List.append_nil] at hroot

theorem matched_dataTokens (names : List Bytes) (bs : Bytes) :
    matched names (dataTokens bs) = dataTokens bs := by
  rw [dataTokens]
  split <;> rfl

/-! ### What comes before the root -/

/-- What comes before the root, as it is written. -/
def Document.lead (d : Document) : List Char :=
  (if d.mark then ['\uFEFF'] else []) ++ (d.prolog.print ++ d.before.chars)

/-- The tokens of what comes before the root. -/
def Document.leadTokens (d : Document) : List Token :=
  d.prolog.tokens ++ textTokens d.before.chars

/-- What begins with no mark does so cut short. -/
theorem afterMark_of_append {xs : Bytes} (ys : Bytes) (h : afterMark (xs ++ ys) = xs ++ ys) :
    afterMark xs = xs := by
  unfold afterMark
  split
  · next rest =>
    -- the mark would have been taken off
    have hlength := congrArg List.length h
    simp only [List.cons_append, afterMark, List.length_cons, List.length_append] at hlength
    omega
  · rfl

theorem Document.afterMark_cut (d : Document) {part rest : Bytes}
    (hcut : part ++ rest = encodeChars d.root.print) :
    afterMark (encodeChars d.lead ++ part)
      = encodeChars (d.prolog.print ++ d.before.chars) ++ part := by
  have hprint := d.afterMark_print
  rw [print, body] at hprint
  rw [lead]
  split
  · rw [List.singleton_append, encodeChars_cons, List.append_assoc]
    rfl
  · next hmark =>
    rw [if_neg hmark] at hprint
    rw [List.nil_append]
    refine afterMark_of_append (rest ++ encodeChars (d.epilog.print ++ d.after.chars)) ?_
    rw [List.append_assoc, ← List.append_assoc part, hcut, ← encodeChars_append,
      ← encodeChars_append, List.append_assoc]
    exact hprint

/-- **The tokens of a document that is cut short in its root.** -/
theorem Document.tokens_lead (d : Document) {part rest : Bytes} {ts : List Token}
    (hcut : part ++ rest = encodeChars d.root.print) (hscans : Scans part ts)
    (hmatched : matched [] ts = ts) :
    Xml.tokens (encodeChars d.lead ++ part) = d.leadTokens ++ ts := by
  have hhead : ∀ x ∈ part.head?, x = 0x3C := by
    intro x hx
    cases part with
    | nil => cases hx
    | cons b part =>
      have hroot : ∃ cs, d.root.print = '<' :: cs := by cases d.root <;> exact ⟨_, rfl⟩
      obtain ⟨cs, hprint⟩ := hroot
      rw [hprint, List.cons_append] at hcut
      rw [← Option.some.inj hx]
      exact (List.cons.inj hcut).1
  rw [Xml.tokens, d.afterMark_cut hcut, encodeChars_append, List.append_assoc,
    (Misc.scans _ (hscans.textTokens (d.before.notMem (by decide)) hhead)).scan,
    Misc.matched_tokens, matched_textTokens, hmatched, leadTokens, List.append_assoc]

end Switchboard.Xml
