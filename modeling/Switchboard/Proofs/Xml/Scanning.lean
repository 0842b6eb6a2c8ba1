import Switchboard.Proofs.Xml.Markup

/-!
# Scanning a document

The scanner gives back the tokens of a document from its bytes.

## Main definitions

* `Content.tokens`, `Document.tokens` — the tokens of a document, off its tree.
* `Scans` — a byte string has certain tokens.

## Main results

* `Content.foldlM_children` — **readers that look at nothing but the children of content**.
* `Content.scans` — the tokens of content, whatever follows it.
* `tokens_print` — **the tokens of a document**.
-/

namespace Switchboard.Xml

open Text.Utf8

/-! ### Runs of the scanner -/

/-- A byte string has certain tokens, with any fuel that is enough. -/
def Scans (bs : Bytes) (ts : List Token) : Prop :=
  ∀ fuel, bs.length ≤ fuel → scanFrom fuel bs = ts

theorem Scans.scan {bs : Bytes} {ts : List Token} (h : Scans bs ts) : scan bs = ts :=
  h _ (Nat.le_refl _)

theorem Scans.nil : Scans [] [] := fun fuel _ => by
  cases fuel <;> rfl

theorem Scans.markup {bs rest : Bytes} {t : Token} {ts : List Token} (h : Scans rest ts)
    (hlength : rest.length ≤ bs.length) (ht : Xml.markup bs = some (t, rest)) :
    Scans (0x3C :: bs) (t :: ts) := by
  intro fuel hfuel
  cases fuel with
  | zero => exact absurd hfuel (Nat.not_succ_le_zero _)
  | succ fuel =>
    rw [scanFrom, if_pos rfl, ht]
    show t :: scanFrom fuel rest = _
    rw [h fuel (Nat.le_trans hlength (Nat.le_of_succ_le_succ hfuel))]

/-- Character data goes on up to the next markup. -/
theorem Scans.text {b : UInt8} {bs rest : Bytes} {ts : List Token} (h : Scans rest ts)
    (hbs : ∀ x ∈ b :: bs, x ≠ 0x3C) (hrest : ∀ x ∈ rest.head?, x = 0x3C) :
    Scans (b :: bs ++ rest) (.text (b :: bs) :: ts) := by
  intro fuel hfuel
  cases fuel with
  | zero => exact absurd hfuel (Nat.not_succ_le_zero _)
  | succ fuel =>
    obtain ⟨hb, hbs⟩ := List.forall_mem_cons.mp hbs
    have hin : ∀ x ∈ bs, (fun y : UInt8 => decide (y ≠ 0x3C)) x = true := fun x hx => by
      simpa using hbs x hx
    have hout : ∀ x ∈ rest.head?, (fun y : UInt8 => decide (y ≠ 0x3C)) x = false := fun x hx => by
      simpa using hrest x hx
    have hle : rest.length ≤ fuel := by
      simp only [List.cons_append, List.length_cons, List.length_append] at hfuel
      omega
    rw [List.cons_append, scanFrom, if_neg hb, Text.takeWhile_append_eq hin hout,
      Text.dropWhile_append_eq hin hout, h fuel hle]

/-! ### The tokens of a document -/

/-- The token of character data; there is none if there are no characters. -/
def textTokens (cs : List Char) : List Token :=
  if cs = [] then [] else [.text (encodeChars cs)]

/-- The tokens of content. -/
def Content.tokens : Content → List Token
  | text t => textTokens t.print
  | element t tag inner _ rest =>
    textTokens t.print ++ .open (encodeChars tag.name.chars) ::
      (inner.tokens ++ .close (encodeChars tag.name.chars) :: rest.tokens)
  | empty t tag rest => textTokens t.print ++ .empty (encodeChars tag.name.chars) :: rest.tokens
  | cdata t s rest => textTokens t.print ++ .cdata (encodeChars s.chars) :: rest.tokens
  | aside t _ rest => textTokens t.print ++ .other :: rest.tokens

/-- The tokens of comments and instructions. -/
def Misc.tokens (m : Misc) : List Token := m.flatMap fun p => textTokens p.1.chars ++ [.other]

theorem Misc.tokens_cons (g : Gap) (a : Aside) (m : Misc) :
    Misc.tokens ((g, a) :: m) = textTokens g.chars ++ .other :: Misc.tokens m := by
  rw [Misc.tokens, List.flatMap_cons, List.append_assoc]
  rfl

/-- The tokens of the root. -/
def Root.tokens : Root → List Token
  | element tag inner _ =>
    .open (encodeChars tag.name.chars) ::
      (inner.tokens ++ [.close (encodeChars tag.name.chars)])
  | empty tag => [.empty (encodeChars tag.name.chars)]

/-- The tokens of a document. -/
def Document.tokens (d : Document) : List Token :=
  d.prolog.tokens ++ (textTokens d.before.chars ++ (d.root.tokens
    ++ (d.epilog.tokens ++ textTokens d.after.chars)))

/-! ### Reading content child by child -/

/-- Tokens that stand between the elements of content. -/
inductive Token.IsBetween : Token → Prop where
  /-- Character data. -/
  | text (bs : Bytes) : IsBetween (.text bs)
  /-- A plain section. -/
  | cdata (bs : Bytes) : IsBetween (.cdata bs)
  /-- Other markup. -/
  | other : IsBetween .other

section

variable {σ τ : Type} {m : Type → Type} [Monad m] [LawfulMonad m] {step : σ → Token → m σ}

/-- Tokens between elements do not move a reader that passes over them. -/
theorem foldlM_between {place : τ → σ}
    (h : ∀ x t, t.IsBetween → step (place x) t = pure (place x)) (x : τ) (cs : List Char)
    (ts : List Token) :
    (textTokens cs ++ ts).foldlM step (place x) = ts.foldlM step (place x) := by
  rw [textTokens]
  split
  · rfl
  · rw [List.singleton_append, List.foldlM_cons, h x _ (.text _), pure_bind]

/-- **A reader that looks at nothing but the children of content.**  If what stands
between the children does not move it, and each child takes it from one place to the
next, then content takes it as far as its children do. -/
theorem Content.foldlM_children (step : σ → Token → m σ) (place : τ → σ)
    (child : τ → Element → τ)
    (hbetween : ∀ x t, t.IsBetween → step (place x) t = pure (place x))
    (helement : ∀ x (n : Name) inner ts,
      (.open (encodeChars n.chars) ::
          (inner.tokens ++ .close (encodeChars n.chars) :: ts)).foldlM step (place x)
        = ts.foldlM step (place (child x ⟨n, inner⟩)))
    (hempty : ∀ x (n : Name),
      step (place x) (.empty (encodeChars n.chars)) = pure (place (child x ⟨n, .text []⟩)))
    (c : Content) :
    ∀ x ts, (c.tokens ++ ts).foldlM step (place x)
      = ts.foldlM step (place (c.children.foldl child x)) := by
  induction c with
  | text t => exact fun x ts => foldlM_between hbetween x _ ts
  | element t tag inner gap tail _ ih =>
    intro x ts
    rw [Content.tokens, List.append_assoc, foldlM_between hbetween, List.cons_append,
      List.append_assoc, List.cons_append, helement, ih]
    rfl
  | empty t tag tail ih =>
    intro x ts
    rw [Content.tokens, List.append_assoc, foldlM_between hbetween, List.cons_append,
      List.foldlM_cons, hempty, pure_bind, ih]
    rfl
  | cdata t s tail ih =>
    intro x ts
    rw [Content.tokens, List.append_assoc, foldlM_between hbetween, List.cons_append,
      List.foldlM_cons, hbetween _ _ (.cdata _), pure_bind, ih]
    rfl
  | aside t a tail ih =>
    intro x ts
    rw [Content.tokens, List.append_assoc, foldlM_between hbetween, List.cons_append,
      List.foldlM_cons, hbetween _ _ .other, pure_bind, ih]
    rfl

/-- Nor do comments and instructions around the root. -/
theorem Misc.foldlM_between {place : τ → σ}
    (hbetween : ∀ x t, t.IsBetween → step (place x) t = pure (place x)) (m : Misc) (x : τ)
    (ts : List Token) :
    (m.tokens ++ ts).foldlM step (place x) = ts.foldlM step (place x) := by
  induction m with
  | nil => rfl
  | cons p m ih =>
    obtain ⟨g, a⟩ := p
    rw [Misc.tokens_cons, List.append_assoc, Xml.foldlM_between hbetween, List.cons_append,
      List.foldlM_cons, hbetween _ _ .other, pure_bind, ih]

end

/-! ### Scanning the text of a document -/

theorem Scans.textTokens {cs : List Char} {rest : Bytes} {ts : List Token} (h : Scans rest ts)
    (hcs : '<' ∉ cs) (hrest : ∀ x ∈ rest.head?, x = 0x3C) :
    Scans (encodeChars cs ++ rest) (Xml.textTokens cs ++ ts) := by
  by_cases hnil : cs = []
  · subst hnil
    exact h
  · obtain ⟨b, bs, hbytes⟩ := List.exists_cons_of_ne_nil (mt encodeChars_eq_nil.mp hnil)
    have hbs : ∀ x ∈ b :: bs, x ≠ 0x3C := fun x hx =>
      ne_of_mem_encodeChars (d := '<') (by decide) hcs (by rw [hbytes]; exact hx)
    rw [Xml.textTokens, if_neg hnil, hbytes]
    exact h.text hbs hrest

theorem Piece.notMem_print (p : Piece) : '<' ∉ p.print := by
  have hhexadecimal : ∀ (d : Fin 16) (b : Bool), hexDigit (d, b) ≠ '<' := by decide
  cases p with
  | plain c h => simpa [Piece.print] using Ne.symm h.1
  | named e => cases e <;> decide
  | decimal c ds => simp [Piece.print]
  | hexadecimal c ds =>
    simpa [Piece.print] using fun d => ⟨fun _ => hhexadecimal d false, fun _ => hhexadecimal d true⟩

theorem CharData.notMem_print (t : CharData) : '<' ∉ t.print := by
  intro h
  obtain ⟨p, -, hp⟩ := List.mem_flatMap.mp h
  exact p.notMem_print hp

theorem Tag.scans_open (t : Tag) {rest : Bytes} {ts : List Token} (h : Scans rest ts) :
    Scans (encodeChars t.printOpen ++ rest) (.open (encodeChars t.name.chars) :: ts) := by
  have hbytes : encodeChars t.printOpen ++ rest
      = 0x3C :: (encodeChars t.print ++ 0x3E :: rest) := by
    rw [Tag.printOpen, encodeChars_append, encodeChars_cons, List.append_assoc, List.append_assoc]
    rfl
  rw [hbytes]
  exact h.markup (by simp; omega) (t.markup_open rest)

theorem Tag.scans_empty (t : Tag) {rest : Bytes} {ts : List Token} (h : Scans rest ts) :
    Scans (encodeChars t.printEmpty ++ rest) (.empty (encodeChars t.name.chars) :: ts) := by
  have hbytes : encodeChars t.printEmpty ++ rest
      = 0x3C :: (encodeChars t.print ++ 0x2F :: 0x3E :: rest) := by
    rw [Tag.printEmpty, encodeChars_append, encodeChars_cons, List.append_assoc, List.append_assoc]
    rfl
  rw [hbytes]
  exact h.markup (by simp; omega) (t.markup_empty rest)

theorem scans_close (n : Name) (g : Gap) {rest : Bytes} {ts : List Token} (h : Scans rest ts) :
    Scans (encodeChars (printClose n g) ++ rest) (.close (encodeChars n.chars) :: ts) := by
  have hbytes : encodeChars (printClose n g) ++ rest
      = 0x3C :: (0x2F :: (encodeChars n.chars ++ encodeChars g.chars) ++ 0x3E :: rest) := by
    rw [printClose]
    simp only [encodeChars_append, encodeChars_cons, List.append_assoc, List.cons_append]
    rfl
  rw [hbytes]
  exact h.markup (by simp; omega) (markup_close n g rest)

theorem Section.scans (s : Section) {rest : Bytes} {ts : List Token} (h : Scans rest ts) :
    Scans (encodeChars s.print ++ rest) (.cdata (encodeChars s.chars) :: ts) := by
  have hopen : encodeChars ['<', '!', '[', 'C', 'D', 'A', 'T', 'A', '[']
      = 0x3C :: 0x21 :: ascii "[CDATA[" := by decide
  have hclose : encodeChars [']', ']', '>'] = [0x5D, 0x5D] ++ [0x3E] := by decide
  have hbytes : encodeChars s.print ++ rest = 0x3C :: (0x21 ::
      (ascii "[CDATA[" ++ (encodeChars s.chars ++ [0x5D, 0x5D])) ++ 0x3E :: rest) := by
    rw [Section.print, encodeChars_append, encodeChars_append, hopen, hclose]
    simp only [List.append_assoc, List.cons_append, List.nil_append]
  rw [hbytes]
  exact h.markup (by simp; omega) (s.markup_print rest)

theorem Aside.scans (a : Aside) {rest : Bytes} {ts : List Token} (h : Scans rest ts) :
    Scans (encodeChars a.print ++ rest) (.other :: ts) := by
  cases a with
  | comment cs hcs =>
    have hopen : encodeChars ['<', '!', '-', '-'] = 0x3C :: 0x21 :: [0x2D, 0x2D] := by decide
    have hclose : encodeChars ['-', '-', '>'] = [0x2D, 0x2D] ++ [0x3E] := by decide
    have hbytes : encodeChars (Aside.comment cs hcs).print ++ rest = 0x3C :: (0x21 ::
        ([0x2D, 0x2D] ++ (encodeChars cs ++ [0x2D, 0x2D])) ++ 0x3E :: rest) := by
      rw [Aside.print, encodeChars_append, encodeChars_append, hopen, hclose]
      simp only [List.append_assoc, List.cons_append, List.nil_append]
    rw [hbytes]
    exact h.markup (by simp; omega) (markup_comment hcs rest)
  | instruction target data hdata =>
    have hclose : encodeChars ['?', '>'] = [0x3F] ++ [0x3E] := by decide
    have hbytes : encodeChars (Aside.instruction target data hdata).print ++ rest = 0x3C :: (0x3F ::
        (encodeChars target.chars ++ (encodeChars data ++ [0x3F])) ++ 0x3E :: rest) := by
      rw [Aside.print, encodeChars_append, encodeChars_append, hclose]
      simp only [encodeChars_cons, List.append_assoc, List.cons_append, List.nil_append]
      rfl
    rw [hbytes]
    exact h.markup (by simp; omega) (markup_instruction hdata rest)

/-- What begins with a bracket, as all markup does. -/
theorem head?_encode_lt (cs : List Char) (bs : Bytes) :
    ∀ x ∈ (encodeChars ('<' :: cs) ++ bs).head?, x = 0x3C := by
  intro x hx
  exact (Option.some.inj hx).symm

/-- **The tokens of content, whatever markup follows it.** -/
theorem Content.scans (c : Content) :
    ∀ {rest : Bytes} {ts : List Token}, Scans rest ts → (∀ x ∈ rest.head?, x = 0x3C) →
      Scans (encodeChars c.print ++ rest) (c.tokens ++ ts) := by
  induction c with
  | text t =>
    intro rest ts h hrest
    exact h.textTokens t.notMem_print hrest
  | element t tag inner gap tail ihinner ihtail =>
    intro rest ts h hrest
    rw [Content.print, Content.tokens]
    simp only [encodeChars_append, List.append_assoc, List.cons_append]
    -- from the back: what follows, the end tag, the content, the start tag, the text
    have hclose := scans_close tag.name gap (ihtail h hrest)
    have hopen := tag.scans_open (ihinner hclose (head?_encode_lt _ _))
    exact hopen.textTokens t.notMem_print (head?_encode_lt _ _)
  | empty t tag tail ih =>
    intro rest ts h hrest
    rw [Content.print, Content.tokens]
    simp only [encodeChars_append, List.append_assoc, List.cons_append]
    have hempty := tag.scans_empty (ih h hrest)
    exact hempty.textTokens t.notMem_print (head?_encode_lt _ _)
  | cdata t s tail ih =>
    intro rest ts h hrest
    rw [Content.print, Content.tokens]
    simp only [encodeChars_append, List.append_assoc, List.cons_append]
    have hsection := s.scans (ih h hrest)
    exact hsection.textTokens t.notMem_print (head?_encode_lt _ _)
  | aside t a tail ih =>
    intro rest ts h hrest
    rw [Content.print, Content.tokens]
    simp only [encodeChars_append, List.append_assoc, List.cons_append]
    have haside := a.scans (ih h hrest)
    apply haside.textTokens t.notMem_print
    cases a <;> exact head?_encode_lt _ _

theorem Misc.scans (m : Misc) {rest : Bytes} {ts : List Token} (h : Scans rest ts) :
    Scans (encodeChars m.print ++ rest) (m.tokens ++ ts) := by
  induction m with
  | nil => exact h
  | cons p m ih =>
    obtain ⟨g, a⟩ := p
    rw [Misc.print_cons, Misc.tokens_cons]
    simp only [encodeChars_append, List.append_assoc, List.cons_append]
    apply (a.scans ih).textTokens (g.notMem (by decide))
    cases a <;> exact head?_encode_lt _ _

theorem Root.scans (r : Root) {rest : Bytes} {ts : List Token} (h : Scans rest ts) :
    Scans (encodeChars r.print ++ rest) (r.tokens ++ ts) := by
  cases r with
  | element tag inner gap =>
    rw [Root.print, Root.tokens]
    simp only [encodeChars_append, List.append_assoc, List.cons_append]
    exact tag.scans_open (inner.scans (scans_close tag.name gap h) (head?_encode_lt _ _))
  | empty tag => exact tag.scans_empty h

theorem Document.scans (d : Document) : Scans (encodeChars d.body) d.tokens := by
  have hafter : Scans (encodeChars d.after.chars) (textTokens d.after.chars) := by
    have h := Scans.nil.textTokens (d.after.notMem (d := '<') (by decide)) (by simp)
    rwa [List.append_nil, List.append_nil] at h
  rw [Document.body, Document.tokens]
  simp only [encodeChars_append]
  refine Misc.scans _ (Scans.textTokens ?_ (d.before.notMem (by decide)) ?_)
  · exact d.root.scans (Misc.scans _ hafter)
  · cases d.root <;> exact head?_encode_lt _ _

/-! ### The byte order mark -/

theorem Misc.head?_print (m : Misc) :
    ∀ c ∈ (Misc.print m).head?, c = '<' ∨ isBlankChar c = true := by
  intro c hc
  cases m with
  | nil => cases hc
  | cons p m =>
    obtain ⟨g, a⟩ := p
    rw [Misc.print_cons, List.head?_append, Option.mem_def, Option.or_eq_some_iff] at hc
    rcases hc with hc | ⟨-, hc⟩
    · exact Or.inr (g.isBlank c (List.mem_of_mem_head? hc))
    · cases a <;> exact Or.inl (Option.some.inj hc).symm

/-- A document begins with blanks or with markup. -/
theorem Document.head?_body (d : Document) :
    ∀ c ∈ d.body.head?, c = '<' ∨ isBlankChar c = true := by
  intro c hc
  rw [Document.body, List.head?_append, Option.mem_def, Option.or_eq_some_iff] at hc
  rcases hc with hc | ⟨-, hc⟩
  · exact Misc.head?_print _ c hc
  rw [List.head?_append, Option.or_eq_some_iff] at hc
  rcases hc with hc | ⟨-, hc⟩
  · exact Or.inr (d.before.isBlank c (List.mem_of_mem_head? hc))
  · cases hroot : d.root with
    | element tag inner gap =>
      rw [hroot] at hc
      exact Or.inl (Option.some.inj hc).symm
    | empty tag =>
      rw [hroot] at hc
      exact Or.inl (Option.some.inj hc).symm

theorem afterMark_of_head?_ne {bs : Bytes} (h : ∀ b ∈ bs.head?, b ≠ 0xEF) : afterMark bs = bs := by
  unfold afterMark
  split
  · exact absurd rfl (h _ rfl)
  · rfl

theorem Document.afterMark_print (d : Document) :
    afterMark (encodeChars d.print) = encodeChars d.body := by
  rw [Document.print]
  by_cases hmark : d.mark = true
  · rw [if_pos hmark]
    rfl
  · -- the first byte is that of a bracket or a blank, so it begins no mark
    rw [if_neg hmark]
    refine afterMark_of_head?_ne fun b hb => ?_
    cases hbody : d.body with
    | nil =>
      rw [hbody] at hb
      cases hb
    | cons c cs =>
      have hc := d.head?_body c (by rw [hbody]; rfl)
      obtain ⟨b', hbytes, hne⟩ : ∃ b', String.utf8EncodeChar c = [b'] ∧ b' ≠ 0xEF := by
        rcases hc with rfl | hc
        · exact ⟨_, rfl, by decide⟩
        · obtain ⟨b', hbytes, hspace⟩ := encode_blank hc
          refine ⟨b', hbytes, ?_⟩
          rintro rfl
          exact absurd hspace (by decide)
      rw [hbody, encodeChars_cons, hbytes, List.singleton_append, List.head?_cons,
        Option.mem_some_iff] at hb
      exact hb ▸ hne

/-! ### Nesting -/

theorem matched_textTokens (names : List Bytes) (cs : List Char) (ts : List Token) :
    matched names (textTokens cs ++ ts) = textTokens cs ++ matched names ts := by
  rw [textTokens]
  split <;> rfl

/-- Every end tag in content matches. -/
theorem Content.matched_tokens (c : Content) :
    ∀ (names : List Bytes) (ts : List Token),
      matched names (c.tokens ++ ts) = c.tokens ++ matched names ts := by
  induction c with
  | text t => exact fun names ts => matched_textTokens names _ ts
  | element t tag inner gap tail ihinner ihtail =>
    intro names ts
    rw [Content.tokens]
    simp only [List.append_assoc, List.cons_append, matched_textTokens, matched, ihinner, if_true,
      ihtail]
  | empty t tag tail ih =>
    intro names ts
    rw [Content.tokens]
    simp only [List.append_assoc, List.cons_append, matched_textTokens, matched, ih]
  | cdata t s tail ih =>
    intro names ts
    rw [Content.tokens]
    simp only [List.append_assoc, List.cons_append, matched_textTokens, matched, ih]
  | aside t a tail ih =>
    intro names ts
    rw [Content.tokens]
    simp only [List.append_assoc, List.cons_append, matched_textTokens, matched, ih]

theorem Misc.matched_tokens (m : Misc) (names : List Bytes) (ts : List Token) :
    matched names (m.tokens ++ ts) = m.tokens ++ matched names ts := by
  induction m with
  | nil => rfl
  | cons p m ih =>
    obtain ⟨g, a⟩ := p
    rw [Misc.tokens_cons]
    simp only [List.append_assoc, List.cons_append, matched_textTokens, matched, ih]

theorem Root.matched_tokens (r : Root) (ts : List Token) :
    matched [] (r.tokens ++ ts) = r.tokens ++ matched [] ts := by
  cases r with
  | element tag inner gap =>
    rw [Root.tokens]
    simp only [List.append_assoc, List.cons_append, List.nil_append, matched,
      Content.matched_tokens, if_true]
  | empty tag => rfl

theorem Document.matched_tokens (d : Document) : matched [] d.tokens = d.tokens := by
  have hafter : matched [] (textTokens d.after.chars) = textTokens d.after.chars := by
    have h := matched_textTokens [] d.after.chars []
    rwa [List.append_nil, matched, List.append_nil] at h
  rw [Document.tokens, Misc.matched_tokens, matched_textTokens, Root.matched_tokens,
    Misc.matched_tokens, hafter]

/-- **The tokens of a document are read off its bytes.** -/
theorem tokens_print (d : Document) : tokens (encodeChars d.print) = d.tokens := by
  rw [tokens, d.afterMark_print, d.scans.scan, d.matched_tokens]

end Switchboard.Xml
