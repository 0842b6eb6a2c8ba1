import Switchboard.Proofs.Text.Runs
import Switchboard.Proofs.Text.Utf8
import Switchboard.Proofs.Xml.Grammar

/-!
# Where markup ends

The scanner finds the end of every tag, section, comment and instruction that a
document may have, and takes from each what it says.

## Main definitions

* `Inside` — bytes that a tag goes on after.

## Main results

* `Tag.markup_open`, `Tag.markup_empty`, `markup_close` — **the three kinds of
  tags**.
* `Section.markup_print`, `markup_comment`, `markup_instruction` — **other markup**.
-/

namespace Switchboard.Xml

open Text.Utf8

/-! ### Bytes of characters -/

theorem ne_of_mem_encodeChars {cs : List Char} {d : Char} (hd : d.toNat < 0x80) (h : d ∉ cs)
    {b : UInt8} (hb : b ∈ encodeChars cs) : b ≠ UInt8.ofNat d.toNat := by
  rintro rfl
  exact h (mem_of_mem_encodeChars hd hb)

theorem encodeChars_eq_nil {cs : List Char} : encodeChars cs = [] ↔ cs = [] := by
  constructor
  · intro h
    cases cs with
    | nil => rfl
    | cons c cs =>
      obtain ⟨b, bs, hbytes, -⟩ := scan_encode c (encodeChars cs)
      rw [encodeChars_cons, hbytes] at h
      cases h
  · rintro rfl
    rfl

/-- The last byte is that of an ASCII character only if the last character is that
one. -/
theorem getLast?_encodeChars_ne {cs : List Char} {d : Char} (hd : d.toNat < 0x80)
    (h : ∀ c ∈ cs.getLast?, c ≠ d) :
    ∀ b ∈ (encodeChars cs).getLast?, b ≠ UInt8.ofNat d.toNat := by
  rcases List.eq_nil_or_concat cs with rfl | ⟨ds, c, rfl⟩
  · simp
  · rintro b hb rfl
    obtain ⟨b', bs, hbytes, -⟩ := scan_encode c []
    rw [List.append_nil] at hbytes
    rw [List.concat_eq_append, encodeChars_append, encodeChars_cons, encodeChars_nil,
      List.append_nil, hbytes, List.getLast?_append, List.getLast?_cons, Option.some_or,
      ← List.getLast?_cons, ← hbytes] at hb
    exact h c (by simp) (eq_of_mem_encode hd (List.mem_of_getLast? hb))

/-! ### The front of a list -/

section

variable {α : Type} {xs ys : List α}

/-- A word that ends with a letter that does not stand in what follows is not made
longer by it. -/
theorem infix_of_infix_append_right {w : List α} {a : α} (ha : a ∉ ys)
    (h : w ++ [a] <:+: xs ++ ys) : w ++ [a] <:+: xs := by
  have hlast : ∀ l m : List α, l ≠ [] → w ++ [a] = m ++ l → ¬ l <+: ys := by
    intro l m hl hlm hpre
    rcases List.eq_nil_or_concat l with rfl | ⟨l, b, rfl⟩
    · exact hl rfl
    · rw [List.concat_eq_append, ← List.append_assoc] at hlm
      obtain ⟨-, hb⟩ := List.append_inj' hlm rfl
      rw [List.concat_eq_append] at hpre
      refine ha (hpre.mem ?_)
      rw [(List.cons.inj hb).1]
      exact List.mem_append_right _ List.mem_cons_self
  rw [List.infix_append_iff_ne_nil] at h
  rcases h with h | h | ⟨l, m, -, hm, hlm, -, hpre⟩
  · exact h
  · exact absurd (h.mem (List.mem_append_right _ List.mem_cons_self)) ha
  · exact absurd hpre (hlast m l hm hlm)

/-- A word that begins with a letter that does not stand in what comes before is
not begun by it. -/
theorem infix_of_infix_append_left {w : List α} {a : α} (ha : a ∉ xs)
    (h : a :: w <:+: xs ++ ys) : a :: w <:+: ys := by
  rw [List.infix_append_iff_ne_nil] at h
  rcases h with h | h | ⟨l, m, hl, -, hlm, hsuf, -⟩
  · exact absurd (h.mem List.mem_cons_self) ha
  · exact h
  · obtain ⟨b, l, rfl⟩ := List.exists_cons_of_ne_nil hl
    rw [List.cons_append, List.cons.injEq] at hlm
    exact absurd (hsuf.mem (hlm.1 ▸ List.mem_cons_self)) ha

end

/-! ### Where a tag ends -/

/-- Bytes that a tag goes on after, whatever comes next: no quote is left open in
them, and no bracket stands outside quotes. -/
def Inside (bs : Bytes) : Prop :=
  ∀ rest, tagBody none (bs ++ rest) = (tagBody none rest).map fun r => (bs ++ r.1, r.2)

theorem Inside.nil : Inside [] := fun rest => by simp

theorem Inside.append {as bs : Bytes} (ha : Inside as) (hb : Inside bs) : Inside (as ++ bs) := by
  intro rest
  rw [List.append_assoc, ha, hb, Option.map_map]
  refine congrArg (Option.map · _) (funext fun r => ?_)
  rw [Function.comp_apply, List.append_assoc]

theorem Inside.cons {b : UInt8} {bs : Bytes} (hb : Inside bs)
    (h : b ≠ 0x3E ∧ b ≠ 0x27 ∧ b ≠ 0x22) : Inside (b :: bs) := by
  intro rest
  rw [List.cons_append, tagBody, if_neg h.1, if_neg (by simp [h.2.1, h.2.2]), hb, Option.map_map]
  rfl

theorem inside_of_plain {bs : Bytes} (h : ∀ b ∈ bs, b ≠ 0x3E ∧ b ≠ 0x27 ∧ b ≠ 0x22) :
    Inside bs := by
  induction bs with
  | nil => exact Inside.nil
  | cons b bs ih =>
    obtain ⟨hb, hbs⟩ := List.forall_mem_cons.mp h
    exact (ih hbs).cons hb

theorem tagBody_quoted {q : UInt8} {vs : Bytes} (h : q ∉ vs) (rest : Bytes) :
    tagBody (some q) (vs ++ q :: rest)
      = (tagBody none rest).map fun r => (vs ++ q :: r.1, r.2) := by
  induction vs with
  | nil => rw [List.nil_append, tagBody, if_pos rfl]; rfl
  | cons v vs ih =>
    obtain ⟨hv, hvs⟩ := not_or.mp (mt List.mem_cons.mpr h)
    rw [List.cons_append, tagBody, if_neg (Ne.symm hv), ih hvs, Option.map_map]
    rfl

theorem inside_quoted {q : UInt8} {vs : Bytes} (hq : q = 0x22 ∨ q = 0x27) (h : q ∉ vs) :
    Inside (q :: vs ++ [q]) := by
  intro rest
  have hne : q ≠ 0x3E := by
    rintro rfl
    exact absurd hq (by decide)
  have hopen : (if q = 0x27 || q = 0x22 then some q else none) = some q :=
    if_pos (by rcases hq with rfl | rfl <;> decide)
  rw [List.append_assoc, List.cons_append, List.singleton_append, tagBody, if_neg hne, hopen,
    tagBody_quoted h, Option.map_map]
  refine congrArg (Option.map · _) (funext fun r => ?_)
  simp

/-- A tag ends at the bracket after what is inside it. -/
theorem Inside.tagBody {bs : Bytes} (h : Inside bs) (rest : Bytes) :
    Xml.tagBody none (bs ++ 0x3E :: rest) = some (bs, rest) := by
  rw [h, Xml.tagBody, if_pos rfl]
  simp

/-! ### The parts of a tag -/

/-- The characters that a tag cannot hold outside quotes. -/
theorem inside_encodeChars {cs : List Char} (hclose : '>' ∉ cs) (hapos : '\'' ∉ cs)
    (hquot : '"' ∉ cs) : Inside (encodeChars cs) :=
  inside_of_plain fun _ hb => ⟨ne_of_mem_encodeChars (d := '>') (by decide) hclose hb,
    ne_of_mem_encodeChars (d := '\'') (by decide) hapos hb,
    ne_of_mem_encodeChars (d := '"') (by decide) hquot hb⟩

theorem Name.encode_ne_nil (n : Name) : encodeChars n.chars ≠ [] := by
  obtain ⟨c, cs, hn, -⟩ := n.exists_cons
  rw [ne_eq, encodeChars_eq_nil, hn]
  exact List.cons_ne_nil _ _

theorem Name.inside (n : Name) : Inside (encodeChars n.chars) :=
  inside_encodeChars (n.notMem (by decide)) (n.notMem (by decide)) (n.notMem (by decide))

theorem Gap.notMem (g : Gap) {d : Char} (hd : isBlankChar d = false) : d ∉ g.chars := by
  intro hmem
  rw [g.isBlank d hmem] at hd
  cases hd

theorem Gap.inside (g : Gap) : Inside (encodeChars g.chars) :=
  inside_encodeChars (g.notMem (by decide)) (g.notMem (by decide)) (g.notMem (by decide))

theorem Attribute.inside (a : Attribute) : Inside (encodeChars a.print) := by
  have hequals : Inside (encodeChars ['=']) :=
    inside_encodeChars (by decide) (by decide) (by decide)
  have hquoted : Inside (encodeChars (a.quote :: a.value ++ [a.quote])) := by
    obtain ⟨hd, hq⟩ : a.quote.toNat < 0x80 ∧
        (UInt8.ofNat a.quote.toNat = 0x22 ∨ UInt8.ofNat a.quote.toNat = 0x27) := by
      rcases a.isQuote with h | h <;> rw [h] <;> decide
    rw [encodeChars_append, encodeChars_cons, encodeChars_cons, encodeChars_nil, List.append_nil,
      encode_one hd]
    exact inside_quoted hq fun hmem => a.notMem (mem_of_mem_encodeChars hd hmem)
  have hprint : a.print = a.before.chars ++ (a.name.chars ++ (a.left.chars ++ (['='] ++
      (a.right.chars ++ (a.quote :: a.value ++ [a.quote]))))) := by
    simp [Attribute.print]
  rw [hprint]
  simp only [encodeChars_append] at hquoted ⊢
  exact a.before.inside.append (a.name.inside.append (a.left.inside.append
    (hequals.append (a.right.inside.append hquoted))))

/-- **A tag ends where its text does.** -/
theorem Tag.inside (t : Tag) : Inside (encodeChars t.print) := by
  -- a bracket in the value of an attribute stands between its quotes
  have hattributes : Inside (encodeChars (t.attributes.flatMap Attribute.print)) := by
    induction t.attributes with
    | nil => exact Inside.nil
    | cons a as ih =>
      rw [List.flatMap_cons, encodeChars_append]
      exact a.inside.append ih
  rw [Tag.print, encodeChars_append, encodeChars_append]
  exact (t.name.inside.append hattributes).append t.after.inside

/-! ### What a tag says -/

/-- After the name of a tag there are blanks, or nothing. -/
theorem Tag.head?_after_name (t : Tag) :
    ∀ c ∈ (t.attributes.flatMap Attribute.print ++ t.after.chars).head?, isBlankChar c = true := by
  intro c hc
  cases hattributes : t.attributes with
  | nil =>
    rw [hattributes, List.flatMap_nil, List.nil_append] at hc
    exact t.after.isBlank c (List.mem_of_mem_head? hc)
  | cons a as =>
    obtain ⟨d, ds, hbefore⟩ := List.exists_cons_of_ne_nil a.before_ne
    rw [hattributes, List.flatMap_cons, Attribute.print, hbefore] at hc
    simp only [List.cons_append, List.head?_cons, Option.mem_some_iff] at hc
    exact a.before.isBlank c (by rw [hbefore, hc]; exact List.mem_cons_self)

/-- The last character of a tag is not the slash that ends an empty one. -/
theorem Tag.getLast?_print (t : Tag) : ∀ c ∈ t.print.getLast?, c ≠ '/' := by
  rintro c hc rfl
  rw [Tag.print, List.getLast?_append, List.getLast?_append, Option.mem_def, Option.or_eq_some_iff,
    Option.or_eq_some_iff] at hc
  rcases hc with h | ⟨-, h | ⟨-, h⟩⟩
  · exact t.after.notMem (by decide) (List.mem_of_getLast? h)
  · -- an attribute ends with its quote
    rw [List.getLast?_flatMap] at h
    obtain ⟨a, -, ha⟩ := List.exists_of_findSome?_eq_some h
    rw [Attribute.print, List.getLast?_append, List.getLast?_singleton, Option.some_or,
      Option.some.injEq] at ha
    have hquote := a.isQuote
    rw [ha] at hquote
    exact absurd hquote (by decide)
  · exact t.name.notMem (by decide) (List.mem_of_getLast? h)

/-- The bytes of blanks are those that separate the parts of a tag. -/
theorem encode_blank {c : Char} (h : isBlankChar c = true) :
    ∃ b, String.utf8EncodeChar c = [b] ∧ isSpace b = true := by
  simp only [isBlankChar, Bool.or_eq_true, decide_eq_true_eq] at h
  rcases h with ((rfl | rfl) | rfl) | rfl <;> exact ⟨_, rfl, by decide⟩

theorem Gap.isSpace (g : Gap) : ∀ b ∈ encodeChars g.chars, isSpace b = true := by
  intro b hb
  obtain ⟨c, hc, hb⟩ := List.mem_flatMap.mp hb
  obtain ⟨b', hbytes, hspace⟩ := encode_blank (g.isBlank c hc)
  rw [hbytes, List.mem_singleton] at hb
  rw [hb]
  exact hspace

theorem Name.isSpace (n : Name) : ∀ b ∈ encodeChars n.chars, isSpace b = false := by
  intro b hb
  have hne : ∀ d : Char, d.toNat < 0x80 → Xml.isNameChar d = false → b ≠ UInt8.ofNat d.toNat :=
    fun d hd hname => ne_of_mem_encodeChars hd (n.notMem hname) hb
  simp only [Xml.isSpace, Bool.or_eq_false_iff, decide_eq_false_iff_not]
  exact ⟨⟨⟨hne ' ' (by decide) (by decide), hne '\t' (by decide) (by decide)⟩,
    hne '\n' (by decide) (by decide)⟩, hne '\r' (by decide) (by decide)⟩

theorem head?_encodeChars_isSpace {cs : List Char} (h : ∀ c ∈ cs.head?, isBlankChar c = true) :
    ∀ b ∈ (encodeChars cs).head?, isSpace b = true := by
  cases cs with
  | nil => simp
  | cons c cs =>
    obtain ⟨b', hbytes, hspace⟩ := encode_blank (h c rfl)
    rintro b hb
    rw [encodeChars_cons, hbytes, List.singleton_append, List.head?_cons, Option.mem_some_iff] at hb
    exact hb ▸ hspace

theorem Tag.tagName_print (t : Tag) : tagName (encodeChars t.print) = encodeChars t.name.chars := by
  rw [Tag.print, List.append_assoc, encodeChars_append, tagName]
  refine Text.takeWhile_append_eq (fun b hb => ?_) fun b hb => ?_
  · rw [t.name.isSpace b hb]
    rfl
  · rw [head?_encodeChars_isSpace t.head?_after_name b hb]
    rfl

theorem Tag.tagToken_print (t : Tag) :
    tagToken (encodeChars t.print) = .open (encodeChars t.name.chars) := by
  have hlast := getLast?_encodeChars_ne (d := '/') (by decide) t.getLast?_print
  rw [← List.head?_reverse] at hlast
  unfold tagToken
  split
  · next front h =>
    rw [h] at hlast
    exact absurd rfl (hlast 0x2F rfl)
  · rw [t.tagName_print]

theorem Tag.tagToken_printEmpty (t : Tag) :
    tagToken (encodeChars t.print ++ [0x2F]) = .empty (encodeChars t.name.chars) := by
  unfold tagToken
  rw [List.reverse_append, List.reverse_singleton, List.singleton_append]
  show Token.empty (tagName (encodeChars t.print).reverse.reverse) = _
  rw [List.reverse_reverse, t.tagName_print]

theorem trimEnd_name (n : Name) (g : Gap) :
    trimEnd (encodeChars n.chars ++ encodeChars g.chars) = encodeChars n.chars := by
  rw [trimEnd, List.reverse_append, Text.dropWhile_append_eq, List.reverse_reverse]
  · exact fun b hb => g.isSpace b (List.mem_reverse.mp hb)
  · exact fun b hb => n.isSpace b (List.mem_reverse.mp (List.mem_of_mem_head? hb))

theorem endName_name (n : Name) (g : Gap) :
    endName (encodeChars n.chars ++ encodeChars g.chars) = encodeChars n.chars := by
  rw [endName, trimEnd_name, if_neg n.encode_ne_nil]

/-- Bytes are cut at an ASCII character where the characters are. -/
theorem dropWhile_encodeChars {d : Char} (hd : d.toNat < 0x80) (cs : List Char) :
    (encodeChars cs).dropWhile (· ≠ UInt8.ofNat d.toNat)
      = encodeChars (cs.dropWhile (· ≠ d)) := by
  induction cs with
  | nil => rfl
  | cons c cs ih =>
    by_cases hc : c = d
    · rw [List.dropWhile_cons_of_neg (by simpa using hc), encodeChars_cons, hc, encode_one hd,
        List.singleton_append, List.dropWhile_cons_of_neg (by simp)]
    · have hne : ∀ b ∈ String.utf8EncodeChar c,
          (fun x : UInt8 => decide (x ≠ UInt8.ofNat d.toNat)) b = true := fun b hb => by
        rw [decide_eq_true_iff]
        rintro rfl
        exact hc (eq_of_mem_encode hd hb)
      rw [List.dropWhile_cons_of_pos (by simpa using hc), encodeChars_cons,
        List.dropWhile_append_of_pos hne, ih]

theorem localName_encode (n : Name) :
    localName (encodeChars n.chars) = encodeChars (localChars n.chars) := by
  have hcut : (encodeChars n.chars).dropWhile (· ≠ 0x3A)
      = encodeChars (n.chars.dropWhile (· ≠ ':')) :=
    dropWhile_encodeChars (d := ':') (by decide) n.chars
  rw [localName, localChars, hcut]
  cases h : n.chars.dropWhile (· ≠ ':') with
  | nil => rfl
  | cons c cs =>
    have hc : c = ':' := by
      have hhead := List.head?_dropWhile_not (· ≠ ':') n.chars
      rw [h] at hhead
      simpa using hhead
    rw [hc]
    rfl

/-- The local part of a name is read off its bytes. -/
theorem localText_encode (n : Name) : localText (encodeChars n.chars) = n.localName := by
  rw [localText, localName_encode, decodeLossy, decodeCharsLossy_encodeChars, Name.localName]

/-! ### Markup at the front -/

/-- What begins neither an end tag nor other markup is a tag. -/
theorem markup_of_tag {bs : Bytes} (h : ∀ b ∈ bs.head?, b ≠ 0x21 ∧ b ≠ 0x2F ∧ b ≠ 0x3F) :
    markup bs = (tagBody none bs).map fun r => (tagToken r.1, r.2) := by
  unfold markup
  split
  · exact absurd rfl (h _ rfl).1
  · exact absurd rfl (h _ rfl).1
  · exact absurd rfl (h _ rfl).2.1
  · exact absurd rfl (h _ rfl).2.2
  · rfl

theorem Tag.head?_encode (t : Tag) (rest : Bytes) :
    ∀ b ∈ (encodeChars t.print ++ rest).head?, b ≠ 0x21 ∧ b ≠ 0x2F ∧ b ≠ 0x3F := by
  intro b hb
  have hmem : b ∈ encodeChars t.name.chars := by
    obtain ⟨c, cs, hn, -⟩ := t.name.exists_cons
    obtain ⟨b', bs, hbytes, -⟩ := scan_encode c []
    rw [List.append_nil] at hbytes
    rw [Tag.print, hn] at hb
    simp only [List.cons_append, encodeChars_cons, hbytes, List.head?_cons,
      Option.mem_some_iff] at hb
    rw [hn, encodeChars_cons, hbytes, hb]
    exact List.mem_cons_self
  exact ⟨ne_of_mem_encodeChars (d := '!') (by decide) (t.name.notMem (by decide)) hmem,
    ne_of_mem_encodeChars (d := '/') (by decide) (t.name.notMem (by decide)) hmem,
    ne_of_mem_encodeChars (d := '?') (by decide) (t.name.notMem (by decide)) hmem⟩

theorem Tag.markup_open (t : Tag) (rest : Bytes) :
    markup (encodeChars t.print ++ 0x3E :: rest)
      = some (.open (encodeChars t.name.chars), rest) := by
  rw [markup_of_tag (t.head?_encode _), t.inside.tagBody, Option.map_some, t.tagToken_print]

theorem Tag.markup_empty (t : Tag) (rest : Bytes) :
    markup (encodeChars t.print ++ 0x2F :: 0x3E :: rest)
      = some (.empty (encodeChars t.name.chars), rest) := by
  have hinside : Inside (encodeChars t.print ++ [0x2F]) :=
    t.inside.append (Inside.nil.cons (by decide))
  rw [markup_of_tag (t.head?_encode _), List.append_cons, hinside.tagBody, Option.map_some,
    t.tagToken_printEmpty]

theorem markup_close (n : Name) (g : Gap) (rest : Bytes) :
    markup (0x2F :: (encodeChars n.chars ++ encodeChars g.chars) ++ 0x3E :: rest)
      = some (.close (encodeChars n.chars), rest) := by
  show (tagBody none (encodeChars n.chars ++ encodeChars g.chars ++ 0x3E :: rest)).map
    (fun r => (Token.close (endName r.1), r.2)) = _
  rw [(n.inside.append g.inside).tagBody, Option.map_some, endName_name]

/-! ### Markup that ends with a word -/

/-- The first accepted bracket is the one after `xs`, if none in `xs` is accepted. -/
theorem upTo_eq {ends : Bytes → Bool} {xs : Bytes} (rest : Bytes) :
    ∀ {before : Bytes}, ends (xs.reverse ++ before) = true →
      (∀ ys zs, xs = ys ++ 0x3E :: zs → ends (ys.reverse ++ before) = false) →
      upTo ends before (xs ++ 0x3E :: rest) = some (before.reverse ++ xs, rest) := by
  induction xs with
  | nil =>
    intro before hend _
    rw [List.reverse_nil, List.nil_append] at hend
    rw [List.nil_append, upTo, hend, List.append_nil]
    rfl
  | cons x xs ih =>
    intro before hend hearlier
    have hx : (x = 0x3E && ends before) = false := by
      by_cases h : x = 0x3E
      · have hfirst := hearlier [] xs (by rw [h]; rfl)
        simpa using fun _ => hfirst
      · simp [h]
    rw [List.cons_append, upTo, hx, if_neg Bool.false_ne_true, ih]
    · rw [List.reverse_cons, List.append_assoc, List.singleton_append]
    · rw [List.reverse_cons, List.append_assoc, List.singleton_append] at hend
      exact hend
    · intro ys zs hxs
      have h := hearlier (x :: ys) zs (by rw [hxs, List.cons_append])
      rw [List.reverse_cons, List.append_assoc, List.singleton_append] at h
      exact h

/-- Where a bracket is accepted after the word `w` only, and that only from the `k`th
byte on, it is found after the first such word. -/
theorem upTo_word {ends : Bytes → Bool} {w xs : Bytes} (k : ℕ) (rest : Bytes)
    (hends : ∀ before, ends before = true → ∃ front, w.reverse ++ front = before ∧ k ≤ front.length)
    (hxs : ends xs.reverse = true) (hfirst : ¬ w ++ [0x3E] <:+: xs.drop k) :
    upTo ends [] (xs ++ 0x3E :: rest) = some (xs, rest) := by
  refine upTo_eq rest (by rw [List.append_nil]; exact hxs) fun ys zs hsplit => ?_
  rw [List.append_nil, Bool.eq_false_iff]
  intro h
  -- the word stands before that bracket, so it would end sooner
  obtain ⟨front, hfront, hk⟩ := hends _ h
  have hys : ys = front.reverse ++ w := by
    rw [← List.reverse_reverse ys, ← hfront, List.reverse_append, List.reverse_reverse]
  refine hfirst ⟨front.reverse.drop k, zs, ?_⟩
  rw [hsplit, hys, List.append_assoc front.reverse,
    List.drop_append_of_le_length (by simpa using hk)]
  simp only [List.append_assoc, List.cons_append, List.nil_append]

theorem endsCdata_iff {before : Bytes} (h : endsCdata before = true) :
    ∃ front, [0x5D, 0x5D] ++ front = before ∧ 0 ≤ front.length := by
  unfold endsCdata at h
  split at h
  · exact ⟨_, rfl, Nat.zero_le _⟩
  · cases h

theorem endsInstruction_iff {before : Bytes} (h : endsInstruction before = true) :
    ∃ front, [0x3F] ++ front = before ∧ 0 ≤ front.length := by
  unfold endsInstruction at h
  split at h
  · exact ⟨_, rfl, Nat.zero_le _⟩
  · cases h

theorem endsComment_iff {before : Bytes} (h : endsComment before = true) :
    ∃ front, [0x2D, 0x2D] ++ front = before ∧ 2 ≤ front.length := by
  unfold endsComment at h
  split at h
  · exact ⟨_, rfl, by simpa using h⟩
  · cases h

theorem Section.markup_print (s : Section) (rest : Bytes) :
    markup (0x21 :: (ascii "[CDATA[" ++ (encodeChars s.chars ++ [0x5D, 0x5D])) ++ 0x3E :: rest)
      = some (.cdata (encodeChars s.chars), rest) := by
  have hfirst : ¬ [0x5D, 0x5D] ++ [0x3E] <:+:
      ascii "[CDATA[" ++ (encodeChars s.chars ++ [0x5D, 0x5D]) := by
    intro h
    have hafter : [0x5D, 0x5D] ++ [0x3E] <:+: encodeChars s.chars ++ [0x5D, 0x5D] :=
      infix_of_infix_append_left (by decide) h
    have hinner : [0x5D, 0x5D] ++ [0x3E] <:+: encodeChars s.chars :=
      infix_of_infix_append_right (by decide) hafter
    exact s.ends (isInfix_of_encode (w := [']', ']', '>']) (by simp) hinner)
  have hend : endsCdata (ascii "[CDATA[" ++ (encodeChars s.chars ++ [0x5D, 0x5D])).reverse
      = true := by
    simp [endsCdata]
  show bangToken 0x5B (ascii "[CDATA[" ++ (encodeChars s.chars ++ [0x5D, 0x5D]) ++ 0x3E :: rest) = _
  rw [bangToken, if_neg (by decide), if_pos rfl,
    upTo_word 0 rest (fun _ => endsCdata_iff) hend hfirst]
  have htake : (ascii "[CDATA[" ++ (encodeChars s.chars ++ [0x5D, 0x5D])).take 7
      = ascii "[CDATA[" := List.take_left' rfl
  have hdrop : (ascii "[CDATA[" ++ (encodeChars s.chars ++ [0x5D, 0x5D])).drop 7
      = encodeChars s.chars ++ [0x5D, 0x5D] := List.drop_left' rfl
  have hlength : (ascii "[CDATA[" ++ (encodeChars s.chars ++ [0x5D, 0x5D])).length - 9
      = (encodeChars s.chars).length := by
    rw [List.length_append, List.length_append, show (ascii "[CDATA[").length = 7 from rfl,
      List.length_cons, List.length_singleton]
    omega
  simp only [bind, Option.bind, htake, hdrop, hlength, if_true, List.take_left]

/-- The bytes that a comment is made of, after its first bracket and mark. -/
theorem markup_comment {cs : List Char} (h : ¬ ['-', '-'] <:+: cs) (rest : Bytes) :
    markup (0x21 :: ([0x2D, 0x2D] ++ (encodeChars cs ++ [0x2D, 0x2D])) ++ 0x3E :: rest)
      = some (.other, rest) := by
  have hfirst : ¬ [0x2D, 0x2D] ++ [0x3E] <:+:
      ([0x2D, 0x2D] ++ (encodeChars cs ++ [0x2D, 0x2D])).drop 2 := by
    intro h'
    have hinner : [0x2D, 0x2D] ++ [0x3E] <:+: encodeChars cs :=
      infix_of_infix_append_right (by decide) h'
    have hhyphens : [0x2D, 0x2D] <:+: encodeChars cs := (List.infix_append' [] _ _).trans hinner
    exact h (isInfix_of_encode (w := ['-', '-']) (by simp) hhyphens)
  have hend : endsComment ([0x2D, 0x2D] ++ (encodeChars cs ++ [0x2D, 0x2D])).reverse = true := by
    simp [endsComment]
  show bangToken 0x2D ([0x2D, 0x2D] ++ (encodeChars cs ++ [0x2D, 0x2D]) ++ 0x3E :: rest) = _
  rw [bangToken, if_pos rfl, upTo_word 2 rest (fun _ => endsComment_iff) hend hfirst]
  rfl

theorem markup_instruction {target : Name} {data : List Char} (h : ¬ ['?', '>'] <:+: data)
    (rest : Bytes) :
    markup (0x3F :: (encodeChars target.chars ++ (encodeChars data ++ [0x3F])) ++ 0x3E :: rest)
      = some (.other, rest) := by
  have hfirst : ¬ [0x3F] ++ [0x3E] <:+:
      [0x3F] ++ (encodeChars target.chars ++ (encodeChars data ++ [0x3F])) := by
    intro h'
    have hclose : 0x3E ∉ encodeChars target.chars := fun hmem =>
      ne_of_mem_encodeChars (d := '>') (by decide) (target.notMem (by decide)) hmem rfl
    have hmark : 0x3F ∉ encodeChars target.chars := fun hmem =>
      ne_of_mem_encodeChars (d := '?') (by decide) (target.notMem (by decide)) hmem rfl
    have hsplit : [0x3F, 0x3E] <:+: 0x3F :: (encodeChars target.chars
        ++ (encodeChars data ++ [0x3F])) := h'
    rcases List.infix_cons_iff.mp hsplit with hfront | hlater
    · -- the first mark is followed by the target
      obtain ⟨b, bs, hbytes⟩ := List.exists_cons_of_ne_nil target.encode_ne_nil
      rw [List.cons_prefix_cons, hbytes, List.cons_append, List.cons_prefix_cons] at hfront
      exact hclose (by rw [hbytes, hfront.2.1]; exact List.mem_cons_self)
    · have hafter : [0x3F] ++ [0x3E] <:+: encodeChars data ++ [0x3F] :=
        infix_of_infix_append_left hmark hlater
      have hinner : [0x3F] ++ [0x3E] <:+: encodeChars data :=
        infix_of_infix_append_right (by decide) hafter
      exact h (isInfix_of_encode (w := ['?', '>']) (by simp) hinner)
  have hend : endsInstruction
      ([0x3F] ++ (encodeChars target.chars ++ (encodeChars data ++ [0x3F]))).reverse = true := by
    simp [endsInstruction]
  show (upTo endsInstruction [] ([0x3F] ++ (encodeChars target.chars
    ++ (encodeChars data ++ [0x3F])) ++ 0x3E :: rest)).bind _ = _
  rw [upTo_word 0 rest (fun _ => endsInstruction_iff) hend hfirst]
  simp

end Switchboard.Xml
