import Mathlib.Data.List.Infix
import Switchboard.Proofs.Text.Utf8

/-!
# What the lossy reader makes of any bytes

The scanner is written byte by byte.  The rule behind it speaks of characters alone: a
character that is written in full is read as that, and where none stands, the longest part
that begins one, or else a single byte, is taken for one replacement character.

## Main definitions

* `Starts` — bytes that begin what is written for a character.
* `Broken` — a part that is taken for a replacement character.
* `ReadsLossily` — the rule.

## Main results

* `eq_append_of_scan` — what is scanned is what is written for the character.
* `exists_broken_of_scan` — where no character is scanned, a broken part is.
* `readsLossily_iff` — **the rule leaves one reading of any bytes, and that is the lossy
  reader's.**
-/

namespace Switchboard.Text.Utf8

/-! ### The character that some bytes stand for -/

theorem toNat_charOfNat_of_valid {n : ℕ} (h : n < 0xD800 ∨ 0xDFFF < n ∧ n < 0x110000) :
    (Char.ofNat n).toNat = n := by
  have hvalid : n.isValidChar := h
  rw [Char.ofNat, dif_pos hvalid]
  rfl

theorem eq_ofNat {b : UInt8} {n : ℕ} (h : b.toNat = n) : b = UInt8.ofNat n := by
  rw [← h, UInt8.ofNat_toNat]

theorem encode_charOfNat_two {b c : UInt8} (h : 0xC2 ≤ b.toNat) (h' : b.toNat ≤ 0xDF)
    (hc : isTail c = true) :
    String.utf8EncodeChar (Char.ofNat (b.toNat % 32 * 64 + payload c)) = [b, c] := by
  rw [isTail_iff] at hc
  have hn := toNat_charOfNat_of_valid (n := b.toNat % 32 * 64 + payload c)
    (Or.inl (by simp only [payload]; omega))
  rw [encode_two (by rw [hn, payload]; omega) (by rw [hn, payload]; omega), hn, payload]
  rw [← eq_ofNat (b := b) (by omega), ← eq_ofNat (b := c) (by omega)]

theorem encode_charOfNat_three {b c d : UInt8} (h : 0xE0 ≤ b.toNat) (h' : b.toNat ≤ 0xEF)
    (hc : isSecond b c = true) (hd : isTail d = true) :
    String.utf8EncodeChar
      (Char.ofNat (b.toNat % 16 * 4096 + payload c * 64 + payload d)) = [b, c, d] := by
  rw [isSecond_iff] at hc
  rw [isTail_iff] at hd
  have hn := toNat_charOfNat_of_valid (n := b.toNat % 16 * 4096 + payload c * 64 + payload d)
    (by simp only [payload]; omega)
  rw [encode_three (by rw [hn, payload, payload]; omega) (by rw [hn, payload, payload]; omega),
    hn, payload, payload]
  rw [← eq_ofNat (b := b) (by omega), ← eq_ofNat (b := c) (by omega),
    ← eq_ofNat (b := d) (by omega)]

theorem encode_charOfNat_four {b c d e : UInt8} (h : 0xF0 ≤ b.toNat) (h' : b.toNat ≤ 0xF4)
    (hc : isSecond b c = true) (hd : isTail d = true) (he : isTail e = true) :
    String.utf8EncodeChar (Char.ofNat (b.toNat % 8 * 262144 + payload c * 4096 + payload d * 64
      + payload e)) = [b, c, d, e] := by
  rw [isSecond_iff] at hc
  rw [isTail_iff] at hd he
  have hn := toNat_charOfNat_of_valid
    (n := b.toNat % 8 * 262144 + payload c * 4096 + payload d * 64 + payload e)
    (by simp only [payload]; omega)
  rw [encode_four (by rw [hn]; simp only [payload]; omega), hn]
  simp only [payload]
  rw [← eq_ofNat (b := b) (by omega), ← eq_ofNat (b := c) (by omega),
    ← eq_ofNat (b := d) (by omega), ← eq_ofNat (b := e) (by omega)]

theorem eq_append_of_scanThree {b : UInt8} {bs rest : Bytes} {ch : Char}
    (hlow : 0xE0 ≤ b.toNat) (hhigh : b.toNat ≤ 0xEF) (h : scanThree b bs = (some ch, rest)) :
    b :: bs = String.utf8EncodeChar ch ++ rest := by
  unfold scanThree at h
  split at h
  · split at h
    · next hc =>
      split at h
      · next hd =>
        cases h
        rw [encode_charOfNat_three hlow hhigh hc hd]
        rfl
      · cases h
    · cases h
  · split at h <;> cases h
  · cases h

theorem eq_append_of_scanFour {b : UInt8} {bs rest : Bytes} {ch : Char}
    (hlow : 0xF0 ≤ b.toNat) (hhigh : b.toNat ≤ 0xF4) (h : scanFour b bs = (some ch, rest)) :
    b :: bs = String.utf8EncodeChar ch ++ rest := by
  unfold scanFour at h
  split at h
  · split at h
    · next hc =>
      split at h
      · next hd =>
        split at h
        · next he =>
          cases h
          rw [encode_charOfNat_four hlow hhigh hc hd he]
          rfl
        · cases h
      · cases h
    · cases h
  · split at h
    · split at h <;> cases h
    · cases h
  · split at h <;> cases h
  · cases h

/-- What is scanned is what is written for the character. -/
theorem eq_append_of_scan {b : UInt8} {bs rest : Bytes} {ch : Char}
    (h : scan b bs = (some ch, rest)) : b :: bs = String.utf8EncodeChar ch ++ rest := by
  unfold scan at h
  simp only [UInt8.lt_iff_toNat_lt, UInt8.le_iff_toNat_le, Bool.and_eq_true,
    decide_eq_true_eq] at h
  split at h
  · next hone =>
    have hlt : b.toNat < 0x80 := hone
    cases h
    have hn := toNat_charOfNat_of_valid (n := b.toNat) (Or.inl (by omega))
    rw [encode_one (by omega), hn, UInt8.ofNat_toNat]
    rfl
  split at h
  · next htwo =>
    split at h
    · split at h
      · next hc =>
        cases h
        rw [encode_charOfNat_two htwo.1 htwo.2 hc]
        rfl
      · cases h
    · cases h
  split at h
  · next hthree => exact eq_append_of_scanThree hthree.1 hthree.2 h
  split at h
  · next hfour => exact eq_append_of_scanFour hfour.1 hfour.2 h
  · cases h

/-! ### The beginning of a character -/

/-- The bytes begin what is written for a character. -/
def Starts (bs : Bytes) : Prop := ∃ c, bs <+: String.utf8EncodeChar c

theorem Starts.of_prefix {bs bs' : Bytes} (h : Starts bs') (hpre : bs <+: bs') : Starts bs :=
  h.imp fun _ hc => hpre.trans hc

theorem second_of_starts {b c : UInt8} (h : Starts [b, c]) :
    0xC2 ≤ b.toNat ∧ b.toNat ≤ 0xF4 ∧ isSecond b c = true := by
  obtain ⟨ch, hch⟩ := h
  have hvalid := toNat_valid ch
  rw [isSecond_iff]
  rcases encode_cases ch with hn | ⟨hn, hn'⟩ | ⟨hn, hn'⟩ | hn
  · rw [encode_one hn] at hch
    exact absurd hch.length_le (by simp)
  · rw [encode_two hn hn', List.cons_prefix_cons, List.cons_prefix_cons] at hch
    obtain ⟨rfl, rfl, -⟩ := hch
    rw [toNat_ofNat (by omega), toNat_ofNat (by omega)]
    omega
  · rw [encode_three hn hn', List.cons_prefix_cons, List.cons_prefix_cons] at hch
    obtain ⟨rfl, rfl, -⟩ := hch
    rw [toNat_ofNat (by omega), toNat_ofNat (by omega)]
    omega
  · rw [encode_four hn, List.cons_prefix_cons, List.cons_prefix_cons] at hch
    obtain ⟨rfl, rfl, -⟩ := hch
    rw [toNat_ofNat (by omega), toNat_ofNat (by omega)]
    omega

theorem isTail_of_mem_tail {ch : Char} {d : UInt8}
    (h : d ∈ (String.utf8EncodeChar ch).tail) : isTail d = true := by
  rcases encode_cases ch with hn | ⟨hn, hn'⟩ | ⟨hn, hn'⟩ | hn
  · rw [encode_one hn] at h
    cases h
  · rw [encode_two hn hn'] at h
    simp only [List.tail_cons, List.mem_cons, List.not_mem_nil, or_false] at h
    rcases h with rfl
    exact isTail_ofNat _
  · rw [encode_three hn hn'] at h
    simp only [List.tail_cons, List.mem_cons, List.not_mem_nil, or_false] at h
    rcases h with rfl | rfl <;> exact isTail_ofNat _
  · rw [encode_four hn] at h
    simp only [List.tail_cons, List.mem_cons, List.not_mem_nil, or_false] at h
    rcases h with rfl | rfl | rfl <;> exact isTail_ofNat _

/-- All bytes of a character but the first have the form of continuation bytes. -/
theorem isTail_of_starts {b d : UInt8} {bs : Bytes} (h : Starts (b :: bs)) (hd : d ∈ bs) :
    isTail d = true := by
  obtain ⟨ch, rest, hch⟩ := h
  have hmem : d ∈ (String.utf8EncodeChar ch).tail := by
    rw [← hch]
    exact List.mem_append_left _ hd
  exact isTail_of_mem_tail hmem

theorem starts_second {b c : UInt8} (h : 0xE0 ≤ b.toNat) (h' : b.toNat ≤ 0xF4)
    (hc : isSecond b c = true) : Starts [b, c] := by
  have htail : isTail 0x80 = true := rfl
  by_cases hthree : b.toNat ≤ 0xEF
  · exact ⟨_, [0x80], (encode_charOfNat_three h hthree hc htail).symm⟩
  · exact ⟨_, [0x80, 0x80], (encode_charOfNat_four (by omega) h' hc htail htail).symm⟩

theorem starts_third {b c d : UInt8} (h : 0xF0 ≤ b.toNat) (h' : b.toNat ≤ 0xF4)
    (hc : isSecond b c = true) (hd : isTail d = true) : Starts [b, c, d] := by
  have htail : isTail 0x80 = true := rfl
  exact ⟨_, [0x80], (encode_charOfNat_four h h' hc hd htail).symm⟩

/-! ### Broken parts -/

/-- A part at the front of some bytes that takes the place of a character, with what follows
it: the longest that begins one, or a single byte. -/
structure Broken (part rest : Bytes) : Prop where
  /-- No character stands there in full. -/
  whole : ∀ c, ¬ String.utf8EncodeChar c <+: part ++ rest
  /-- It begins a character, or is a single byte. -/
  starts : part ≠ [] ∧ Starts part ∨ ∃ b, part = [b]
  /-- With the byte that follows it begins none. -/
  longest : ∀ b ∈ rest.head?, ¬ Starts (part ++ [b])

theorem Broken.ne_nil {part rest : Bytes} (h : Broken part rest) : part ≠ [] := by
  rcases h.starts with ⟨hne, -⟩ | ⟨b, rfl⟩
  · exact hne
  · exact List.cons_ne_nil b []

/-- No other broken part at the same place is longer. -/
theorem Broken.length_le {part rest part' rest' : Bytes} (h : Broken part rest)
    (h' : Broken part' rest') (heq : part ++ rest = part' ++ rest') :
    part'.length ≤ part.length := by
  by_contra hlt
  obtain ⟨more, rfl, hrest⟩ : ∃ more, part' = part ++ more ∧ rest = more ++ rest' := by
    rcases List.append_eq_append_iff.mp heq with ⟨more, hpart', hrest⟩ | ⟨more, hpart, -⟩
    · exact ⟨more, hpart', hrest⟩
    · rw [hpart, List.length_append] at hlt
      omega
  cases more with
  | nil => simp at hlt
  | cons b more =>
    -- the longer part would begin a character together with the byte after the shorter one
    refine h.longest b (by rw [hrest]; rfl) ?_
    rcases h'.starts with ⟨-, hstarts⟩ | ⟨x, hx⟩
    · exact hstarts.of_prefix ⟨more, by simp⟩
    · have hlength := congrArg List.length hx
      have hpos := List.length_pos_of_ne_nil h.ne_nil
      simp only [List.length_append, List.length_cons, List.length_nil] at hlength
      omega

theorem Broken.rest_unique {part rest part' rest' : Bytes} (h : Broken part rest)
    (h' : Broken part' rest') (heq : part ++ rest = part' ++ rest') : rest = rest' :=
  (List.append_inj heq (le_antisymm (h'.length_le h heq.symm) (h.length_le h' heq))).2

section

variable {b c d : UInt8} {rest : Bytes}

/-- A single byte, as none begins with it or the next one cannot follow it. -/
theorem Broken.one (hwhole : ∀ ch, ¬ String.utf8EncodeChar ch <+: b :: rest)
    (hnext : ∀ c ∈ rest.head?, 0xC2 ≤ b.toNat → b.toNat ≤ 0xF4 → isSecond b c ≠ true) :
    Broken [b] rest where
  whole := hwhole
  starts := Or.inr ⟨b, rfl⟩
  longest := fun c hc hstarts => by
    obtain ⟨hlow, hhigh, hsecond⟩ := second_of_starts hstarts
    exact hnext c hc hlow hhigh hsecond

/-- The first two bytes of a longer character. -/
theorem Broken.two (hwhole : ∀ ch, ¬ String.utf8EncodeChar ch <+: b :: c :: rest)
    (hlow : 0xE0 ≤ b.toNat) (hhigh : b.toNat ≤ 0xF4) (hc : isSecond b c = true)
    (hnext : ∀ d ∈ rest.head?, isTail d ≠ true) : Broken [b, c] rest where
  whole := hwhole
  starts := Or.inl ⟨List.cons_ne_nil _ _, starts_second hlow hhigh hc⟩
  longest := fun d hd hstarts => hnext d hd (isTail_of_starts hstarts (by simp))

/-- The first three bytes of a character of four. -/
theorem Broken.three (hwhole : ∀ ch, ¬ String.utf8EncodeChar ch <+: b :: c :: d :: rest)
    (hlow : 0xF0 ≤ b.toNat) (hhigh : b.toNat ≤ 0xF4) (hc : isSecond b c = true)
    (hd : isTail d = true) (hnext : ∀ e ∈ rest.head?, isTail e ≠ true) :
    Broken [b, c, d] rest where
  whole := hwhole
  starts := Or.inl ⟨List.cons_ne_nil _ _, starts_third hlow hhigh hc hd⟩
  longest := fun e he hstarts => hnext e he (isTail_of_starts hstarts (by simp))

end

theorem not_isPrefix_of_scan {b : UInt8} {bs : Bytes} (h : (scan b bs).1 = none) (c : Char) :
    ¬ String.utf8EncodeChar c <+: b :: bs := by
  rintro ⟨rest, hrest⟩
  obtain ⟨b', bs', hbytes, hscan⟩ := scan_encode c rest
  rw [hrest] at hbytes
  cases hbytes
  rw [hscan] at h
  cases h

theorem exists_broken_of_scanThree {b : UInt8} {bs rest : Bytes}
    (hlow : 0xE0 ≤ b.toNat) (hhigh : b.toNat ≤ 0xEF)
    (hwhole : ∀ ch, ¬ String.utf8EncodeChar ch <+: b :: bs)
    (h : scanThree b bs = (none, rest)) :
    ∃ part, b :: bs = part ++ rest ∧ Broken part rest := by
  unfold scanThree at h
  split at h
  · split at h
    · next hc =>
      split at h
      · cases h
      · next hd =>
        cases h
        exact ⟨[b, _], rfl, .two hwhole hlow (by omega) hc (by simpa using hd)⟩
    · next hc =>
      cases h
      exact ⟨[b], rfl, .one hwhole (by simpa using fun _ _ => hc)⟩
  · split at h
    · next hc =>
      cases h
      exact ⟨[b, _], rfl, .two hwhole hlow (by omega) hc (by simp)⟩
    · next hc =>
      cases h
      exact ⟨[b], rfl, .one hwhole (by simpa using fun _ _ => hc)⟩
  · cases h
    exact ⟨[b], rfl, .one hwhole (by simp)⟩

theorem exists_broken_of_scanFour {b : UInt8} {bs rest : Bytes}
    (hlow : 0xF0 ≤ b.toNat) (hhigh : b.toNat ≤ 0xF4)
    (hwhole : ∀ ch, ¬ String.utf8EncodeChar ch <+: b :: bs)
    (h : scanFour b bs = (none, rest)) :
    ∃ part, b :: bs = part ++ rest ∧ Broken part rest := by
  unfold scanFour at h
  split at h
  · split at h
    · next hc =>
      split at h
      · next hd =>
        split at h
        · cases h
        · next he =>
          cases h
          exact ⟨[b, _, _], rfl, .three hwhole hlow hhigh hc hd (by simpa using he)⟩
      · next hd =>
        cases h
        exact ⟨[b, _], rfl, .two hwhole (by omega) hhigh hc (by simpa using hd)⟩
    · next hc =>
      cases h
      exact ⟨[b], rfl, .one hwhole (by simpa using fun _ _ => hc)⟩
  · split at h
    · next hc =>
      split at h
      · next hd =>
        cases h
        exact ⟨[b, _, _], rfl, .three hwhole hlow hhigh hc hd (by simp)⟩
      · next hd =>
        cases h
        exact ⟨[b, _], rfl, .two hwhole (by omega) hhigh hc (by simpa using hd)⟩
    · next hc =>
      cases h
      exact ⟨[b], rfl, .one hwhole (by simpa using fun _ _ => hc)⟩
  · split at h
    · next hc =>
      cases h
      exact ⟨[b, _], rfl, .two hwhole (by omega) hhigh hc (by simp)⟩
    · next hc =>
      cases h
      exact ⟨[b], rfl, .one hwhole (by simpa using fun _ _ => hc)⟩
  · cases h
    exact ⟨[b], rfl, .one hwhole (by simp)⟩

/-- What the scanner takes where no character stands is a broken part. -/
theorem exists_broken_of_scan {b : UInt8} {bs rest : Bytes} (h : scan b bs = (none, rest)) :
    ∃ part, b :: bs = part ++ rest ∧ Broken part rest := by
  have hwhole := not_isPrefix_of_scan (congrArg Prod.fst h)
  unfold scan at h
  simp only [UInt8.lt_iff_toNat_lt, UInt8.le_iff_toNat_le, Bool.and_eq_true,
    decide_eq_true_eq] at h
  split at h
  · cases h
  split at h
  · -- the first byte of two
    split at h
    · split at h
      · cases h
      · next hc =>
        cases h
        refine ⟨[b], rfl, .one hwhole ?_⟩
        simp only [List.head?_cons, Option.mem_some_iff, forall_eq']
        intro _ _ hsecond
        have hrange := isSecond_iff.mp hsecond
        exact hc (isTail_iff.mpr ⟨hrange.1, hrange.2.1⟩)
    · cases h
      exact ⟨[b], rfl, .one hwhole (by simp)⟩
  split at h
  · next hthree => exact exists_broken_of_scanThree hthree.1 hthree.2 hwhole h
  split at h
  · next hfour => exact exists_broken_of_scanFour hfour.1 hfour.2 hwhole h
  · -- a byte that begins no character
    next hone htwo hthree hfour =>
    cases h
    refine ⟨[b], rfl, .one hwhole fun c _ hlow hhigh => ?_⟩
    simp at hone htwo hthree hfour
    omega

/-! ### The rule -/

/-- The characters are those of the bytes by the rule for broken ones: what is written for a
character is read as that, and each broken part as one replacement character. -/
inductive ReadsLossily : Bytes → List Char → Prop where
  /-- Nothing is left. -/
  | nil : ReadsLossily [] []
  /-- A character stands in front. -/
  | char {rest : Bytes} {cs : List Char} (c : Char) (h : ReadsLossily rest cs) :
      ReadsLossily (String.utf8EncodeChar c ++ rest) (c :: cs)
  /-- A broken part does. -/
  | broken {part rest : Bytes} {cs : List Char} (hpart : Broken part rest)
      (h : ReadsLossily rest cs) : ReadsLossily (part ++ rest) (replacement :: cs)

theorem readsLossily_decodeCharsLossy (bs : Bytes) : ReadsLossily bs (decodeCharsLossy bs) := by
  fun_induction decodeCharsLossy bs with
  | case1 => exact .nil
  | case2 b bs _ ih =>
    rcases hscan : scan b bs with ⟨_ | c, rest⟩
    · rw [hscan] at ih
      obtain ⟨part, hbytes, hpart⟩ := exists_broken_of_scan hscan
      rw [hbytes]
      exact .broken hpart ih
    · rw [hscan] at ih
      rw [eq_append_of_scan hscan]
      exact .char c ih

/-- The reader takes a broken part for one replacement character. -/
theorem decodeCharsLossy_of_broken {part rest : Bytes} (h : Broken part rest) :
    decodeCharsLossy (part ++ rest) = replacement :: decodeCharsLossy rest := by
  obtain ⟨b, bs, hpart⟩ := List.exists_cons_of_ne_nil h.ne_nil
  have hwhole := h.whole
  rw [hpart, List.cons_append] at hwhole ⊢
  rw [decodeCharsLossy]
  rcases hscan : scan b (bs ++ rest) with ⟨_ | c, rest'⟩
  · obtain ⟨part', hbytes, hpart'⟩ := exists_broken_of_scan hscan
    rw [← List.cons_append, ← hpart] at hbytes
    rw [h.rest_unique hpart' hbytes]
    rfl
  · exact absurd ⟨rest', (eq_append_of_scan hscan).symm⟩ (hwhole c)

/-- **What the lossy reader makes of any bytes**: the rule leaves one reading, and that is it. -/
theorem readsLossily_iff {bs : Bytes} {cs : List Char} :
    ReadsLossily bs cs ↔ decodeCharsLossy bs = cs := by
  constructor
  · intro h
    induction h with
    | nil => rw [decodeCharsLossy]
    | @char rest cs c h ih =>
      obtain ⟨b, bs, hbytes, hscan⟩ := scan_encode c rest
      rw [hbytes, decodeCharsLossy, hscan, ih]
      rfl
    | broken hpart h ih => rw [decodeCharsLossy_of_broken hpart, ih]
  · rintro rfl
    exact readsLossily_decodeCharsLossy bs

end Switchboard.Text.Utf8
