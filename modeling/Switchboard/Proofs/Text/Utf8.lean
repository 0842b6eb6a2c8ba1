import Mathlib.Data.Nat.Notation
import Switchboard.Text.Utf8

/-!
# UTF-8 reads back what it writes

What a reader makes of written characters, and where a word of ASCII characters
can stand in them.

## Main results

* `scan_encode` — the scanner takes exactly the bytes of one character.
* `decodeChars?_encodeChars`, `decodeCharsLossy_encodeChars` — **both readers give
  back the characters that were written**.
* `isPrefix_of_decodeChars?` — written characters that are cut short can be read only if
  the cut is between two of them.
* `isInfix_of_encode` — a word of ASCII characters stands among the written bytes only
  where it stands among the characters.
* `eq_encodeChars_of_decodeCharsLossy` — a word of ASCII characters is read off its own
  bytes alone.
-/

namespace Switchboard.Text.Utf8

/-! ### The bytes of one character -/

/-- The numbers of characters: the surrogates are left out. -/
theorem toNat_valid (c : Char) :
    c.toNat < 0xD800 ∨ (0xDFFF < c.toNat ∧ c.toNat < 0x110000) := c.valid

theorem encode_one {c : Char} (h : c.toNat < 0x80) :
    String.utf8EncodeChar c = [UInt8.ofNat c.toNat] := by
  have h1 : c.val.toNat ≤ 0x7F := Nat.le_of_lt_succ h
  rw [String.utf8EncodeChar, if_pos h1]
  rfl

theorem encode_two {c : Char} (h : 0x80 ≤ c.toNat) (h' : c.toNat < 0x800) :
    String.utf8EncodeChar c =
      [UInt8.ofNat (c.toNat / 64 % 32 + 0xC0), UInt8.ofNat (c.toNat % 64 + 0x80)] := by
  have h1 : ¬ c.val.toNat ≤ 0x7F := Nat.not_le_of_lt h
  have h2 : c.val.toNat ≤ 0x7FF := Nat.le_of_lt_succ h'
  rw [String.utf8EncodeChar, if_neg h1, if_pos h2]
  rfl

theorem encode_three {c : Char} (h : 0x800 ≤ c.toNat) (h' : c.toNat < 0x10000) :
    String.utf8EncodeChar c =
      [UInt8.ofNat (c.toNat / 4096 % 16 + 0xE0), UInt8.ofNat (c.toNat / 64 % 64 + 0x80),
        UInt8.ofNat (c.toNat % 64 + 0x80)] := by
  have h1 : ¬ c.val.toNat ≤ 0x7F := fun hle => absurd (Nat.le_trans h hle) (by decide)
  have h2 : ¬ c.val.toNat ≤ 0x7FF := Nat.not_le_of_lt h
  have h3 : c.val.toNat ≤ 0xFFFF := Nat.le_of_lt_succ h'
  rw [String.utf8EncodeChar, if_neg h1, if_neg h2, if_pos h3]
  rfl

theorem encode_four {c : Char} (h : 0x10000 ≤ c.toNat) :
    String.utf8EncodeChar c =
      [UInt8.ofNat (c.toNat / 262144 % 8 + 0xF0), UInt8.ofNat (c.toNat / 4096 % 64 + 0x80),
        UInt8.ofNat (c.toNat / 64 % 64 + 0x80), UInt8.ofNat (c.toNat % 64 + 0x80)] := by
  have h1 : ¬ c.val.toNat ≤ 0x7F := fun hle => absurd (Nat.le_trans h hle) (by decide)
  have h2 : ¬ c.val.toNat ≤ 0x7FF := fun hle => absurd (Nat.le_trans h hle) (by decide)
  have h3 : ¬ c.val.toNat ≤ 0xFFFF := Nat.not_le_of_lt h
  rw [String.utf8EncodeChar, if_neg h1, if_neg h2, if_neg h3]
  rfl

/-- A character is written as one, two, three or four bytes. -/
theorem encode_cases (c : Char) :
    c.toNat < 0x80 ∨ (0x80 ≤ c.toNat ∧ c.toNat < 0x800) ∨
      (0x800 ≤ c.toNat ∧ c.toNat < 0x10000) ∨ 0x10000 ≤ c.toNat := by
  omega

/-! ### Scanning them -/

theorem toNat_ofNat {n : ℕ} (h : n < 256) : (UInt8.ofNat n).toNat = n :=
  UInt8.toNat_ofNat_of_lt h

theorem isTail_iff {b : UInt8} : isTail b = true ↔ 0x80 ≤ b.toNat ∧ b.toNat ≤ 0xBF := by
  simp [isTail, UInt8.le_iff_toNat_le]

theorem isTail_ofNat (n : ℕ) : isTail (UInt8.ofNat (n % 64 + 0x80)) = true := by
  rw [isTail_iff, toNat_ofNat (by omega)]
  omega

theorem payload_ofNat (n : ℕ) : payload (UInt8.ofNat (n % 64 + 0x80)) = n % 64 := by
  rw [payload, toNat_ofNat (by omega)]
  omega

/-- The second bytes that a first byte allows. -/
theorem isSecond_iff {b c : UInt8} :
    isSecond b c = true ↔ 0x80 ≤ c.toNat ∧ c.toNat ≤ 0xBF ∧
      (b.toNat = 0xE0 → 0xA0 ≤ c.toNat) ∧ (b.toNat = 0xED → c.toNat ≤ 0x9F) ∧
      (b.toNat = 0xF0 → 0x90 ≤ c.toNat) ∧ (b.toNat = 0xF4 → c.toNat ≤ 0x8F) := by
  simp only [isSecond, secondRange, Bool.and_eq_true, decide_eq_true_eq,
    UInt8.le_iff_toNat_le, ← UInt8.toNat_inj]
  split
  · next h => simp [h]; omega
  split
  · next h => simp [h]; omega
  split
  · next h => simp [h]; omega
  split
  · next h => simp [h]; omega
  · next h1 h2 h3 h4 => simp_all

/-! The first byte decides between the four forms. -/

theorem scan_of_ascii {b : UInt8} (h : b.toNat < 0x80) (bs : Bytes) :
    scan b bs = (some (Char.ofNat b.toNat), bs) := by
  unfold scan
  exact if_pos (UInt8.lt_iff_toNat_lt.mpr h)

theorem scan_of_two {b c : UInt8} (h : 0xC2 ≤ b.toNat) (h' : b.toNat ≤ 0xDF)
    (hc : isTail c = true) (rest : Bytes) :
    scan b (c :: rest) = (some (Char.ofNat (b.toNat % 32 * 64 + payload c)), rest) := by
  have h1 : ¬ b < 0x80 := fun hlt => absurd (UInt8.lt_iff_toNat_lt.mp hlt) (by simp; omega)
  have h2 : (0xC2 ≤ b && b ≤ 0xDF) = true := by
    simp only [UInt8.le_iff_toNat_le, Bool.and_eq_true, decide_eq_true_eq]
    exact ⟨h, h'⟩
  unfold scan
  rw [if_neg h1, if_pos h2]
  exact if_pos hc

theorem scan_of_three {b : UInt8} (h : 0xE0 ≤ b.toNat) (h' : b.toNat ≤ 0xEF) (bs : Bytes) :
    scan b bs = scanThree b bs := by
  have h1 : ¬ b < 0x80 := fun hlt => absurd (UInt8.lt_iff_toNat_lt.mp hlt) (by simp; omega)
  have h2 : ¬ (0xC2 ≤ b && b ≤ 0xDF) = true := by
    simp only [UInt8.le_iff_toNat_le, Bool.and_eq_true, decide_eq_true_eq]
    exact fun hle => absurd hle.2 (by simp; omega)
  have h3 : (0xE0 ≤ b && b ≤ 0xEF) = true := by
    simp only [UInt8.le_iff_toNat_le, Bool.and_eq_true, decide_eq_true_eq]
    exact ⟨h, h'⟩
  unfold scan
  rw [if_neg h1, if_neg h2, if_pos h3]

theorem scan_of_four {b : UInt8} (h : 0xF0 ≤ b.toNat) (h' : b.toNat ≤ 0xF4) (bs : Bytes) :
    scan b bs = scanFour b bs := by
  have h1 : ¬ b < 0x80 := fun hlt => absurd (UInt8.lt_iff_toNat_lt.mp hlt) (by simp; omega)
  have h2 : ¬ (0xC2 ≤ b && b ≤ 0xDF) = true := by
    simp only [UInt8.le_iff_toNat_le, Bool.and_eq_true, decide_eq_true_eq]
    exact fun hle => absurd hle.2 (by simp; omega)
  have h3 : ¬ (0xE0 ≤ b && b ≤ 0xEF) = true := by
    simp only [UInt8.le_iff_toNat_le, Bool.and_eq_true, decide_eq_true_eq]
    exact fun hle => absurd hle.2 (by simp; omega)
  have h4 : (0xF0 ≤ b && b ≤ 0xF4) = true := by
    simp only [UInt8.le_iff_toNat_le, Bool.and_eq_true, decide_eq_true_eq]
    exact ⟨h, h'⟩
  unfold scan
  rw [if_neg h1, if_neg h2, if_neg h3, if_pos h4]

/-- What is written for a character is not empty, and the scanner takes exactly
that. -/
theorem scan_encode (c : Char) (rest : Bytes) :
    ∃ b bs, String.utf8EncodeChar c ++ rest = b :: bs ∧ scan b bs = (some c, rest) := by
  rcases encode_cases c with h | ⟨h, h'⟩ | ⟨h, h'⟩ | h
  · -- one byte
    refine ⟨_, _, by simp only [encode_one h, List.cons_append, List.nil_append]; rfl, ?_⟩
    have hb := toNat_ofNat (n := c.toNat) (by omega)
    rw [scan_of_ascii (by omega), hb, Char.ofNat_toNat]
  · -- two
    refine ⟨_, _, by simp only [encode_two h h', List.cons_append, List.nil_append]; rfl, ?_⟩
    have hb := toNat_ofNat (n := c.toNat / 64 % 32 + 0xC0) (by omega)
    have hn : (c.toNat / 64 % 32 + 0xC0) % 32 * 64 + c.toNat % 64 = c.toNat := by omega
    rw [scan_of_two (by omega) (by omega) (isTail_ofNat c.toNat), hb, payload_ofNat, hn,
      Char.ofNat_toNat]
  · -- three: the second byte is in the range that the first allows
    refine ⟨_, _, by simp only [encode_three h h', List.cons_append, List.nil_append]; rfl, ?_⟩
    have hvalid := toNat_valid c
    have hb := toNat_ofNat (n := c.toNat / 4096 % 16 + 0xE0) (by omega)
    have hd := toNat_ofNat (n := c.toNat / 64 % 64 + 0x80) (by omega)
    have hsecond : isSecond (UInt8.ofNat (c.toNat / 4096 % 16 + 0xE0))
        (UInt8.ofNat (c.toNat / 64 % 64 + 0x80)) = true := by
      rw [isSecond_iff, hb, hd]
      omega
    have hn : (c.toNat / 4096 % 16 + 0xE0) % 16 * 4096 + c.toNat / 64 % 64 * 64
        + c.toNat % 64 = c.toNat := by omega
    rw [scan_of_three (by omega) (by omega),
      scanThree, if_pos hsecond, if_pos (isTail_ofNat _), hb, payload_ofNat, payload_ofNat, hn,
      Char.ofNat_toNat]
  · -- four
    refine ⟨_, _, by simp only [encode_four h, List.cons_append, List.nil_append]; rfl, ?_⟩
    have hvalid := toNat_valid c
    have hb := toNat_ofNat (n := c.toNat / 262144 % 8 + 0xF0) (by omega)
    have hd := toNat_ofNat (n := c.toNat / 4096 % 64 + 0x80) (by omega)
    have hsecond : isSecond (UInt8.ofNat (c.toNat / 262144 % 8 + 0xF0))
        (UInt8.ofNat (c.toNat / 4096 % 64 + 0x80)) = true := by
      rw [isSecond_iff, hb, hd]
      omega
    have hn : (c.toNat / 262144 % 8 + 0xF0) % 8 * 262144 + c.toNat / 4096 % 64 * 4096
        + c.toNat / 64 % 64 * 64 + c.toNat % 64 = c.toNat := by omega
    rw [scan_of_four (by omega) (by omega), scanFour, if_pos hsecond, if_pos (isTail_ofNat _),
      if_pos (isTail_ofNat _), hb, payload_ofNat, payload_ofNat, payload_ofNat, hn,
      Char.ofNat_toNat]

/-! ### The readers -/

/-- **The strict reader gives back what was written.** -/
theorem decodeChars?_encodeChars (cs : List Char) : decodeChars? (encodeChars cs) = some cs := by
  induction cs with
  | nil => rw [encodeChars_nil, decodeChars?]
  | cons c cs ih =>
    obtain ⟨b, bs, hbytes, hscan⟩ := scan_encode c (encodeChars cs)
    rw [encodeChars_cons, hbytes, decodeChars?, hscan]
    simp only [ih, Option.map_some]

/-- **The lossy reader gives back what was written.** -/
theorem decodeCharsLossy_encodeChars (cs : List Char) :
    decodeCharsLossy (encodeChars cs) = cs := by
  induction cs with
  | nil => rw [encodeChars_nil, decodeCharsLossy]
  | cons c cs ih =>
    obtain ⟨b, bs, hbytes, hscan⟩ := scan_encode c (encodeChars cs)
    rw [encodeChars_cons, hbytes, decodeCharsLossy, hscan, ih]
    rfl

/-! ### Bytes that are cut short -/

theorem scanThree_append {b : UInt8} {bs rest : Bytes} {c : Char}
    (h : scanThree b bs = (some c, rest)) (more : Bytes) :
    scanThree b (bs ++ more) = (some c, rest ++ more) := by
  unfold scanThree at h
  repeat' split at h
  all_goals cases h
  next c d hc hd => rw [List.cons_append, List.cons_append, scanThree, if_pos hc, if_pos hd]

theorem scanFour_append {b : UInt8} {bs rest : Bytes} {c : Char}
    (h : scanFour b bs = (some c, rest)) (more : Bytes) :
    scanFour b (bs ++ more) = (some c, rest ++ more) := by
  unfold scanFour at h
  repeat' split at h
  all_goals cases h
  next c d e hc hd he =>
    rw [List.cons_append, List.cons_append, List.cons_append, scanFour, if_pos hc, if_pos hd,
      if_pos he]

/-- A scanned character is the same whatever follows it. -/
theorem scan_append {b : UInt8} {bs rest : Bytes} {c : Char} (h : scan b bs = (some c, rest))
    (more : Bytes) : scan b (bs ++ more) = (some c, rest ++ more) := by
  unfold scan at h ⊢
  split
  · next hone =>
    rw [if_pos hone] at h
    cases h
    rfl
  next hone =>
  rw [if_neg hone] at h
  split
  · next htwo =>
    rw [if_pos htwo] at h
    repeat' split at h
    all_goals cases h
    next hc => exact if_pos hc
  next htwo =>
  rw [if_neg htwo] at h
  split
  · next hthree =>
    rw [if_pos hthree] at h
    exact scanThree_append h more
  next hthree =>
  rw [if_neg hthree] at h
  split
  · next hfour =>
    rw [if_pos hfour] at h
    exact scanFour_append h more
  next hfour =>
  rw [if_neg hfour] at h
  cases h

/-- **Written characters that are cut short can be read only if the cut is between two of
them.** -/
theorem isPrefix_of_decodeChars? {ds : List Char} :
    ∀ {front back : Bytes} {cs : List Char}, front ++ back = encodeChars ds →
      decodeChars? front = some cs → cs <+: ds ∧ front = encodeChars cs := by
  induction ds with
  | nil =>
    intro front back cs hcut h
    rw [(List.append_eq_nil_iff.mp hcut).1, decodeChars?] at h
    cases h
    exact ⟨List.nil_prefix, (List.append_eq_nil_iff.mp hcut).1⟩
  | cons d ds ih =>
    intro front back cs hcut h
    cases front with
    | nil =>
      rw [decodeChars?] at h
      cases h
      exact ⟨List.nil_prefix, rfl⟩
    | cons b bs =>
      rw [decodeChars?] at h
      split at h
      · next c hc =>
        obtain ⟨cs, hcs, rfl⟩ := Option.map_eq_some_iff.mp h
        -- what is scanned at the cut is scanned without it
        have hscan : scan b bs = (some c, (scan b bs).2) := by rw [← hc]
        obtain ⟨b', bs', hbytes, hscan'⟩ := scan_encode d (encodeChars ds)
        have hwhole : b :: (bs ++ back) = b' :: bs' := by
          rw [← hbytes, ← encodeChars_cons, ← hcut, List.cons_append]
        obtain ⟨rfl, rfl⟩ := List.cons.inj hwhole
        rw [scan_append hscan back, Prod.mk.injEq, Option.some.injEq] at hscan'
        obtain ⟨rfl, hrest⟩ := hscan'
        obtain ⟨hfirst, hfront⟩ := ih hrest hcs
        refine ⟨List.cons_prefix_cons.mpr ⟨rfl, hfirst⟩, ?_⟩
        rw [encodeChars_cons, ← hfront]
        have hcancel : b :: bs ++ back = String.utf8EncodeChar c ++ (scan b bs).2 ++ back := by
          rw [hcut, encodeChars_cons, List.append_assoc, hrest]
        exact List.append_cancel_right hcancel
      · cases h

/-! ### ASCII characters among the bytes -/

/-- Every byte of a character beyond ASCII is beyond ASCII. -/
theorem le_toNat_of_mem_encode {c : Char} (h : 0x80 ≤ c.toNat) {b : UInt8}
    (hb : b ∈ String.utf8EncodeChar c) : 0x80 ≤ b.toNat := by
  have hlead : ∀ n k : ℕ, 0x80 ≤ k → n + k < 256 → 0x80 ≤ (UInt8.ofNat (n + k)).toNat := by
    intro n k hk hlt
    rw [toNat_ofNat hlt]
    omega
  rcases encode_cases c with h1 | ⟨h1, h2⟩ | ⟨h1, h2⟩ | h1
  · exact absurd h (Nat.not_le_of_lt h1)
  · rw [encode_two h1 h2] at hb
    simp only [List.mem_cons, List.not_mem_nil, or_false] at hb
    rcases hb with rfl | rfl <;> exact hlead _ _ (by decide) (by omega)
  · rw [encode_three h1 h2] at hb
    simp only [List.mem_cons, List.not_mem_nil, or_false] at hb
    rcases hb with rfl | rfl | rfl <;> exact hlead _ _ (by decide) (by omega)
  · rw [encode_four h1] at hb
    simp only [List.mem_cons, List.not_mem_nil, or_false] at hb
    rcases hb with rfl | rfl | rfl | rfl <;> exact hlead _ _ (by decide) (by omega)

/-- The byte of an ASCII character belongs to no other character. -/
theorem eq_of_mem_encode {c d : Char} (hd : d.toNat < 0x80)
    (h : UInt8.ofNat d.toNat ∈ String.utf8EncodeChar c) : c = d := by
  by_cases hc : c.toNat < 0x80
  · rw [encode_one hc, List.mem_singleton] at h
    have hn : d.toNat = c.toNat := by
      rw [← toNat_ofNat (n := d.toNat) (by omega), h, toNat_ofNat (by omega)]
    exact Char.toNat_inj.mp hn.symm
  · have hle := le_toNat_of_mem_encode (Nat.le_of_not_lt hc) h
    rw [toNat_ofNat (by omega)] at hle
    omega

theorem mem_of_mem_encodeChars {cs : List Char} {d : Char} (hd : d.toNat < 0x80)
    (h : UInt8.ofNat d.toNat ∈ encodeChars cs) : d ∈ cs := by
  obtain ⟨c, hc, hb⟩ := List.mem_flatMap.mp h
  exact eq_of_mem_encode hd hb ▸ hc

/-- A word of ASCII characters that stands at the front of the bytes stands at the
front of the characters. -/
theorem isPrefix_of_encode {w : List Char} (hw : ∀ d ∈ w, d.toNat < 0x80) :
    ∀ cs : List Char, encodeChars w <+: encodeChars cs → w <+: cs := by
  induction w with
  | nil => exact fun _ _ => List.nil_prefix
  | cons d w ih =>
    intro cs h
    have hd := hw d List.mem_cons_self
    rw [encodeChars_cons, encode_one hd] at h
    cases cs with
    | nil => exact absurd h.length_le (by simp)
    | cons c cs =>
      obtain ⟨b, bs, hbytes, -⟩ := scan_encode c []
      rw [List.append_nil] at hbytes
      obtain ⟨t, ht⟩ := h
      rw [encodeChars_cons, hbytes, List.cons_append, List.cons_append, List.cons_append,
        List.cons.injEq] at ht
      -- the first byte decides what the character is
      have hc : c = d := eq_of_mem_encode hd (by rw [hbytes, ht.1]; exact List.mem_cons_self)
      subst hc
      rw [encode_one hd, List.cons.injEq] at hbytes
      rw [← hbytes.2, List.nil_append, List.nil_append] at ht
      have hrest := ih (fun e he => hw e (List.mem_cons_of_mem _ he)) cs ⟨t, ht.2⟩
      exact List.cons_prefix_cons.mpr ⟨rfl, hrest⟩

/-- **A word of ASCII characters stands among the bytes only where it stands among
the characters.** -/
theorem isInfix_of_encode {w : List Char} (hw : ∀ d ∈ w, d.toNat < 0x80) :
    ∀ {cs : List Char}, encodeChars w <:+: encodeChars cs → w <:+: cs := by
  intro cs
  induction cs with
  | nil =>
    intro h
    rw [encodeChars_nil, List.infix_nil] at h
    exact (isPrefix_of_encode hw [] (by rw [h]; exact List.nil_prefix)).isInfix
  | cons c cs ih =>
    intro h
    by_cases hc : c.toNat < 0x80
    · rw [encodeChars_cons, encode_one hc, List.cons_append, List.nil_append,
        List.infix_cons_iff] at h
      rcases h with h | h
      · refine (isPrefix_of_encode hw (c :: cs) ?_).isInfix
        rw [encodeChars_cons, encode_one hc]
        exact h
      · exact List.infix_cons (ih h)
    · cases w with
      | nil => exact List.nil_infix
      | cons d w =>
        -- the word begins in the bytes of `c` only if it begins with `c`
        have hd := hw d List.mem_cons_self
        have hout : UInt8.ofNat d.toNat ∉ String.utf8EncodeChar c := fun hmem =>
          hc (eq_of_mem_encode hd hmem ▸ hd)
        rw [encodeChars_cons c, List.infix_append_iff_ne_nil] at h
        rcases h with h | h | ⟨l, m, hl, -, hlm, hsuffix, -⟩
        · refine absurd (h.mem ?_) hout
          rw [encodeChars_cons, encode_one hd]
          exact List.mem_cons_self
        · exact List.infix_cons (ih h)
        · obtain ⟨b, l, rfl⟩ := List.exists_cons_of_ne_nil hl
          rw [encodeChars_cons, encode_one hd, List.cons_append, List.cons_append,
            List.cons.injEq] at hlm
          exact absurd (hsuffix.mem (hlm.1 ▸ List.mem_cons_self)) hout

/-! ### ASCII characters off the bytes -/

/-- The number of the character with a given number; one that no character has gives
the character zero. -/
theorem toNat_charOfNat (n : ℕ) : (Char.ofNat n).toNat = 0 ∨ (Char.ofNat n).toNat = n := by
  by_cases hvalid : n.isValidChar
  · rw [Char.ofNat, dif_pos hvalid]
    exact .inr rfl
  · rw [Char.ofNat, dif_neg hvalid]
    exact .inl rfl

theorem charOfNat_beyond {n : ℕ} (h : 0x80 ≤ n) :
    (Char.ofNat n).toNat = 0 ∨ 0x80 ≤ (Char.ofNat n).toNat := by
  have hn := toNat_charOfNat n
  omega

theorem scanThree_beyond {b : UInt8} {bs : Bytes} {d : Char} (h : 0xE0 ≤ b.toNat)
    (h' : b.toNat ≤ 0xEF) (hd : (scanThree b bs).1 = some d) :
    d.toNat = 0 ∨ 0x80 ≤ d.toNat := by
  unfold scanThree at hd
  split at hd
  · split at hd
    · next hsecond =>
      split at hd
      · cases hd
        rw [isSecond_iff] at hsecond
        exact charOfNat_beyond (by simp only [payload]; omega)
      · cases hd
    · cases hd
  · split at hd <;> cases hd
  · cases hd

theorem scanFour_beyond {b : UInt8} {bs : Bytes} {d : Char} (h : 0xF0 ≤ b.toNat)
    (h' : b.toNat ≤ 0xF4) (hd : (scanFour b bs).1 = some d) :
    d.toNat = 0 ∨ 0x80 ≤ d.toNat := by
  unfold scanFour at hd
  split at hd
  · split at hd
    · next hsecond =>
      split at hd
      · split at hd
        · cases hd
          rw [isSecond_iff] at hsecond
          exact charOfNat_beyond (by simp only [payload]; omega)
        · cases hd
      · cases hd
    · cases hd
  · split at hd
    · split at hd <;> cases hd
    · cases hd
  · split at hd <;> cases hd
  · cases hd

/-- What begins with a byte beyond ASCII is no ASCII character, but perhaps the
character zero. -/
theorem scan_beyond {b : UInt8} {bs : Bytes} {d : Char} (h : 0x80 ≤ b.toNat)
    (hd : (scan b bs).1 = some d) : d.toNat = 0 ∨ 0x80 ≤ d.toNat := by
  unfold scan at hd
  simp only [UInt8.lt_iff_toNat_lt, UInt8.le_iff_toNat_le, Bool.and_eq_true,
    decide_eq_true_eq] at hd
  split at hd
  · next hlt => exact absurd hlt (by simpa using h)
  split at hd
  · next htwo =>
    split at hd
    · split at hd
      · cases hd
        have hlow : 0xC2 ≤ b.toNat := htwo.1
        have hhigh : b.toNat ≤ 0xDF := htwo.2
        exact charOfNat_beyond (by omega)
      · cases hd
    · cases hd
  split at hd
  · next hthree => exact scanThree_beyond hthree.1 hthree.2 hd
  split at hd
  · next hfour => exact scanFour_beyond hfour.1 hfour.2 hd
  · cases hd

/-- **ASCII characters other than zero are read from their own bytes alone**, even by
the lossy reader. -/
theorem eq_encodeChars_of_decodeCharsLossy {w : List Char}
    (hw : ∀ d ∈ w, 0 < d.toNat ∧ d.toNat < 0x80) :
    ∀ {bs : Bytes}, decodeCharsLossy bs = w → bs = encodeChars w := by
  induction w with
  | nil =>
    intro bs h
    cases bs with
    | nil => rfl
    | cons b bs => rw [decodeCharsLossy] at h; cases h
  | cons d w ih =>
    intro bs h
    cases bs with
    | nil => rw [decodeCharsLossy] at h; cases h
    | cons b bs =>
      rw [decodeCharsLossy] at h
      obtain ⟨hfirst, hrest⟩ := List.cons.inj h
      obtain ⟨hpos, hlt⟩ := hw d List.mem_cons_self
      have hword := ih (fun e he => hw e (List.mem_cons_of_mem _ he)) hrest
      by_cases hb : b.toNat < 0x80
      · rw [scan_of_ascii hb] at hfirst hword
        have hd : d.toNat = b.toNat := by
          have hzero := toNat_charOfNat b.toNat
          rw [show Char.ofNat b.toNat = d from hfirst] at hzero
          omega
        rw [encodeChars_cons, encode_one hlt, hd, UInt8.ofNat_toNat, ← hword]
        rfl
      · -- neither a longer form nor a replacement is ASCII
        cases hscan : (scan b bs).1 with
        | none =>
          rw [hscan] at hfirst
          subst hfirst
          exact absurd hlt (by decide)
        | some c =>
          rw [hscan] at hfirst
          subst hfirst
          have := scan_beyond (Nat.le_of_not_lt hb) hscan
          rw [Option.getD_some] at hpos hlt
          omega

end Switchboard.Text.Utf8
