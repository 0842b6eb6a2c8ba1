import Switchboard.Proofs.Text.Utf8
import Switchboard.Text.Percent

/-!
# Percent encoding reads back

The bytes of a percent-encoded text, with every escape replaced by its byte, are those of
the text, as long as no percent sign stands for itself.

## Main results

* `decodeBytes_encodeByte` — the escape of a byte is read as that byte.
* `decodeBytes_encodeChars` — **an encoded text is read as the bytes of the text.**
* `mem_encodeChars` — the characters that an encoded text is made of.
-/

namespace Switchboard.Text.Percent

open Utf8 (encode_one)

/-! ### Digits -/

theorem digit?_upperDigit {n : ℕ} (h : n < 16) :
    digit? (UInt8.ofNat (Hex.upperDigit n).toNat) = some n := by
  have hall : ∀ i : Fin 16, digit? (UInt8.ofNat (Hex.upperDigit i).toNat) = some i.val := by decide
  exact hall ⟨n, h⟩

theorem isAlphanumeric_upperDigit {n : ℕ} (h : n < 16) :
    Ascii.isAlphanumeric (Hex.upperDigit n) = true := by
  have hall : ∀ i : Fin 16, Ascii.isAlphanumeric (Hex.upperDigit i) = true := by decide
  exact hall ⟨n, h⟩

theorem toNat_upperDigit_lt {n : ℕ} (h : n < 16) : (Hex.upperDigit n).toNat < 0x80 := by
  have hall : ∀ i : Fin 16, (Hex.upperDigit i).toNat < 0x80 := by decide
  exact hall ⟨n, h⟩

/-! ### Bytes -/

/-- The bytes of an escape. -/
theorem encodeChars_encodeByte (b : UInt8) :
    Utf8.encodeChars (encodeByte b) =
      [0x25, UInt8.ofNat (Hex.upperDigit (b.toNat / 16)).toNat,
        UInt8.ofNat (Hex.upperDigit (b.toNat % 16)).toNat] := by
  have hb := b.toNat_lt
  have hhigh : (Hex.upperDigit (b.toNat / 16)).toNat < 0x80 := toNat_upperDigit_lt (by omega)
  have hlow : (Hex.upperDigit (b.toNat % 16)).toNat < 0x80 := toNat_upperDigit_lt (by omega)
  rw [encodeByte, Utf8.encodeChars_cons, Utf8.encodeChars_cons, Utf8.encodeChars_cons,
    Utf8.encodeChars_nil, encode_one (show '%'.toNat < 0x80 by decide), encode_one hhigh,
    encode_one hlow]
  rfl

theorem decodeBytes_cons_of_ne {b : UInt8} (h : b ≠ 0x25) (rest : Bytes) :
    decodeBytes (b :: rest) = b :: decodeBytes rest := by
  rw [decodeBytes]
  exact fun _ _ _ hb _ => h hb

/-- The escape of a byte is read as that byte. -/
theorem decodeBytes_encodeByte (b : UInt8) (rest : Bytes) :
    decodeBytes (Utf8.encodeChars (encodeByte b) ++ rest) = b :: decodeBytes rest := by
  have hb := b.toNat_lt
  have hhigh := digit?_upperDigit (show b.toNat / 16 < 16 by omega)
  have hlow := digit?_upperDigit (show b.toNat % 16 < 16 by omega)
  rw [encodeChars_encodeByte, List.cons_append, List.cons_append, List.cons_append,
    List.nil_append, decodeBytes, hhigh, hlow]
  show UInt8.ofNat (16 * (b.toNat / 16) + b.toNat % 16) :: _ = _
  rw [Nat.div_add_mod, UInt8.ofNat_toNat]

theorem decodeBytes_flatMap_encodeByte (bs rest : Bytes) :
    decodeBytes (Utf8.encodeChars (bs.flatMap encodeByte) ++ rest) = bs ++ decodeBytes rest := by
  induction bs with
  | nil => rfl
  | cons b bs ih =>
    rw [List.flatMap_cons, Utf8.encodeChars_append, List.append_assoc, decodeBytes_encodeByte, ih,
      List.cons_append]

/-! ### Texts -/

section

variable {keep : Char → Bool}

theorem encodeChars_cons (c : Char) (cs : List Char) :
    encodeChars keep (c :: cs)
      = (if keep c then [c] else (String.utf8EncodeChar c).flatMap encodeByte)
        ++ encodeChars keep cs :=
  List.flatMap_cons

/-- **An encoded text is read as the bytes of the text**, if what stands for itself is ASCII
and no percent sign. -/
theorem decodeBytes_encodeChars (hkeep : ∀ c, keep c = true → c.toNat < 0x80 ∧ c ≠ '%')
    (cs : List Char) :
    decodeBytes (Utf8.encodeChars (encodeChars keep cs)) = Utf8.encodeChars cs := by
  induction cs with
  | nil => rfl
  | cons c cs ih =>
    rw [encodeChars_cons, Utf8.encodeChars_append, Utf8.encodeChars_cons]
    split
    · next hc =>
      obtain ⟨hascii, hpercent⟩ := hkeep c hc
      have hne : UInt8.ofNat c.toNat ≠ 0x25 := by
        intro heq
        have hnat := congrArg UInt8.toNat heq
        rw [Utf8.toNat_ofNat (by omega)] at hnat
        exact hpercent (Char.toNat_inj.mp hnat)
      rw [Utf8.encodeChars_cons, Utf8.encodeChars_nil, List.append_nil, encode_one hascii,
        List.singleton_append, decodeBytes_cons_of_ne hne, ih, List.singleton_append]
    · rw [decodeBytes_flatMap_encodeByte, ih]

/-- An encoded text is made of characters that stand for themselves, percent signs and
digits. -/
theorem mem_encodeChars {cs : List Char} {c : Char} (h : c ∈ encodeChars keep cs) :
    keep c = true ∨ c = '%' ∨ Ascii.isAlphanumeric c = true := by
  obtain ⟨d, -, hd⟩ := List.mem_flatMap.mp h
  split at hd
  · next hkeep => exact .inl (List.mem_singleton.mp hd ▸ hkeep)
  · obtain ⟨b, -, hb⟩ := List.mem_flatMap.mp hd
    have hlt := b.toNat_lt
    simp only [encodeByte, List.mem_cons, List.not_mem_nil, or_false] at hb
    rcases hb with rfl | rfl | rfl
    · exact .inr (.inl rfl)
    · exact .inr (.inr (isAlphanumeric_upperDigit (by omega)))
    · exact .inr (.inr (isAlphanumeric_upperDigit (by omega)))

end

end Switchboard.Text.Percent
