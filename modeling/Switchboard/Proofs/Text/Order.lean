import Mathlib.Data.String.Basic
import Switchboard.Proofs.Text.Utf8

/-!
# Texts in the order of their bytes

Texts are compared by code point.  The bytes of UTF-8 are made so that comparing them comes
to the same, and so the order of a dictionary is that of the bytes of its names.

## Main results

* `encode_append_lt` — the smaller character has the smaller bytes.
* `encode_lt_iff` — **texts are ordered as their bytes are.**
-/

namespace Switchboard.Text.Utf8

/-! ### The order of characters -/

theorem cons_lt_of_lt {m n : ℕ} (h : m < n) (hn : n < 256) (xs ys : Bytes) :
    UInt8.ofNat m :: xs < UInt8.ofNat n :: ys := by
  refine List.cons_lt_cons_iff.mpr (Or.inl ?_)
  rw [UInt8.lt_iff_toNat_lt, toNat_ofNat hn, toNat_ofNat (Nat.lt_trans h hn)]
  exact h

theorem cons_lt_of_eq {m n : ℕ} (h : m = n) {xs ys : Bytes} (hlt : xs < ys) :
    UInt8.ofNat m :: xs < UInt8.ofNat n :: ys :=
  List.cons_lt_cons_iff.mpr (Or.inr ⟨congrArg _ h, hlt⟩)

/-- The smaller character has the smaller bytes, whatever follows. -/
theorem encode_append_lt {c d : Char} (h : c.toNat < d.toNat) (xs ys : Bytes) :
    String.utf8EncodeChar c ++ xs < String.utf8EncodeChar d ++ ys := by
  have hc := toNat_valid c
  have hd := toNat_valid d
  rcases encode_cases c with h1 | ⟨h1, h2⟩ | ⟨h1, h2⟩ | h1
  · rcases encode_cases d with k1 | ⟨k1, k2⟩ | ⟨k1, k2⟩ | k1
    · rw [encode_one h1, encode_one k1]
      exact cons_lt_of_lt h (by omega) _ _
    · rw [encode_one h1, encode_two k1 k2]
      exact cons_lt_of_lt (by omega) (by omega) _ _
    · rw [encode_one h1, encode_three k1 k2]
      exact cons_lt_of_lt (by omega) (by omega) _ _
    · rw [encode_one h1, encode_four k1]
      exact cons_lt_of_lt (by omega) (by omega) _ _
  · rcases encode_cases d with k1 | ⟨k1, k2⟩ | ⟨k1, k2⟩ | k1
    · omega
    · rw [encode_two h1 h2, encode_two k1 k2]
      rcases Nat.lt_or_ge (c.toNat / 64) (d.toNat / 64) with hlt | hge
      · exact cons_lt_of_lt (by omega) (by omega) _ _
      · exact cons_lt_of_eq (by omega) (cons_lt_of_lt (by omega) (by omega) _ _)
    · rw [encode_two h1 h2, encode_three k1 k2]
      exact cons_lt_of_lt (by omega) (by omega) _ _
    · rw [encode_two h1 h2, encode_four k1]
      exact cons_lt_of_lt (by omega) (by omega) _ _
  · rcases encode_cases d with k1 | ⟨k1, k2⟩ | ⟨k1, k2⟩ | k1
    · omega
    · omega
    · rw [encode_three h1 h2, encode_three k1 k2]
      rcases Nat.lt_or_ge (c.toNat / 4096) (d.toNat / 4096) with hlt | hge
      · exact cons_lt_of_lt (by omega) (by omega) _ _
      · refine cons_lt_of_eq (by omega) ?_
        rcases Nat.lt_or_ge (c.toNat / 64) (d.toNat / 64) with hlt | hge
        · exact cons_lt_of_lt (by omega) (by omega) _ _
        · exact cons_lt_of_eq (by omega) (cons_lt_of_lt (by omega) (by omega) _ _)
    · rw [encode_three h1 h2, encode_four k1]
      exact cons_lt_of_lt (by omega) (by omega) _ _
  · have k1 : 0x10000 ≤ d.toNat := by omega
    rw [encode_four h1, encode_four k1]
    rcases Nat.lt_or_ge (c.toNat / 262144) (d.toNat / 262144) with hlt | hge
    · exact cons_lt_of_lt (by omega) (by omega) _ _
    · refine cons_lt_of_eq (by omega) ?_
      rcases Nat.lt_or_ge (c.toNat / 4096) (d.toNat / 4096) with hlt | hge
      · exact cons_lt_of_lt (by omega) (by omega) _ _
      · refine cons_lt_of_eq (by omega) ?_
        rcases Nat.lt_or_ge (c.toNat / 64) (d.toNat / 64) with hlt | hge
        · exact cons_lt_of_lt (by omega) (by omega) _ _
        · exact cons_lt_of_eq (by omega) (cons_lt_of_lt (by omega) (by omega) _ _)

/-! ### The order of texts -/

theorem nil_lt_encode_append (c : Char) (xs : Bytes) : [] < String.utf8EncodeChar c ++ xs := by
  rcases encode_cases c with h1 | ⟨h1, h2⟩ | ⟨h1, h2⟩ | h1
  · rw [encode_one h1]; exact List.nil_lt_cons _ _
  · rw [encode_two h1 h2]; exact List.nil_lt_cons _ _
  · rw [encode_three h1 h2]; exact List.nil_lt_cons _ _
  · rw [encode_four h1]; exact List.nil_lt_cons _ _

/-- The smaller text has the smaller bytes. -/
theorem encodeChars_lt {cs ds : List Char} (h : cs < ds) : encodeChars cs < encodeChars ds := by
  induction cs generalizing ds with
  | nil =>
    cases ds with
    | nil => cases h
    | cons d ds => exact nil_lt_encode_append d _
  | cons c cs ih =>
    cases ds with
    | nil => cases h
    | cons d ds =>
      rw [encodeChars_cons, encodeChars_cons]
      rcases List.cons_lt_cons_iff.mp h with hlt | ⟨rfl, hlt⟩
      · exact encode_append_lt hlt _ _
      · exact List.append_left_lt (ih hlt)

/-- **Texts are ordered as their bytes are.** -/
theorem encode_lt_iff {s t : String} : encode s < encode t ↔ s < t := by
  constructor
  · intro h
    refine lt_of_not_ge fun hge => ?_
    rcases lt_or_eq_of_le hge with hlt | rfl
    · exact List.lt_asymm h (encodeChars_lt (String.lt_iff_toList_lt.mp hlt))
    · exact List.lt_irrefl _ h
  · intro h
    exact encodeChars_lt (String.lt_iff_toList_lt.mp h)

end Switchboard.Text.Utf8
