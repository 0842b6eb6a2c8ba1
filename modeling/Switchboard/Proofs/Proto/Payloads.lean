import Switchboard.Proofs.Proto.Scalars
import Switchboard.Proofs.Proto.Wire
import Switchboard.Proto.Encoding

/-!
# Scalars come back from their payloads

A scalar is read back from its payload bit for bit.  What an encoder leaves out is another
matter: it compares a scalar with the default by value, and two zeros with a point are equal
in value whatever their signs.

## Main definitions

* `Datum.zeros` — two zeros with a point, whatever their signs.
* `Form.Has` — the payloads of a form.

## Main results

* `Scalar.ofPayload?_payload` — a scalar comes back from its payload.
* `Datum.same_of_zeros`, `Datum.eq_of_same` — when two scalars are equal in value.
* `unpacked?_bare` — payloads of one form come back from one byte string.
-/

namespace Switchboard.Proto

open Wire

/-! ### Integers modulo a power of two -/

theorem wrapped_eq (bits : ℕ) (i : Int) : (Scalar.wrapped bits i : Int) = i % 2 ^ bits :=
  Int.toNat_of_nonneg (Int.emod_nonneg _ (by positivity))

theorem wrapped_lt (bits : ℕ) (i : Int) : Scalar.wrapped bits i < 2 ^ bits := by
  have hlt : i % 2 ^ bits < 2 ^ bits := Int.emod_lt_of_pos i (by positivity)
  rw [← wrapped_eq] at hlt
  exact_mod_cast hlt

/-- An integer that is not negative comes back. -/
theorem wrapped_of_nonneg {bits : ℕ} {i : Int} (hlow : 0 ≤ i) (hhigh : i < 2 ^ bits) :
    (Scalar.wrapped bits i : Int) = i := by
  rw [wrapped_eq, Int.emod_eq_of_lt hlow hhigh]

/-- A signed integer comes back, if the power of two is one of its width at least. -/
theorem signed_wrapped {width bits : ℕ} {i : Int} (h : width + 1 ≤ bits)
    (hlow : -(2 ^ width) ≤ i) (hhigh : i < 2 ^ width) :
    Scalar.signed (width + 1) (Scalar.wrapped bits i) = i := by
  have hdvd : (2 : Int) ^ (width + 1) ∣ 2 ^ bits := pow_dvd_pow 2 h
  have hcast : ((2 ^ (width + 1) : ℕ) : Int) = 2 ^ width * 2 := by
    push_cast
    exact pow_succ 2 width
  have hmod : i % 2 ^ bits % ((2 ^ (width + 1) : ℕ) : Int) = i % ((2 ^ (width + 1) : ℕ) : Int) :=
    Int.emod_emod_of_dvd i (by exact_mod_cast hdvd)
  rw [Scalar.signed, wrapped_eq, ← Int.emod_bmod, hmod, Int.emod_bmod]
  apply Int.bmod_eq_of_le
  · rw [hcast]
    omega
  · rw [hcast]
    omega

/-- The signed integers of a width. -/
theorem signed_bounds (width n : ℕ) :
    -(2 ^ width) ≤ Scalar.signed (width + 1) n ∧ Scalar.signed (width + 1) n < 2 ^ width := by
  have hpos : 0 < (2 : ℕ) ^ (width + 1) := by positivity
  have hlow := Int.le_bmod (x := (n : Int)) hpos
  have hhigh := Int.bmod_lt (x := (n : Int)) hpos
  have hcast : ((2 ^ (width + 1) : ℕ) : Int) = 2 ^ width * 2 := by
    push_cast
    exact pow_succ 2 width
  rw [hcast] at hlow hhigh
  unfold Scalar.signed
  omega

/-! ### Scalars -/

namespace Scalar

/-- A scalar comes back from its payload. -/
theorem ofPayload?_payload {k : Scalar} {d : Datum} (h : k.Admits d) :
    k.ofPayload? (k.payload d) = some d := by
  cases hbounds : k.bounds? with
  | some b =>
    obtain ⟨low, high⟩ := b
    obtain ⟨i, rfl, hlow, hhigh⟩ := h.exists_int hbounds
    have hint : ∀ {j : Int}, j = i → some (Datum.int j) = some (.int i) := by
      rintro j rfl
      rfl
    cases k with
    | int32 | int64 | sfixed32 | sfixed64 =>
      obtain ⟨rfl, rfl⟩ := Prod.mk.inj (Option.some.inj hbounds)
      exact hint (signed_wrapped (by decide) hlow (Int.lt_of_le_sub_one hhigh))
    | uint64 | fixed32 | fixed64 =>
      obtain ⟨rfl, rfl⟩ := Prod.mk.inj (Option.some.inj hbounds)
      exact hint (wrapped_of_nonneg hlow (Int.lt_of_le_sub_one hhigh))
    | uint32 =>
      obtain ⟨rfl, rfl⟩ := Prod.mk.inj (Option.some.inj hbounds)
      have hback : (wrapped 64 i : Int) = i := wrapped_of_nonneg hlow (by omega)
      exact hint (by omega)
    | sint32 =>
      obtain ⟨rfl, rfl⟩ := Prod.mk.inj (Option.some.inj hbounds)
      have hlt := zigzag_lt 31 hlow (Int.lt_of_le_sub_one hhigh)
      have hback : unzigzag (zigzag i % 2 ^ 32) = i := by
        rw [Nat.mod_eq_of_lt hlt, unzigzag_zigzag]
      exact hint hback
    | sint64 => exact hint (unzigzag_zigzag i)
    | double | float | bool | string | bytes => cases hbounds
  | none =>
    cases k <;> cases d <;> simp_all [Admits, bounds?, payload, ofPayload?, Text.Utf8.encode,
      Text.Utf8.decode?, Text.Utf8.decodeChars?_encodeChars]

theorem inRange_payload {k : Scalar} {d : Datum} (h : k.Admits d) : (k.payload d).InRange := by
  cases hbounds : k.bounds? with
  | some b =>
    obtain ⟨low, high⟩ := b
    obtain ⟨i, rfl, hlow, hhigh⟩ := h.exists_int hbounds
    cases k with
    | int32 | int64 | uint32 | uint64 | fixed64 | sfixed64 => exact wrapped_lt 64 i
    | fixed32 | sfixed32 => exact wrapped_lt 32 i
    | sint32 =>
      obtain ⟨rfl, rfl⟩ := Prod.mk.inj (Option.some.inj hbounds)
      have hlt := zigzag_lt 31 hlow (Int.lt_of_le_sub_one hhigh)
      exact Nat.lt_trans hlt (by decide)
    | sint64 =>
      obtain ⟨rfl, rfl⟩ := Prod.mk.inj (Option.some.inj hbounds)
      exact zigzag_lt 63 hlow (Int.lt_of_le_sub_one hhigh)
    | double | float | bool | string | bytes => cases hbounds
  | none =>
    cases k with
    | double =>
      cases d with
      | double x => exact x.bits.toNat_lt
      | _ => simp [Admits, bounds?] at h
    | float =>
      cases d with
      | single x => exact x.bits.toNat_lt
      | _ => simp [Admits, bounds?] at h
    | bool =>
      cases d with
      | bool b => exact Nat.lt_of_le_of_lt b.toNat_le (by decide)
      | _ => simp [Admits, bounds?] at h
    | string | bytes =>
      cases d <;> simp_all [Admits, bounds?, payload, Payload.InRange]
    | _ => simp [bounds?] at hbounds

/-- What is read from a payload in range is a value of the kind. -/
theorem admits_of_ofPayload? {k : Scalar} {pl : Payload} (hpl : pl.InRange) {d : Datum}
    (h : k.ofPayload? pl = some d) : k.Admits d := by
  cases k with
  | double | float | bool | bytes =>
    cases pl <;> simp only [ofPayload?, Option.some.injEq, reduceCtorEq] at h
    obtain rfl := h
    trivial
  | string =>
    cases pl <;> simp only [ofPayload?, Option.map_eq_some_iff, reduceCtorEq] at h
    obtain ⟨s, -, rfl⟩ := h
    trivial
  | int32 | sfixed32 =>
    cases pl <;> simp only [ofPayload?, Option.some.injEq, reduceCtorEq] at h
    obtain rfl := h
    obtain ⟨hlow, hhigh⟩ := signed_bounds 31 _
    exact ⟨hlow, Int.le_sub_one_of_lt hhigh⟩
  | int64 | sfixed64 =>
    cases pl <;> simp only [ofPayload?, Option.some.injEq, reduceCtorEq] at h
    obtain rfl := h
    obtain ⟨hlow, hhigh⟩ := signed_bounds 63 _
    exact ⟨hlow, Int.le_sub_one_of_lt hhigh⟩
  | uint32 =>
    cases pl <;> simp only [ofPayload?, Option.some.injEq, reduceCtorEq] at h
    obtain rfl := h
    exact admits_int rfl (by omega) (by omega)
  | uint64 | fixed32 | fixed64 =>
    cases pl <;> simp only [ofPayload?, Option.some.injEq, reduceCtorEq] at h
    obtain rfl := h
    simp only [Payload.InRange] at hpl
    exact admits_int rfl (by omega) (by omega)
  | sint32 =>
    cases pl <;> simp only [ofPayload?, Option.some.injEq, reduceCtorEq] at h
    obtain rfl := h
    unfold unzigzag
    split
    · exact admits_int rfl (by omega) (by omega)
    · exact admits_int rfl (by omega) (by omega)
  | sint64 =>
    cases pl <;> simp only [ofPayload?, Option.some.injEq, reduceCtorEq] at h
    obtain rfl := h
    simp only [Payload.InRange] at hpl
    unfold unzigzag
    split
    · exact admits_int rfl (by omega) (by omega)
    · exact admits_int rfl (by omega) (by omega)

/-- A key of a map is a value of its kind. -/
theorem admits_of_ofKey? {k : Scalar} {s : String} {d : Datum} (h : k.ofKey? s = some d) :
    k.Admits d := by
  cases k with
  | string =>
    obtain rfl : Datum.string s = d := Option.some.inj h
    trivial
  | bool =>
    simp only [ofKey?] at h
    split at h
    · obtain rfl := Option.some.inj h
      trivial
    · split at h
      · obtain rfl := Option.some.inj h
        trivial
      · cases h
  | _ => exact admits_of_integer (s := s) h

/-- A kind that no key is read as has one text for all its values, and no key is read from
that either. -/
theorem keyText_of_not_isKey {k : Scalar} (hk : k.isKey = false) {d : Datum} (h : k.Admits d) :
    d.keyText = "" ∧ k.ofKey? "" = none := by
  cases k with
  | double | float | bytes =>
    cases d <;> simp_all [Admits, bounds?, Datum.keyText, ofKey?]
  | _ => simp [isKey] at hk

end Scalar

/-! ### Equal in value -/

namespace Datum

/-- Two zeros with a point, whatever their signs. -/
def zeros : Datum → Datum → Bool
  | .single x, .single y => x.isZero && y.isZero
  | .double x, .double y => x.isZero && y.isZero
  | _, _ => false

theorem double_equals {x y : Double} :
    x.equals y = true ↔ (x.isZero && y.isZero) = true ∨ (x.isNaN = false ∧ x = y) := by
  have hzero : x.isZero = true → x.isNaN = false := by
    intro h
    simp only [Double.isZero, Bool.and_eq_true, decide_eq_true_eq] at h
    simp [Double.isNaN, h.1]
  simp only [Double.equals, Bool.and_eq_true, Bool.or_eq_true, Bool.not_eq_true',
    decide_eq_true_eq]
  tauto

theorem single_equals {x y : Single} :
    x.equals y = true ↔ (x.isZero && y.isZero) = true ∨ (x.isNaN = false ∧ x = y) := by
  have hzero : x.isZero = true → x.isNaN = false := by
    intro h
    simp only [Single.isZero, Bool.and_eq_true, decide_eq_true_eq] at h
    simp [Single.isNaN, h.1]
  simp only [Single.equals, Bool.and_eq_true, Bool.or_eq_true, Bool.not_eq_true',
    decide_eq_true_eq]
  tauto

variable {d d' : Datum}

/-- Zeros are equal in value. -/
theorem same_of_zeros (h : d.zeros d' = true) : d.same d' = true := by
  unfold zeros at h
  split at h
  · exact single_equals.mpr (Or.inl h)
  · exact double_equals.mpr (Or.inl h)
  · cases h

/-- Other scalars are equal in value only if they are equal bit for bit. -/
theorem eq_of_same (h : d.same d' = true) (hzeros : d.zeros d' = false) : d = d' := by
  unfold same at h
  split at h
  · rw [of_decide_eq_true h]
  · rw [of_decide_eq_true h]
  · rcases single_equals.mp h with hzero | ⟨-, rfl⟩
    · exact absurd hzero (Bool.eq_false_iff.mp hzeros)
    · rfl
  · rcases double_equals.mp h with hzero | ⟨-, rfl⟩
    · exact absurd hzero (Bool.eq_false_iff.mp hzeros)
    · rfl
  · rw [of_decide_eq_true h]
  · rw [of_decide_eq_true h]
  · cases h

/-- Different scalars are equal in value only if they are zeros. -/
theorem same_eq_zeros (h : d.identical d' = false) : d.same d' = d.zeros d' := by
  cases hzeros : d.zeros d' with
  | true => exact same_of_zeros hzeros
  | false =>
    by_contra hsame
    rw [Bool.not_eq_false] at hsame
    obtain rfl := eq_of_same hsame hzeros
    cases d <;> simp_all [identical, same]

end Datum

/-! ### Forms -/

/-- The payloads of a form. -/
def Form.Has : Form → Payload → Prop
  | .varint, .varint _ | .fixed64, .fixed64 _ | .fixed32, .fixed32 _ | .bytes, .bytes _ => True
  | _, _ => False

/-- A payload of a form is no group. -/
theorem Form.Has.depth {form : Form} {pl : Payload} (h : form.Has pl) : pl.depth = 0 := by
  cases pl with
  | group rs => cases form <;> exact h.elim
  | varint n | fixed64 n | bytes bs | fixed32 n => rfl

/-- The payload of a scalar has the form of its kind. -/
theorem Scalar.has_payload {k : Scalar} {d : Datum} (h : k.Admits d) :
    k.form.Has (k.payload d) := by
  cases hbounds : k.bounds? with
  | some b =>
    obtain ⟨low, high⟩ := b
    obtain ⟨i, rfl, -, -⟩ := h.exists_int hbounds
    cases k <;> trivial
  | none =>
    cases k <;> cases d <;> simp_all [Scalar.Admits, Scalar.bounds?, Scalar.form, Scalar.payload,
      Form.Has]

theorem exists_numbers {form : ℕ → Payload} {bound : ℕ} {ps : List Payload}
    (h : ∀ pl ∈ ps, ∃ n, pl = form n ∧ n < bound) :
    ∃ ns : List ℕ, ps = ns.map form ∧ ∀ n ∈ ns, n < bound := by
  induction ps with
  | nil => exact ⟨[], rfl, by simp⟩
  | cons pl ps ih =>
    obtain ⟨⟨n, rfl, hn⟩, hps⟩ := List.forall_mem_cons.mp h
    obtain ⟨ns, rfl, hns⟩ := ih hps
    exact ⟨n :: ns, rfl, List.forall_mem_cons.mpr ⟨hn, hns⟩⟩

/-- Payloads of one form, byte strings apart, come back from one byte string. -/
theorem unpacked?_bare {form : Form} (hform : form ≠ .bytes) {ps : List Payload}
    (h : ∀ pl ∈ ps, form.Has pl ∧ pl.InRange) :
    Pool.unpacked? form (ps.flatMap bare) = some ps := by
  cases form with
  | varint =>
    have hnumbers : ∀ pl ∈ ps, ∃ n, pl = Payload.varint n ∧ n < 2 ^ 64 := by
      intro pl hpl
      obtain ⟨hhas, hrange⟩ := h pl hpl
      cases pl with
      | varint n => exact ⟨n, rfl, hrange⟩
      | _ => exact hhas.elim
    obtain ⟨ns, rfl, hns⟩ := exists_numbers hnumbers
    rw [Pool.unpacked?, List.flatMap_map]
    change (readVarints? (ns.flatMap varint)).map _ = _
    rw [readVarints?_flatMap hns, Option.map_some]
  | fixed64 =>
    have hnumbers : ∀ pl ∈ ps, ∃ n, pl = Payload.fixed64 n ∧ n < 256 ^ 8 := by
      intro pl hpl
      obtain ⟨hhas, hrange⟩ := h pl hpl
      cases pl with
      | fixed64 n => exact ⟨n, rfl, hrange⟩
      | _ => exact hhas.elim
    obtain ⟨ns, rfl, hns⟩ := exists_numbers hnumbers
    rw [Pool.unpacked?, List.flatMap_map]
    change (readFixed? 8 (ns.flatMap (fixed 8))).map _ = _
    rw [readFixed?_flatMap (by decide) hns, Option.map_some]
  | fixed32 =>
    have hnumbers : ∀ pl ∈ ps, ∃ n, pl = Payload.fixed32 n ∧ n < 256 ^ 4 := by
      intro pl hpl
      obtain ⟨hhas, hrange⟩ := h pl hpl
      cases pl with
      | fixed32 n => exact ⟨n, rfl, hrange⟩
      | _ => exact hhas.elim
    obtain ⟨ns, rfl, hns⟩ := exists_numbers hnumbers
    rw [Pool.unpacked?, List.flatMap_map]
    change (readFixed? 4 (ns.flatMap (fixed 4))).map _ = _
    rw [readFixed?_flatMap (by decide) hns, Option.map_some]
  | bytes => exact absurd rfl hform

/-- Payloads that are read from one byte string are in range. -/
theorem inRange_of_unpacked? {form : Form} {bs : Bytes} {ps : List Payload}
    (h : Pool.unpacked? form bs = some ps) : ∀ pl ∈ ps, pl.InRange := by
  cases form with
  | varint =>
    obtain ⟨ns, hns, rfl⟩ := Option.map_eq_some_iff.mp h
    exact List.forall_mem_map.mpr (lt_of_readVarints? hns)
  | fixed64 =>
    obtain ⟨ns, hns, rfl⟩ := Option.map_eq_some_iff.mp h
    exact List.forall_mem_map.mpr (lt_of_readFixed? hns)
  | fixed32 =>
    obtain ⟨ns, hns, rfl⟩ := Option.map_eq_some_iff.mp h
    exact List.forall_mem_map.mpr (lt_of_readFixed? hns)
  | bytes => cases h

end Switchboard.Proto
