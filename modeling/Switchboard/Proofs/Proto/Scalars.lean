import Mathlib.Data.List.Nodup
import Switchboard.Proofs.Json.Scanning
import Switchboard.Proofs.Proto.Linking
import Switchboard.Proofs.Text.Base64
import Switchboard.Proto.Json.Scalar

/-!
# Scalars in JSON read back

What is written for a scalar or for an enum value is a truth value, a number or a
text, and reads back as the value that it was written from.  The two kinds of number
with a point are left out: their words for the infinities and for NaN are many to
one.

* `integerOf?_renderInt` — an integer as a text.
* `Scalar.read?_write`, `Scalar.ofKey?_keyText` — a scalar, and one that is a key.
* `EnumType.read?_write` — an enum value, by its name or by its number.
-/

namespace Switchboard.Proto

open Json

/-! ### Integers as texts -/

/-- Digits have no sign in front of them. -/
theorem sign_digitsOf (n : ℕ) : Literal.sign (Number.digitsOf n) = (false, Number.digitsOf n) := by
  cases hds : Number.digitsOf n with
  | nil => rfl
  | cons c cs =>
    have hc : Text.Ascii.isDigit c = true :=
      Number.isDigit_of_mem_digitsOf (n := n) (hds ▸ List.mem_cons_self)
    unfold Literal.sign
    split
    · next heq =>
      obtain ⟨rfl, -⟩ := List.cons.inj heq
      exact absurd hc (by decide)
    · next heq =>
      obtain ⟨rfl, -⟩ := List.cons.inj heq
      exact absurd hc (by decide)
    · rfl

theorem exponent?_renderInt (i : Int) : Literal.exponent? (Number.renderInt i) = some i := by
  have hdigits : Number.digitsOf i.natAbs ≠ []
      ∧ (Number.digitsOf i.natAbs).all Text.Ascii.isDigit = true :=
    ⟨Number.digitsOf_ne_nil _, List.all_eq_true.mpr fun _ hc => Number.isDigit_of_mem_digitsOf hc⟩
  unfold Number.renderInt
  split
  · have hsign : Literal.sign ('-' :: Number.digitsOf i.natAbs)
        = (true, Number.digitsOf i.natAbs) := rfl
    rw [Literal.exponent?, hsign]
    simp only [if_pos hdigits, Number.numberOf_digitsOf, if_true, Option.some.injEq]
    omega
  · rw [Literal.exponent?, sign_digitsOf]
    simp only [if_pos hdigits, Number.numberOf_digitsOf, Bool.false_eq_true, if_false,
      Option.some.injEq]
    omega

/-- An integer reads back from its text within any bounds that it keeps. -/
theorem integerOf?_renderInt {low high i : Int} (hlow : low ≤ i) (hhigh : i ≤ high) :
    integerOf? low high (String.ofList (Number.renderInt i)) = some i := by
  rw [integerOf?, String.toList_ofList, exponent?_renderInt]
  have hminus : low < 0 ∨ (Number.renderInt i).head? ≠ some '-' := by
    by_cases hi : i < 0
    · exact Or.inl (by omega)
    · refine Or.inr fun hhead => ?_
      rw [Number.renderInt, if_neg hi] at hhead
      have hc := Number.isDigit_of_mem_digitsOf (List.mem_of_head? hhead)
      exact absurd hc (by decide)
  exact if_pos ⟨hlow, hhigh, hminus⟩

/-! ### Byte strings as texts -/

theorem bytesOfText?_encode (bs : Bytes) : bytesOfText? (Text.Base64.encode bs) = some bs := by
  have hlength := Text.Base64.length_sextets bs
  have hunpadded : unpadded? (Text.Base64.encodeChars bs)
      = some ((Text.Base64.sextets bs).map Text.Base64.charOf) := by
    simp only [unpadded?, Text.Base64.unpadded_encodeChars]
    refine if_pos ?_
    rw [Text.Base64.encodeChars_eq, List.length_append, List.length_map, List.length_replicate]
    omega
  rw [bytesOfText?, Text.Base64.encode, String.toList_ofList, hunpadded, Option.bind_some,
    Text.Base64.decode?_unpadded]

/-! ### Scalars -/

/-- The kinds of number with a point. -/
def Scalar.isFloating : Scalar → Bool
  | .double | .float => true
  | _ => false

/-- The kinds that the keys of a map may have. -/
def Scalar.isKey : Scalar → Bool
  | .double | .float | .bytes => false
  | _ => true

/-- The written forms without anything inside. -/
def Value.isLeaf : Value → Bool
  | .bool _ | .number _ | .string _ => true
  | _ => false

/-- The values of a kind of integer. -/
theorem Scalar.Admits.exists_int {k : Scalar} {d : Datum} (h : k.Admits d) {low high : Int}
    (hk : k.bounds? = some (low, high)) : ∃ i, d = .int i ∧ low ≤ i ∧ i ≤ high := by
  cases k <;> cases d <;> simp_all [Scalar.Admits, Scalar.bounds?]

theorem integerOfNumber?_int {low high i : Int} (hlow : low ≤ i) (hhigh : i ≤ high) :
    integerOfNumber? low high (.int i) = some i := if_pos ⟨hlow, hhigh⟩

/-- A scalar reads back from what is written for it. -/
theorem Scalar.read?_write {k : Scalar} {d : Datum} (h : k.Admits d)
    (hk : k.isFloating = false) :
    Value.isLeaf (k.write d) = true ∧ k.read? (.ofValue (k.write d)) = some d := by
  cases hbounds : k.bounds? with
  | some b =>
    obtain ⟨low, high⟩ := b
    obtain ⟨i, rfl, hlow, hhigh⟩ := h.exists_int hbounds
    have hnumber := integerOfNumber?_int hlow hhigh
    have htext := integerOf?_renderInt hlow hhigh
    -- Thirteen kinds are left, and each is written in one of the two ways.
    cases k <;> simp_all [Scalar.bounds?, Scalar.write, Scalar.isWide, Scalar.read?, Value.int,
      Value.isLeaf, Document.ofValue]
  | none =>
    cases k with
    | bool | string =>
      cases d <;> simp_all [Scalar.Admits, Scalar.write, Scalar.read?, Value.isLeaf,
        Document.ofValue, Scalar.bounds?]
    | bytes =>
      cases d <;> simp_all [Scalar.Admits, Scalar.write, Scalar.read?, Value.isLeaf,
        Document.ofValue, Scalar.bounds?, bytesOfText?_encode]
    | double | float => simp [Scalar.isFloating] at hk
    | _ => simp [Scalar.bounds?] at hbounds

/-- A key reads back from its text. -/
theorem Scalar.ofKey?_keyText {k : Scalar} {d : Datum} (h : k.Admits d) (hk : k.isKey = true) :
    k.ofKey? d.keyText = some d := by
  cases hbounds : k.bounds? with
  | some b =>
    obtain ⟨low, high⟩ := b
    obtain ⟨i, rfl, hlow, hhigh⟩ := h.exists_int hbounds
    have htext := integerOf?_renderInt hlow hhigh
    cases k <;> simp_all [Scalar.bounds?, Scalar.ofKey?, Datum.keyText]
  | none =>
    cases k with
    | string =>
      cases d <;> simp_all [Scalar.Admits, Scalar.ofKey?, Datum.keyText, Scalar.bounds?]
    | bool =>
      cases d with
      | bool b => cases b <;> simp [Scalar.ofKey?, Datum.keyText]
      | _ => simp [Scalar.Admits, Scalar.bounds?] at h
    | double | float | bytes => simp [Scalar.isKey] at hk
    | _ => simp [Scalar.bounds?] at hbounds

/-! ### Enum values -/

/-- The name that is found for a number has that number, where no name is given
twice. -/
theorem EnumType.number?_of_name? {e : EnumType} (hnodup : (e.values.map Prod.fst).Nodup)
    {i : Int} {s : String} (h : e.name? i = some s) : e.number? s = some i := by
  obtain ⟨v, hv, rfl⟩ := Option.map_eq_some_iff.mp h
  have hmem := List.mem_of_find?_eq_some hv
  have hi : v.2 = i := by simpa using List.find?_some hv
  have hsome : (e.values.find? fun w => decide (w.1 = v.1)).isSome = true := by
    rw [List.find?_isSome]
    exact ⟨v, hmem, by simp⟩
  obtain ⟨w, hw⟩ := Option.isSome_iff_exists.mp hsome
  have hname : w.1 = v.1 := by simpa using List.find?_some hw
  have hwv : w = v := List.inj_on_of_nodup_map hnodup (List.mem_of_find?_eq_some hw) hmem hname
  rw [EnumType.number?, hw, hwv, Option.map_some, hi]

theorem EnumType.Names.isSome_name? {e : EnumType} {i : Int} (h : e.Names (.int i)) :
    (e.name? i).isSome = true := by
  obtain ⟨s, j, hmem, hj⟩ := h
  obtain rfl := Datum.int.inj hj
  rw [EnumType.name?, Option.isSome_map, List.find?_isSome]
  exact ⟨_, hmem, by simp⟩

/-- The numbers that an enum value may have, named or not. -/
def IsEnumNumber (i : Int) : Prop := -(2 ^ 31) ≤ i ∧ i < 2 ^ 31

/-- An enum value reads back from what is written for it. -/
theorem EnumType.read?_write {e : EnumType} (hnodup : (e.values.map Prod.fst).Nodup)
    (hnull : e.name ≠ nullEnum) {i : Int} (h : IsEnumNumber i ∨ e.Names (.int i)) :
    Value.isLeaf (e.write (.int i)) = true
      ∧ e.read? (.ofValue (e.write (.int i))) = some (.int i) := by
  rw [EnumType.write, if_neg hnull]
  cases hname : e.name? i with
  | some s =>
    refine ⟨rfl, ?_⟩
    rw [Document.ofValue, EnumType.read?, number?_of_name? hnodup hname, Option.map_some]
  | none =>
    refine ⟨rfl, ?_⟩
    rcases h with h | h
    · exact if_pos h
    · have hsome := h.isSome_name?
      rw [hname] at hsome
      simp at hsome

end Switchboard.Proto
