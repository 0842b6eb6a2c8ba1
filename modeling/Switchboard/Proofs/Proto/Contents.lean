import Mathlib.Data.List.Nodup
import Switchboard.Proofs.Proto.Scalars
import Switchboard.Proto.Json.Reading

/-!
# Messages of a type

A message fits a type if it holds, in order, contents of fields of that type, each of
the kind that the field declares and none that the field has anyway, and of each
oneof one member at most.

## Main definitions

* `Datum.Fits`, `Content.Fits`, `Message.Fits` — the values of a type, the contents of
  a field, the messages of a type.
* `FieldType.IsPlain`, `MessageType.IsPlain`, `Pool.AllPlain` — the types whose form in
  JSON is an object of the fields, told apart by their names.

## Main results

* `Message.Ordered.ext` — an ordered message is known by what it holds.
* `Message.get?_set_of_free` — what is held once a field has been set while its oneof
  was free.
-/

namespace Switchboard.Proto

/-! ### Ordered messages -/

namespace Message

theorem mem_of_get? {n : ℕ} {c : Content} {m : Message} (h : m.get? n = some c) :
    (n, c) ∈ m := by
  induction m with
  | nil => simp at h
  | cons e m ih =>
    obtain ⟨n', c'⟩ := e
    rw [get?_cons] at h
    split at h
    · next hn =>
      rw [hn, Option.some.inj h]
      exact List.mem_cons_self
    · exact List.mem_cons_of_mem _ (ih h)

theorem ne_of_get?_eq_none {n : ℕ} {m : Message} (h : m.get? n = none) : ∀ e ∈ m, e.1 ≠ n := by
  induction m with
  | nil => simp
  | cons e m ih =>
    obtain ⟨n', c'⟩ := e
    rw [get?_cons] at h
    split at h
    · cases h
    · next hn => exact List.forall_mem_cons.mpr ⟨Ne.symm hn, ih h⟩

theorem get?_of_mem {n : ℕ} {c : Content} {m : Message} (hm : m.Ordered) (h : (n, c) ∈ m) :
    m.get? n = some c := by
  induction m with
  | nil => simp at h
  | cons e m ih =>
    obtain ⟨n', c'⟩ := e
    obtain ⟨hlt, htail⟩ := List.pairwise_cons.mp hm
    rw [get?_cons]
    rcases List.mem_cons.mp h with heq | h
    · obtain ⟨rfl, rfl⟩ := Prod.mk.inj heq
      exact if_pos rfl
    · have hne : n ≠ n' := Nat.ne_of_gt (hlt _ h)
      rw [if_neg hne]
      exact ih htail h

theorem Ordered.nodup {m : Message} (h : m.Ordered) : List.Nodup m := by
  refine List.Pairwise.imp (fun {a b} hab heq => ?_) h
  rw [heq] at hab
  exact Nat.lt_irrefl _ hab

/-- An ordered message is known by what it holds under each number. -/
theorem Ordered.ext {m m' : Message} (hm : m.Ordered) (hm' : m'.Ordered)
    (h : ∀ n, m.get? n = m'.get? n) : m = m' := by
  have hmem : ∀ e, e ∈ m ↔ e ∈ m' := by
    intro ⟨n, c⟩
    constructor
    · intro he
      have hn := get?_of_mem hm he
      rw [h n] at hn
      exact mem_of_get? hn
    · intro he
      have hn := get?_of_mem hm' he
      rw [← h n] at hn
      exact mem_of_get? hn
  have hperm := (List.perm_ext_iff_of_nodup hm.nodup hm'.nodup).mpr hmem
  refine hperm.eq_of_pairwise (fun a b _ _ hab hba => ?_) hm hm'
  exact absurd (Nat.lt_trans hab hba) (Nat.lt_irrefl _)

theorem Ordered.drop {m : Message} (h : m.Ordered) (n : ℕ) : (m.drop n).Ordered :=
  List.Pairwise.filter _ h

theorem mem_put {n : ℕ} {c : Content} {m : Message} {e : ℕ × Content} (h : e ∈ m.put n c) :
    e = (n, c) ∨ e ∈ m := by
  induction m with
  | nil => simpa [put] using h
  | cons e' m ih =>
    obtain ⟨n', c'⟩ := e'
    rw [put] at h
    split at h
    · exact List.mem_cons.mp h
    · split at h
      · exact (List.mem_cons.mp h).imp_right (List.mem_cons_of_mem _)
      · rcases List.mem_cons.mp h with rfl | h
        · exact Or.inr List.mem_cons_self
        · exact (ih h).imp_right (List.mem_cons_of_mem _)

theorem Ordered.put {m : Message} (h : m.Ordered) (n : ℕ) (c : Content) :
    (m.put n c).Ordered := by
  induction m with
  | nil => exact List.pairwise_singleton _ _
  | cons e m ih =>
    obtain ⟨n', c'⟩ := e
    obtain ⟨hlt, htail⟩ := List.pairwise_cons.mp h
    rw [Message.put]
    split
    · next hn =>
      refine List.pairwise_cons.mpr ⟨fun e he => ?_, h⟩
      rcases List.mem_cons.mp he with rfl | he
      · exact hn
      · exact Nat.lt_trans hn (hlt e he)
    · next hn =>
      split
      · next heq =>
        subst heq
        exact List.pairwise_cons.mpr ⟨hlt, htail⟩
      · next hne =>
        refine List.pairwise_cons.mpr ⟨fun e he => ?_, ih htail⟩
        rcases mem_put he with rfl | he
        · exact Nat.lt_of_le_of_ne (Nat.le_of_not_lt hn) (Ne.symm hne)
        · exact hlt e he

/-! ### Setting a field -/

/-- What is held after some numbers that held nothing were dropped. -/
theorem get?_foldl_drop {gs : List Field} {m : Message}
    (h : ∀ g ∈ gs, m.get? g.number = none) (n : ℕ) :
    (gs.foldl (fun m g => m.drop g.number) m).get? n = m.get? n := by
  induction gs generalizing m with
  | nil => rfl
  | cons g gs ih =>
    obtain ⟨hg, hgs⟩ := List.forall_mem_cons.mp h
    have hdrop : ∀ k, (m.drop g.number).get? k = m.get? k := by
      intro k
      rw [get?_drop]
      split
      · next hk => rw [hk, hg]
      · rfl
    rw [List.foldl_cons, ih fun g' hg' => (hdrop _).trans (hgs g' hg')]
    exact hdrop n

theorem Ordered.foldl_drop {gs : List Field} {m : Message} (h : m.Ordered) :
    (gs.foldl (fun m g => m.drop g.number) m).Ordered := by
  induction gs generalizing m with
  | nil => exact h
  | cons g gs ih => exact ih (h.drop _)

theorem Ordered.set {m : Message} (h : m.Ordered) (t : MessageType) (f : Field) (c : Content) :
    (m.set t f c).Ordered := by
  have hcleared : (m.clearOthers t f).Ordered := by
    unfold clearOthers
    split
    · exact h
    · exact h.foldl_drop
  unfold Message.set hold
  split
  · exact hcleared.put _ _
  · exact hcleared.drop _

/-- The oneof of a field has no value, if the field is in one. -/
def IsFree (t : MessageType) (f : Field) (m : Message) : Prop :=
  ∀ i, f.oneof = some i → m.choosesFrom t i = false

/-- What is held after a field was set whose oneof was free: its content, unless that is
one that the field has anyway, and what was there before under any other number. -/
theorem get?_set_of_free {t : MessageType} {f : Field} {m : Message} (h : m.IsFree t f)
    (c : Content) (n : ℕ) :
    (m.set t f c).get? n = if n = f.number then (some c).filter f.holds else m.get? n := by
  have hclear : ∀ k, (m.clearOthers t f).get? k = m.get? k := by
    unfold clearOthers
    split
    · exact fun _ => rfl
    · next i hi =>
      refine get?_foldl_drop fun g hg => ?_
      have hfree := h i hi
      rw [choosesFrom, List.any_eq_false] at hfree
      simpa using hfree g (List.mem_of_mem_filter hg)
  unfold set hold
  by_cases hc : f.holds c = true
  · rw [if_pos hc, get?_put, hclear, Option.filter_some, if_pos hc]
  · rw [if_neg hc, get?_drop, hclear, Option.filter_some, if_neg hc]

end Message

/-! ### What fits a type -/

/-- Of each oneof at most one field has a value. -/
def MessageType.OneOfEach (t : MessageType) (held : ℕ → Option Content) : Prop :=
  ∀ f ∈ t.fields, ∀ g ∈ t.fields, f.oneof ≠ none → f.oneof = g.oneof →
    (held f.number).isSome = true → (held g.number).isSome = true → f.number = g.number

/-- The values of a type that are not messages. -/
def FieldType.Admits (type : FieldType) (d : Datum) : Prop :=
  match type with
  | .scalar k => k.Admits d
  | .enumeration _ => ∃ i, d = .int i ∧ IsEnumNumber i
  | .message _ | .group _ => False

mutual

/-- The values of a type. -/
def Datum.Fits (p : Pool) (type : FieldType) : Datum → Prop
  | .message m =>
    match type with
    | .message name | .group name =>
      ∃ t, p.message? name = some t ∧ Message.Ordered m
        ∧ t.OneOfEach (fun n => Message.get? n m) ∧ contentsFit p t m
    | _ => False
  | d => type.Admits d

/-- The values of a list. -/
def elementsFit (p : Pool) (type : FieldType) : List Datum → Prop
  | [] => True
  | d :: ds => d.Fits p type ∧ elementsFit p type ds

/-- The values of a map, each under the text of a key. -/
def entriesFit (p : Pool) (key : Scalar) (type : FieldType) : List (String × Datum) → Prop
  | [] => True
  | (k, d) :: es =>
    (∃ x, key.Admits x ∧ x.keyText = k) ∧ d.Fits p type ∧ entriesFit p key type es

/-- The contents of a field. -/
def Content.Fits (p : Pool) (f : Field) : Content → Prop
  | .one d => f.shape = .single ∧ d.Fits p f.type
  | .list ds => f.shape = .list ∧ elementsFit p f.type ds
  | .map es => ∃ key, f.shape = .map key ∧ key.isKey = true ∧ Dictionary.Ordered es
      ∧ entriesFit p key f.type es
  | .unknown _ => False

/-- The contents of a message of a type: no field is unknown, and none holds what it has
anyway. -/
def contentsFit (p : Pool) (t : MessageType) : List (ℕ × Content) → Prop
  | [] => True
  | (n, c) :: m =>
    (∃ f, t.field? n = some f ∧ f.holds c = true ∧ c.Fits p f) ∧ contentsFit p t m

end

/-- The messages of a type. -/
structure Message.Fits (p : Pool) (t : MessageType) (m : Message) : Prop where
  ordered : m.Ordered
  oneOfEach : t.OneOfEach fun n => m.get? n
  contents : contentsFit p t m

/-- The message that holds nothing fits every type. -/
theorem Message.fits_nil (p : Pool) (t : MessageType) : Message.Fits p t [] :=
  ⟨List.Pairwise.nil, fun _ _ _ _ _ _ hheld => by simp at hheld, trivial⟩

theorem Datum.fits_message_iff {p : Pool} {type : FieldType} {m : Message} :
    (Datum.message m).Fits p type ↔
      ∃ name, (type = .message name ∨ type = .group name)
        ∧ ∃ t, p.message? name = some t ∧ m.Fits p t := by
  unfold Datum.Fits
  constructor
  · intro h
    cases type with
    | message name =>
      obtain ⟨t, ht, hordered, hone, hcontents⟩ := h
      exact ⟨name, Or.inl rfl, t, ht, hordered, hone, hcontents⟩
    | group name =>
      obtain ⟨t, ht, hordered, hone, hcontents⟩ := h
      exact ⟨name, Or.inr rfl, t, ht, hordered, hone, hcontents⟩
    | scalar k => exact h.elim
    | enumeration name => exact h.elim
  · rintro ⟨name, rfl | rfl, t, ht, hm⟩
    · exact ⟨t, ht, hm.ordered, hm.oneOfEach, hm.contents⟩
    · exact ⟨t, ht, hm.ordered, hm.oneOfEach, hm.contents⟩

theorem contentsFit.of_mem {p : Pool} {t : MessageType} {m : Message} (h : contentsFit p t m)
    {n : ℕ} {c : Content} (hc : (n, c) ∈ m) :
    ∃ f, t.field? n = some f ∧ f.holds c = true ∧ c.Fits p f := by
  induction m with
  | nil => simp at hc
  | cons e m ih =>
    obtain ⟨n', c'⟩ := e
    rw [contentsFit] at h
    rcases List.mem_cons.mp hc with heq | hc
    · obtain ⟨rfl, rfl⟩ := Prod.mk.inj heq
      exact h.1
    · exact ih h.2 hc

/-! ### Plain types -/

/-- The full names of the types that come with the language. -/
def IsStandard (name : String) : Prop := "google.protobuf.".toList <+: name.toList

instance (name : String) : Decidable (IsStandard name) :=
  inferInstanceAs (Decidable (_ <+: _))

theorem ofName?_of_not_standard {name : String} (h : ¬ IsStandard name) :
    Special.ofName? name = none := by
  rw [Special.ofName?, List.findSome?_eq_none_iff]
  intro e _
  refine if_neg fun hname => h ?_
  rw [IsStandard, hname, String.toList_append]
  exact List.prefix_append ..

theorem ne_nullEnum_of_not_standard {name : String} (h : ¬ IsStandard name) :
    name ≠ nullEnum := by
  rintro rfl
  exact h (by decide)

/-- The types of values that have no number with a point and no form of their own. -/
def FieldType.IsPlain : FieldType → Prop
  | .scalar k => k.isFloating = false
  | .enumeration name | .message name | .group name => ¬ IsStandard name

instance (type : FieldType) : Decidable type.IsPlain :=
  match type with
  | .scalar k => inferInstanceAs (Decidable (k.isFloating = false))
  | .enumeration name | .message name | .group name =>
    inferInstanceAs (Decidable (¬ IsStandard name))

/-- The types of messages with fields of such types, where a declared name is no other
field's name for JSON. -/
structure MessageType.IsPlain (t : MessageType) : Prop where
  types : ∀ f ∈ t.fields, f.type.IsPlain
  names : ∀ f ∈ t.fields, ∀ g ∈ t.fields, g.jsonName = f.name → g.name = f.name

namespace Pool

/-- The type of the messages that a field type has as values. -/
def messageOf? (p : Pool) : FieldType → Option MessageType
  | .message name | .group name => p.message? name
  | _ => none

/-- The types that a type reaches through the types of its fields. -/
inductive Reaches (p : Pool) : MessageType → MessageType → Prop
  | refl (t : MessageType) : Reaches p t t
  | step {t t' t'' : MessageType} {f : Field} (hf : f ∈ t.fields)
      (ht : p.messageOf? f.type = some t') (h : Reaches p t' t'') : Reaches p t t''

/-- All types that a type reaches are plain. -/
def AllPlain (p : Pool) (t : MessageType) : Prop := ∀ t', p.Reaches t t' → t'.IsPlain

/-- A field type is plain, and so are all types that its messages reach; an enum is
known and has no two values of one name. -/
structure Carries (p : Pool) (type : FieldType) : Prop where
  plain : type.IsPlain
  reached : ∀ t, p.messageOf? type = some t → p.AllPlain t
  enum : ∀ name, type = .enumeration name →
    ∃ e, p.enum? name = some e ∧ (e.values.map Prod.fst).Nodup

/-- Only types of the pool are reached from one. -/
theorem Reaches.mem {p : Pool} {t t' : MessageType} (h : p.Reaches t t')
    (ht : t ∈ p.messages) : t' ∈ p.messages := by
  induction h with
  | refl t => exact ht
  | @step t t₁ t₂ f hf ht₁ _ ih =>
    refine ih ?_
    unfold messageOf? at ht₁
    split at ht₁
    · exact List.mem_of_find?_eq_some ht₁
    · exact List.mem_of_find?_eq_some ht₁
    · simp at ht₁

theorem AllPlain.isPlain {p : Pool} {t : MessageType} (h : p.AllPlain t) : t.IsPlain :=
  h t (.refl t)

theorem AllPlain.carries {p : Pool} {t : MessageType} (h : p.AllPlain t) (ht : t.Linked p)
    {f : Field} (hf : f ∈ t.fields) : p.Carries f.type where
  plain := h.isPlain.types f hf
  reached := fun _ ht' _ hreach => h _ (.step hf ht' hreach)
  enum := fun name hname => by
    obtain ⟨e, he, hnodup, -⟩ := (ht.fields f hf).enum name hname
    exact ⟨e, he, hnodup⟩

end Pool

/-! ### Fields of a linked type -/

theorem mem_of_field? {t : MessageType} {n : ℕ} {f : Field} (h : t.field? n = some f) :
    f ∈ t.fields ∧ f.number = n :=
  ⟨List.mem_of_find?_eq_some h, by simpa using List.find?_some h⟩

theorem MessageType.Linked.eq_of_number {p : Pool} {t : MessageType} (h : t.Linked p)
    {f g : Field} (hf : f ∈ t.fields) (hg : g ∈ t.fields) (hn : f.number = g.number) : f = g :=
  List.inj_on_of_nodup_map h.numbers hf hg hn

theorem MessageType.Linked.eq_of_name {p : Pool} {t : MessageType} (h : t.Linked p)
    {f g : Field} (hf : f ∈ t.fields) (hg : g ∈ t.fields) (hn : f.name = g.name) : f = g :=
  List.inj_on_of_nodup_map h.names hf hg hn

theorem MessageType.Linked.field?_number {p : Pool} {t : MessageType} (h : t.Linked p)
    {f : Field} (hf : f ∈ t.fields) : t.field? f.number = some f := by
  have hsome : (t.field? f.number).isSome = true := by
    rw [MessageType.field?, List.find?_isSome]
    exact ⟨f, hf, by simp⟩
  obtain ⟨g, hg⟩ := Option.isSome_iff_exists.mp hsome
  obtain ⟨hmem, hn⟩ := mem_of_field? hg
  rw [hg, h.eq_of_number hmem hf hn]

/-- The declared name of a field of a plain type means that field. -/
theorem MessageType.Linked.named?_name {p : Pool} {t : MessageType} (h : t.Linked p)
    (hplain : t.IsPlain) {f : Field} (hf : f ∈ t.fields) : t.named? f.name = some f := by
  unfold MessageType.named?
  split
  · next g hg =>
    have hmem : g ∈ t.fields := List.mem_reverse.mp (List.mem_of_find?_eq_some hg)
    have hjson : g.jsonName = f.name := by simpa using List.find?_some hg
    rw [h.eq_of_name hmem hf (hplain.names f hf g hmem hjson)]
  · have hsome : (t.fields.find? fun g => decide (g.name = f.name)).isSome = true := by
      rw [List.find?_isSome]
      exact ⟨f, hf, by simp⟩
    obtain ⟨g, hg⟩ := Option.isSome_iff_exists.mp hsome
    have hname : g.name = f.name := by simpa using List.find?_some hg
    rw [hg, h.eq_of_name (List.mem_of_find?_eq_some hg) hf hname]

end Switchboard.Proto
