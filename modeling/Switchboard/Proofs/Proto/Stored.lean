import Switchboard.Proofs.Proto.Contents
import Switchboard.Proofs.Proto.Regular
import Switchboard.Proofs.Dictionary

/-!
# What a reader leaves in a message

Whether a message is read from JSON or from bytes, it holds in order, under the numbers of
fields, values of the kinds that the fields declare; of each oneof it holds one member at
most; and under other numbers it holds payloads that no field takes.

## Main definitions

* `Datum.Stored`, `Content.Stored`, `Message.Stored` — the values, contents and messages that
  readers give.

## Main results

* `Message.Stored.set` — setting a field keeps a message so.
* `FieldType.Starts.stored` — so is what reading a field starts from.
-/

namespace Switchboard.Proto

open Wire

mutual

/-- The values of a type that readers give. -/
def Datum.Stored (p : Pool) (type : FieldType) : Datum → Prop
  | .message m =>
    match type with
    | .message name | .group name =>
      ∃ t, p.message? name = some t ∧ Message.Ordered m
        ∧ t.OneOfEach (fun n => Message.get? n m) ∧ contentsStored p t m
    | _ => False
  | d => type.Admits d

/-- The values of a list. -/
def elementsStored (p : Pool) (type : FieldType) : List Datum → Prop
  | [] => True
  | d :: ds => d.Stored p type ∧ elementsStored p type ds

/-- The values of a map, each under the text of a key. -/
def entriesStored (p : Pool) (key : Scalar) (type : FieldType) : List (String × Datum) → Prop
  | [] => True
  | (k, d) :: es =>
    ((∃ x, key.Admits x ∧ x.keyText = k) ∧ d.Stored p type) ∧ entriesStored p key type es

/-- The contents of a shape and a type. -/
def Content.Stored (p : Pool) (shape : Shape) (type : FieldType) : Content → Prop
  | .one d => shape = .single ∧ d.Stored p type
  | .list ds => shape = .list ∧ elementsStored p type ds
  | .map es => ∃ key, shape = .map key ∧ Dictionary.Ordered es ∧ entriesStored p key type es
  | .unknown _ => False

/-- The contents of a message: of a field those that it holds, and payloads under a number
that is no field's. -/
def contentsStored (p : Pool) (t : MessageType) : List (ℕ × Content) → Prop
  | [] => True
  | (n, c) :: m =>
    (match t.field? n with
      | some f => f.holds c = true ∧ c.Stored p f.shape f.type
      | none => IsFieldNumber n ∧ ∃ ps, c = .unknown ps ∧ ps ≠ [] ∧ ∀ pl ∈ ps, pl.InRange)
    ∧ contentsStored p t m

end

/-- What stands under a number in a message of a type. -/
def Content.StoredAt (p : Pool) (t : MessageType) (n : ℕ) (c : Content) : Prop :=
  match t.field? n with
  | some f => f.holds c = true ∧ c.Stored p f.shape f.type
  | none => IsFieldNumber n ∧ ∃ ps, c = .unknown ps ∧ ps ≠ [] ∧ ∀ pl ∈ ps, pl.InRange

/-- The messages of a type that readers give. -/
structure Message.Stored (p : Pool) (t : MessageType) (m : Message) : Prop where
  ordered : m.Ordered
  oneOfEach : t.OneOfEach fun n => m.get? n
  contents : ∀ e ∈ m, e.2.StoredAt p t e.1

variable {p : Pool} {t : MessageType} {m : Message}

theorem contentsStored_iff : contentsStored p t m ↔ ∀ e ∈ m, e.2.StoredAt p t e.1 := by
  induction m with
  | nil => simp [contentsStored]
  | cons e m ih =>
    obtain ⟨n, c⟩ := e
    rw [contentsStored, ih, List.forall_mem_cons]
    exact Iff.rfl

theorem elementsStored_iff {type : FieldType} {ds : List Datum} :
    elementsStored p type ds ↔ ∀ d ∈ ds, d.Stored p type := by
  induction ds with
  | nil => simp [elementsStored]
  | cons d ds ih => rw [elementsStored, ih, List.forall_mem_cons]

theorem entriesStored_iff {key : Scalar} {type : FieldType} {es : List (String × Datum)} :
    entriesStored p key type es ↔
      ∀ e ∈ es, (∃ x, key.Admits x ∧ x.keyText = e.1) ∧ e.2.Stored p type := by
  induction es with
  | nil => simp [entriesStored]
  | cons e es ih =>
    obtain ⟨k, d⟩ := e
    rw [entriesStored, ih, List.forall_mem_cons]

theorem Datum.stored_message_iff {type : FieldType} :
    (Datum.message m).Stored p type ↔
      ∃ name, (type = .message name ∨ type = .group name)
        ∧ ∃ t, p.message? name = some t ∧ m.Stored p t := by
  unfold Datum.Stored
  constructor
  · intro h
    cases type with
    | message name =>
      obtain ⟨t, ht, hordered, hone, hcontents⟩ := h
      exact ⟨name, Or.inl rfl, t, ht, hordered, hone, contentsStored_iff.mp hcontents⟩
    | group name =>
      obtain ⟨t, ht, hordered, hone, hcontents⟩ := h
      exact ⟨name, Or.inr rfl, t, ht, hordered, hone, contentsStored_iff.mp hcontents⟩
    | scalar k => exact h.elim
    | enumeration name => exact h.elim
  · rintro ⟨name, rfl | rfl, t, ht, hm⟩
    · exact ⟨t, ht, hm.ordered, hm.oneOfEach, contentsStored_iff.mpr hm.contents⟩
    · exact ⟨t, ht, hm.ordered, hm.oneOfEach, contentsStored_iff.mpr hm.contents⟩

/-- A value of a type that is no message. -/
theorem FieldType.Admits.stored {type : FieldType} {d : Datum} (h : type.Admits d) :
    d.Stored p type := by
  cases d with
  | message m =>
    cases type with
    | scalar k => cases k <;> exact h.elim
    | enumeration name =>
      obtain ⟨i, hi, -⟩ := h
      cases hi
    | message name | group name => exact h.elim
  | _ => exact h

theorem Linking.exists_name_of_isMessage {type : FieldType} (h : isMessage type = true) :
    ∃ name, type = .message name ∨ type = .group name := by
  cases type with
  | message name => exact ⟨name, Or.inl rfl⟩
  | group name => exact ⟨name, Or.inr rfl⟩
  | scalar k | enumeration name => cases h

/-- A value of a type of scalars or enum numbers. -/
theorem Datum.Stored.admits {type : FieldType} {d : Datum} (h : d.Stored p type)
    (htype : Linking.isMessage type = false) : type.Admits d := by
  cases d with
  | message m =>
    obtain ⟨name, rfl | rfl, -⟩ := Datum.stored_message_iff.mp h
    · cases htype
    · cases htype
  | _ => exact h

/-- A value of a type of messages. -/
theorem Datum.Stored.exists_message {name : String} {type : FieldType}
    (htype : type = .message name ∨ type = .group name) {d : Datum} (h : d.Stored p type) :
    ∃ (m : Message) (t : MessageType), d = .message m ∧ p.message? name = some t
      ∧ m.Stored p t := by
  cases d with
  | message m =>
    obtain ⟨name', hname', t, ht, hm⟩ := Datum.stored_message_iff.mp h
    have hname : name' = name := by
      rcases htype with rfl | rfl
      · rcases hname' with h | h
        · exact (FieldType.message.inj h).symm
        · cases h
      · rcases hname' with h | h
        · cases h
        · exact (FieldType.group.inj h).symm
    exact ⟨m, t, rfl, hname ▸ ht, hm⟩
  | _ =>
    rcases htype with rfl | rfl
    · exact h.elim
    · exact h.elim

/-- The message that holds nothing is one that readers give. -/
theorem Message.stored_nil (p : Pool) (t : MessageType) : Message.Stored p t [] :=
  ⟨List.Pairwise.nil, fun _ _ _ _ _ _ hheld => by simp at hheld, nofun⟩

/-- What reading a field starts from. -/
theorem FieldType.Starts.stored {type : FieldType} {d : Datum} (h : type.Starts d)
    (hknown : ∀ name, type = .message name ∨ type = .group name →
      ∃ t, p.message? name = some t) : d.Stored p type := by
  cases type with
  | scalar k => exact FieldType.Admits.stored h
  | enumeration name => exact FieldType.Admits.stored h
  | message name =>
    obtain ⟨t, ht⟩ := hknown name (Or.inl rfl)
    rw [show d = .message [] from h]
    exact Datum.stored_message_iff.mpr ⟨name, Or.inl rfl, t, ht, Message.stored_nil p t⟩
  | group name =>
    obtain ⟨t, ht⟩ := hknown name (Or.inr rfl)
    rw [show d = .message [] from h]
    exact Datum.stored_message_iff.mpr ⟨name, Or.inr rfl, t, ht, Message.stored_nil p t⟩

/-! ### Setting a field -/

namespace Message

/-- What is held after some numbers were dropped. -/
theorem get?_foldl_drop_eq {gs : List Field} {n : ℕ} :
    (gs.foldl (fun m g => m.drop g.number) m).get? n =
      if n ∈ gs.map Field.number then none else m.get? n := by
  induction gs generalizing m with
  | nil => simp
  | cons g gs ih =>
    rw [List.foldl_cons, ih, get?_drop, List.map_cons]
    by_cases hn : n = g.number
    · simp [hn]
    · simp [hn]

/-- What a oneof held is dropped when another of its fields is set. -/
theorem get?_set_other {f g : Field} (hg : g ∈ t.fields) {i : ℕ} (hf : f.oneof = some i)
    (hgi : g.oneof = some i) (hne : g.number ≠ f.number) (c : Content) :
    (m.set t f c).get? g.number = none := by
  have hother : g.number ∈ ((t.oneofFields i).filter (·.number ≠ f.number)).map Field.number := by
    refine List.mem_map_of_mem (List.mem_filter.mpr ⟨?_, by simpa using hne⟩)
    exact List.mem_filter.mpr ⟨hg, by simpa using hgi⟩
  have hclear : (m.clearOthers t f).get? g.number = none := by
    unfold clearOthers
    rw [hf]
    dsimp only
    rw [get?_foldl_drop_eq, if_pos hother]
  unfold set hold
  split
  · rw [get?_put, if_neg hne, hclear]
  · rw [get?_drop, if_neg hne, hclear]

/-- What a message holds once a field has been set was there before, or is what the field was
set to. -/
theorem mem_set {f : Field} {c : Content} {e : ℕ × Content} (h : e ∈ m.set t f c) :
    (e = (f.number, c) ∧ f.holds c = true) ∨ e ∈ m := by
  have hdrops : ∀ {gs : List Field} {m : Message},
      e ∈ gs.foldl (fun m g => m.drop g.number) m → e ∈ m := by
    intro gs
    induction gs with
    | nil => exact id
    | cons g gs ih => exact fun h => List.mem_of_mem_filter (ih h)
  have hclear : e ∈ m.clearOthers t f → e ∈ m := by
    unfold clearOthers
    split
    · exact id
    · exact hdrops
  unfold set hold at h
  split at h
  · next hc => exact (mem_put h).imp (fun he => ⟨he, hc⟩) hclear
  · exact Or.inr (hclear (List.mem_of_mem_filter h))

/-- What a message holds under another number once a field has been set was there before. -/
theorem get?_set_of_ne {f : Field} {c : Content} {n : ℕ} (hn : n ≠ f.number)
    (h : ((m.set t f c).get? n).isSome = true) : (m.get? n).isSome = true := by
  have hclear : ((m.clearOthers t f).get? n).isSome = true → (m.get? n).isSome = true := by
    unfold clearOthers
    split
    · exact id
    · rw [get?_foldl_drop_eq]
      split
      · simp
      · exact id
  unfold set hold at h
  split at h
  · rw [get?_put, if_neg hn] at h
    exact hclear h
  · rw [get?_drop, if_neg hn] at h
    exact hclear h

/-- A message with a field set to a content of its kind is one that readers give, if it was
one before. -/
theorem Stored.set (ht : t.Linked p) (hm : m.Stored p t) {f : Field} (hf : f ∈ t.fields)
    {c : Content} (hc : f.holds c = true → c.Stored p f.shape f.type) :
    (m.set t f c).Stored p t where
  ordered := hm.ordered.set t f c
  oneOfEach := by
    intro g hg g' hg' hsome hsame hheld hheld'
    dsimp only at hheld hheld'
    -- a member of the oneof of the field that is set is dropped, unless it is that field
    obtain ⟨i, hi⟩ := Option.ne_none_iff_exists'.mp hsome
    have hi' : g'.oneof = some i := hsame ▸ hi
    by_cases hgf : g.number = f.number
    · by_contra hne
      have hfi : f.oneof = some i := by rw [← ht.eq_of_number hg hf hgf, hi]
      rw [get?_set_other hg' hfi hi' (fun h => hne (hgf.trans h.symm)) c] at hheld'
      cases hheld'
    · by_cases hgf' : g'.number = f.number
      · have hfi : f.oneof = some i := by rw [← ht.eq_of_number hg' hf hgf', hi']
        rw [get?_set_other hg hfi hi hgf c] at hheld
        cases hheld
      · exact hm.oneOfEach g hg g' hg' hsome hsame (get?_set_of_ne hgf hheld)
          (get?_set_of_ne hgf' hheld')
  contents := by
    intro e he
    rcases mem_set he with ⟨rfl, hholds⟩ | he
    · simp only [Content.StoredAt, ht.field?_number hf]
      exact ⟨hholds, hc hholds⟩
    · exact hm.contents e he

/-- The content that is held for a field is one of its kind. -/
theorem Stored.content (ht : t.Linked p) (hm : m.Stored p t) {f : Field} (hf : f ∈ t.fields)
    {c : Content} (hc : m.get? f.number = some c) : c.Stored p f.shape f.type := by
  have hat := hm.contents _ (mem_of_get? hc)
  simp only [Content.StoredAt, ht.field?_number hf] at hat
  exact hat.2

/-- A message with one more payload under a number that is no field's is one that readers
give, if it was one before. -/
theorem Stored.put_unknown (hm : m.Stored p t) {n : ℕ} (hn : t.field? n = none)
    (hnumber : IsFieldNumber n) {ps : List Payload} (hne : ps ≠ [])
    (hps : ∀ pl ∈ ps, pl.InRange) (ht : t.Linked p) : (m.put n (.unknown ps)).Stored p t where
  ordered := hm.ordered.put _ _
  oneOfEach := by
    have hother : ∀ f ∈ t.fields, f.number ≠ n := by
      rintro f hf rfl
      rw [ht.field?_number hf] at hn
      cases hn
    intro f hf g hg hsome hsame hheld hheld'
    dsimp only at hheld hheld'
    rw [get?_put, if_neg (hother f hf)] at hheld
    rw [get?_put, if_neg (hother g hg)] at hheld'
    exact hm.oneOfEach f hf g hg hsome hsame hheld hheld'
  contents := by
    intro e he
    rcases mem_put he with rfl | he
    · simp only [Content.StoredAt, hn]
      exact ⟨hnumber, ps, rfl, hne, hps⟩
    · exact hm.contents e he

end Message

end Switchboard.Proto
