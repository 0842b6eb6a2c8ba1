import Switchboard.Proofs.Proto.Decoding
import Switchboard.Proto.Json.Reading

/-!
# What reading JSON gives

A message that is read from a document is one of the messages that readers give, like one
that is decoded from bytes.  Types with a form of their own are read into bytes and decoded,
so for them there is nothing more to show.

## Main results

* `Scalar.admits_of_read?` — the scalars that are read.
* `Pool.stored_read?` — **every message that is read is one that readers give.**
-/

namespace Switchboard.Proto

open Json

/-! ### Scalars and enum values -/

theorem bounds_of_integerOfNumber? {low high i : Int} (hle : low ≤ high) {n : Number}
    (h : integerOfNumber? low high n = some i) : low ≤ i ∧ i ≤ high := by
  cases n with
  | int j =>
    rw [integerOfNumber?] at h
    split at h
    · next hj =>
      obtain rfl := Option.some.inj h
      exact hj
    · cases h
  | double x =>
    rw [integerOfNumber?] at h
    split at h
    · simp only [Option.ite_none_right_eq_some, Option.some.injEq] at h
      obtain ⟨⟨hlow, -⟩, rfl⟩ := h
      omega
    · cases h

theorem Scalar.bounds_le {k : Scalar} {low high : Int} (h : k.bounds? = some (low, high)) :
    low ≤ high := by
  cases k <;> simp only [bounds?, Option.some.injEq, Prod.mk.injEq, reduceCtorEq] at h <;>
    obtain ⟨rfl, rfl⟩ := h <;> decide

theorem Scalar.admits_of_number {k : Scalar} {n : Number} {d : Datum}
    (h : (k.bounds?.bind fun (low, high) => (integerOfNumber? low high n).map Datum.int)
      = some d) : k.Admits d := by
  obtain ⟨⟨low, high⟩, hk, hd⟩ := Option.bind_eq_some_iff.mp h
  obtain ⟨i, hi, rfl⟩ := Option.map_eq_some_iff.mp hd
  obtain ⟨hlow, hhigh⟩ := bounds_of_integerOfNumber? (bounds_le hk) hi
  exact admits_int hk hlow hhigh

/-- A scalar that is read is a value of its kind. -/
theorem Scalar.admits_of_read? {k : Scalar} {d : Document} {x : Datum}
    (h : k.read? d = some x) : k.Admits x := by
  unfold read? at h
  split at h
  · obtain rfl := Option.some.inj h
    trivial
  · obtain rfl := Option.some.inj h
    trivial
  · obtain ⟨bs, -, rfl⟩ := Option.map_eq_some_iff.mp h
    trivial
  · obtain rfl := Option.some.inj h
    trivial
  · obtain ⟨y, -, rfl⟩ := Option.map_eq_some_iff.mp h
    trivial
  · obtain ⟨y, -, rfl⟩ := Option.map_eq_some_iff.mp h
    trivial
  · obtain ⟨y, -, rfl⟩ := Option.map_eq_some_iff.mp h
    trivial
  · exact admits_of_number h
  · exact admits_of_integer h
  · cases h

/-- An enum value that is read has a number of thirty-two bits, if those that the enum names
have. -/
theorem EnumType.isEnumNumber_of_read? {e : EnumType} (he : ∀ v ∈ e.values, IsEnumNumber v.2)
    {d : Document} {x : Datum} (h : e.read? d = some x) : ∃ i, x = .int i ∧ IsEnumNumber i := by
  unfold read? at h
  split at h
  · obtain ⟨i, hi, rfl⟩ := Option.map_eq_some_iff.mp h
    obtain ⟨v, hv, rfl⟩ := Option.map_eq_some_iff.mp hi
    exact ⟨_, rfl, he v (List.mem_of_find?_eq_some hv)⟩
  · split at h
    · next hi =>
      obtain rfl := Option.some.inj h
      exact ⟨_, rfl, hi⟩
    · cases h
  · split at h
    · obtain rfl := Option.some.inj h
      exact ⟨0, rfl, by decide, by decide⟩
    · cases h
  · cases h

namespace Pool

/-- What reading relies on in a pool. -/
structure Sound (p : Pool) : Prop where
  linked : p.Linked
  regular : p.Regular
  narrow : p.NarrowEnums

variable {p : Pool} {t : MessageType} {m : Message} {room : ℕ}

theorem stored_special? (hp : p.Sound) {type : FieldType} {name : String}
    (htype : type = .message name ∨ type = .group name) {bs : Bytes} {d : Datum}
    (h : p.special? name bs = some d) : d.Stored p type := by
  unfold special? at h
  obtain ⟨t, ht, h⟩ := Option.bind_eq_some_iff.mp h
  obtain ⟨m, hm, h⟩ := Option.bind_eq_some_iff.mp h
  obtain rfl := Option.some.inj h
  exact Datum.stored_message_iff.mpr
    ⟨name, htype, t, ht, stored_decode? hp.linked hp.regular ht hm⟩

theorem stored_readPlain (hp : p.Sound) {type : FieldType} {d : Document} {x : Datum}
    (h : p.readPlain room type d = some x) : x.Stored p type := by
  cases type with
  | scalar k =>
    have hadmits : k.Admits x := Scalar.admits_of_read? h
    exact FieldType.Admits.stored hadmits
  | enumeration name =>
    obtain ⟨e, he, hx⟩ := Option.bind_eq_some_iff.mp h
    have hnumbers := hp.narrow e (List.mem_of_find?_eq_some he)
    exact FieldType.Admits.stored (EnumType.isEnumNumber_of_read? hnumbers hx)
  | message name =>
    unfold readPlain at h
    dsimp only at h
    split at h
    · obtain ⟨bs, -, hbs⟩ := Option.bind_eq_some_iff.mp h
      exact stored_special? hp (Or.inl rfl) hbs
    · cases h
  | group name =>
    unfold readPlain at h
    dsimp only at h
    split at h
    · obtain ⟨bs, -, hbs⟩ := Option.bind_eq_some_iff.mp h
      exact stored_special? hp (Or.inr rfl) hbs
    · cases h

/-- What `null` sets a field to is a content of the field, if it is held. -/
theorem stored_readNull (hp : p.Sound) {f : Field} (hf : f.Regular p) {c : Content}
    (h : p.readNull f = some (some c)) (hholds : f.holds c = true) :
    c.Stored p f.shape f.type := by
  unfold readNull at h
  split at h
  · obtain rfl := Option.some.inj (Option.some.inj h)
    cases hholds
  · obtain rfl := Option.some.inj (Option.some.inj h)
    cases hholds
  · next hshape =>
    split at h
    · next name htype =>
      split at h
      · obtain ⟨bs, -, hbs⟩ := Option.bind_eq_some_iff.mp h
        obtain ⟨d, hd, heq⟩ := Option.map_eq_some_iff.mp hbs
        obtain rfl := Option.some.inj heq
        exact ⟨hshape, stored_special? hp (Or.inl htype) hd⟩
      · cases h
    · cases h
    · next name htype =>
      obtain rfl := Option.some.inj (Option.some.inj h)
      refine ⟨hshape, ?_⟩
      split
      · rw [htype]
        exact FieldType.Admits.stored ⟨0, rfl, by decide, by decide⟩
      · exact stored_default hf
    · obtain rfl := Option.some.inj (Option.some.inj h)
      exact ⟨hshape, stored_default hf⟩

theorem stored_choose (ht : t.Linked p) (hm : m.Stored p t) {f : Field} (hf : f ∈ t.fields)
    {c : Content} (hc : f.holds c = true → c.Stored p f.shape f.type) {m' : Message}
    (h : choose t f c m = some m') : m'.Stored p t := by
  unfold choose at h
  split at h
  · split at h
    · cases h
    · obtain rfl := Option.some.inj h
      exact hm.set ht hf hc
  · obtain rfl := Option.some.inj h
    exact hm.set ht hf hc

theorem mem_of_named? {name : String} {f : Field} (h : t.named? name = some f) :
    f ∈ t.fields := by
  unfold MessageType.named? at h
  split at h
  · next g hg =>
    obtain rfl := Option.some.inj h
    exact List.mem_reverse.mp (List.mem_of_find?_eq_some hg)
  · exact List.mem_of_find?_eq_some h

theorem stored_value? {type : FieldType} {c : Content} (hc : c.Stored p .single type)
    {x : Datum} (h : value? c = some x) : x.Stored p type := by
  unfold value? at h
  split at h
  · obtain rfl := Option.some.inj h
    exact hc.2
  · cases h

/-- The type of a message that stands as an object is known under the name in the field
type. -/
theorem exists_name_of_plainMessage? {type : FieldType} (h : p.plainMessage? type = some t) :
    ∃ name, (type = .message name ∨ type = .group name) ∧ p.message? name = some t := by
  unfold plainMessage? at h
  split at h
  · split at h
    · cases h
    · exact ⟨_, Or.inl rfl, h⟩
  · split at h
    · cases h
    · exact ⟨_, Or.inr rfl, h⟩
  · cases h

theorem exists_name_of_anyType? {type : FieldType} {name : String}
    (h : anyType? type = some name) : type = .message name ∨ type = .group name := by
  unfold anyType? at h
  split at h
  · split at h
    · exact Or.inl (congrArg _ (Option.some.inj h))
    · cases h
  · split at h
    · exact Or.inr (congrArg _ (Option.some.inj h))
    · cases h
  · cases h

mutual

/-- A content that is read is of the shape and the type it is read for. -/
theorem stored_readContent (hp : p.Sound) : (d : Document) → ∀ (room : ℕ) (shape : Shape)
    (type : FieldType) (c : Content), p.readContent room shape type d = some c →
      c.Stored p shape type
  | .null | .bool _ | .number _ | .string _ => fun room shape type c h => by
    simp only [readContent] at h
    cases shape with
    | single =>
      obtain ⟨x, hx, rfl⟩ := Option.map_eq_some_iff.mp h
      exact ⟨rfl, stored_readPlain hp hx⟩
    | list | map key => cases h
  | .array ds => fun room shape type c h => by
    simp only [readContent] at h
    cases shape with
    | single =>
      obtain ⟨x, hx, rfl⟩ := Option.map_eq_some_iff.mp h
      exact ⟨rfl, stored_readPlain hp hx⟩
    | list =>
      simp only [Option.ite_none_left_eq_some] at h
      obtain ⟨xs, hxs, rfl⟩ := Option.map_eq_some_iff.mp h.2
      exact ⟨rfl, elementsStored_iff.mpr (stored_readElements hp ds _ _ _ hxs)⟩
    | map key => cases h
  | .object ms => fun room shape type c h => by
    simp only [readContent] at h
    cases shape with
    | single =>
      dsimp only at h
      split at h
      · next t hplain =>
        simp only [Option.ite_none_left_eq_some] at h
        obtain ⟨m, hm, rfl⟩ := Option.map_eq_some_iff.mp h.2
        obtain ⟨name, hname, ht⟩ := exists_name_of_plainMessage? hplain
        have hstored := stored_readMembers hp ms _ _ _ _ _ ht (Message.stored_nil p t) hm
        exact ⟨rfl, Datum.stored_message_iff.mpr ⟨name, hname, t, ht, hstored⟩⟩
      · split at h
        · next name hany =>
          simp only [Option.ite_none_left_eq_some] at h
          obtain ⟨-, h⟩ := h
          obtain ⟨own, -, h⟩ := Option.bind_eq_some_iff.mp h
          -- whatever was read, it comes back through its bytes
          obtain ⟨m, hm⟩ : ∃ m, (p.wrap? name own.1 own.2 m).map Content.one = some c := by
            split at h
            · obtain ⟨m, -, hm⟩ := Option.bind_eq_some_iff.mp h
              exact ⟨m, hm⟩
            · obtain ⟨m, -, hm⟩ := Option.bind_eq_some_iff.mp h
              exact ⟨m, hm⟩
          obtain ⟨d, hd, rfl⟩ := Option.map_eq_some_iff.mp hm
          exact ⟨rfl, stored_special? hp (exists_name_of_anyType? hany) hd⟩
        · obtain ⟨x, hx, rfl⟩ := Option.map_eq_some_iff.mp h
          exact ⟨rfl, stored_readPlain hp hx⟩
    | list => cases h
    | map key =>
      simp only [Option.ite_none_left_eq_some] at h
      obtain ⟨es, hes, rfl⟩ := Option.map_eq_some_iff.mp h.2
      obtain ⟨hordered, hes⟩ :=
        stored_readEntries hp ms _ _ _ _ _ Dictionary.ordered_nil trivial hes
      exact ⟨key, rfl, hordered, hes⟩

theorem stored_readElements (hp : p.Sound) : (ds : List Document) → ∀ (room : ℕ)
    (type : FieldType) (xs : List Datum), p.readElements room type ds = some xs →
      ∀ x ∈ xs, x.Stored p type
  | [] => fun room type xs h => by
    obtain rfl := Option.some.inj h
    simp
  | d :: ds => fun room type xs h => by
    simp only [readElements] at h
    obtain ⟨c, hc, h⟩ := Option.bind_eq_some_iff.mp h
    obtain ⟨x, hx, h⟩ := Option.bind_eq_some_iff.mp h
    obtain ⟨xs', hxs', h⟩ := Option.bind_eq_some_iff.mp h
    obtain rfl := Option.some.inj h
    exact List.forall_mem_cons.mpr
      ⟨stored_value? (stored_readContent hp d _ _ _ _ hc) hx, stored_readElements hp ds _ _ _ hxs'⟩

theorem stored_readEntries (hp : p.Sound) : (ms : List (Option String × Document)) →
    ∀ (room : ℕ) (key : Scalar) (type : FieldType) (es es' : Dictionary Datum), es.Ordered →
      entriesStored p key type es → p.readEntries room key type es ms = some es' →
        es'.Ordered ∧ entriesStored p key type es'
  | [] => fun room key type es es' hordered hes h => by
    obtain rfl := Option.some.inj h
    exact ⟨hordered, hes⟩
  | (k, d) :: ms => fun room key type es es' hordered hes h => by
    simp only [readEntries] at h
    obtain ⟨k, -, h⟩ := Option.bind_eq_some_iff.mp h
    obtain ⟨k, hk, h⟩ := Option.bind_eq_some_iff.mp h
    obtain ⟨c, hc, h⟩ := Option.bind_eq_some_iff.mp h
    obtain ⟨x, hx, h⟩ := Option.bind_eq_some_iff.mp h
    have hentry : p.EntryStored key type (k, x) :=
      ⟨Scalar.admits_of_ofKey? hk, stored_value? (stored_readContent hp d _ _ _ _ hc) hx⟩
    obtain ⟨key', hkey', hordered', hes'⟩ := stored_insert hordered hes hentry
    obtain rfl := Shape.map.inj hkey'
    exact stored_readEntries hp ms _ _ _ _ _ hordered' hes' h

theorem stored_readMembers (hp : p.Sound) : (ms : List (Option String × Document)) →
    ∀ (room : ℕ) (name : String) (t : MessageType) (m m' : Message), p.message? name = some t →
      m.Stored p t → p.readMembers room t m ms = some m' → m'.Stored p t
  | [] => fun room name t m m' _ hm h => by
    obtain rfl := Option.some.inj h
    exact hm
  | (name', d) :: ms => fun room name t m m' ht hm h => by
    simp only [readMembers] at h
    obtain ⟨name', -, h⟩ := Option.bind_eq_some_iff.mp h
    split at h
    · exact stored_readMembers hp ms _ _ _ _ _ ht hm h
    · next f hf =>
      have hmem := mem_of_named? hf
      have hregular := hp.regular t (List.mem_of_find?_eq_some ht) f hmem
      have hrest : ∀ {c : Content}, (f.holds c = true → c.Stored p f.shape f.type) →
          ((choose t f c m).bind fun m => p.readMembers room t m ms) = some m' →
            m'.Stored p t := by
        intro c hc h
        obtain ⟨m₁, hm₁, h⟩ := Option.bind_eq_some_iff.mp h
        exact stored_readMembers hp ms _ _ _ _ _ ht
          (stored_choose (linked_of_message? hp.linked ht) hm hmem hc hm₁) h
      split at h
      · obtain ⟨c, hc, h⟩ := Option.bind_eq_some_iff.mp h
        cases c with
        | none => exact stored_readMembers hp ms _ _ _ _ _ ht hm h
        | some c => exact hrest (stored_readNull hp hregular hc) h
      · obtain ⟨c, hc, h⟩ := Option.bind_eq_some_iff.mp h
        obtain ⟨c', hc', rfl⟩ := Option.map_eq_some_iff.mp hc
        exact hrest (fun _ => stored_readContent hp d _ _ _ _ hc') h

end

/-- **Every message that is read is one that readers give.** -/
theorem stored_read? (hp : p.Sound) {name : String} (ht : p.message? name = some t)
    {d : Document} (h : p.read? room t d = some m) : m.Stored p t := by
  unfold read? at h
  split at h
  · next m' hcontent =>
    obtain rfl := Option.some.inj h
    have hstored := (stored_readContent hp d _ _ _ _ hcontent).2
    obtain ⟨m₁, t₁, heq, ht₁, hm₁⟩ := hstored.exists_message (Or.inl rfl)
    obtain rfl := Datum.message.inj heq
    have hname : t.name = name := by simpa using List.find?_some ht
    rw [hname, ht] at ht₁
    obtain rfl := Option.some.inj ht₁
    exact hm₁
  · cases h

end Pool

end Switchboard.Proto
