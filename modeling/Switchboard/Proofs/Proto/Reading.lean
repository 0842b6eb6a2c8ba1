import Switchboard.Proofs.Dictionary
import Switchboard.Proofs.Proto.Contents

/-!
# Reading back the members of an object

Members are read one after the other into a message that is empty at first.  Where
every member tells what one field should hold, and every field that should hold
something has a member, the message comes to hold just that.

## Main definitions

* `Pool.Tells` — a member tells what its field should hold.
* `Pool.Spells` — a value stands for a content.

## Main results

* `Pool.exists_readMembers` — the members of an object, by induction over them.
* `Pool.spells_object` — an object stands for a message.
-/

namespace Switchboard.Proto

open Json
open Document (ofValueMembers depthMembers)

namespace Pool

variable {p : Pool} {t : MessageType} {held : ℕ → Option Content}

/-! ### One member -/

/-- What a member of an object puts into a field, if anything. -/
def memberContent? (p : Pool) (room : ℕ) (f : Field) (d : Document) : Option (Option Content) :=
  if d.isNull then p.readNull f else (p.readContent room f.shape f.type d).map some

theorem readMembers_cons {name : String} {f : Field} (h : t.named? name = some f) (room : ℕ)
    (d : Document) (ms : List (Option String × Document)) (m : Message) :
    p.readMembers room t m ((some name, d) :: ms) =
      (p.memberContent? room f d).bind fun c =>
        match c with
        | some c => (choose t f c m).bind fun m => p.readMembers room t m ms
        | none => p.readMembers room t m ms := by
  rw [readMembers]
  simp only [Option.bind_eq_bind, Option.bind_some, h, memberContent?]
  split <;> rfl

/-- A value stands for a content of the given shape and type, at any depth that leaves
room for it. -/
def Spells (p : Pool) (shape : Shape) (type : FieldType) (v : Value) (c : Content) : Prop :=
  v.kind ≠ "null" ∧ ∀ room, (Document.ofValue v).depth ≤ room →
    p.readContent room shape type (.ofValue v) = some c

/-- A member tells what its field should hold: it puts a content there that the field
has anyway where nothing should be held.  In a oneof no such content is put. -/
def Tells (p : Pool) (t : MessageType) (held : ℕ → Option Content) (e : String × Value) :
    Prop :=
  ∃ f ∈ t.fields, f.name = e.1 ∧ ∃ c : Option Content,
    (∀ room, (Document.ofValue e.2).depth ≤ room →
      p.memberContent? room f (.ofValue e.2) = some c)
    ∧ held f.number = c.filter f.holds ∧ (f.oneof ≠ none → c.filter f.holds = c)

theorem isNull_ofValue {v : Value} (h : v.kind ≠ "null") : (Document.ofValue v).isNull = false := by
  cases v with
  | null => exact absurd rfl h
  | _ => rfl

/-- A member whose value stands for a content tells that its field holds it. -/
theorem Spells.tells {f : Field} (hf : f ∈ t.fields) {v : Value} {c : Content}
    (h : p.Spells f.shape f.type v c) (hheld : held f.number = (some c).filter f.holds)
    (hone : f.oneof ≠ none → f.holds c = true) : p.Tells t held (f.name, v) := by
  refine ⟨f, hf, rfl, some c, fun room hroom => ?_, hheld, fun hf' => ?_⟩
  · rw [memberContent?, isNull_ofValue h.1, h.2 room hroom]
    rfl
  · rw [Option.filter_some, if_pos (hone hf')]

/-- A member without a value tells what `null` makes of its field. -/
theorem tells_null {f : Field} (hf : f ∈ t.fields) (hone : f.oneof = none)
    {c : Option Content} (hc : p.readNull f = some c)
    (hheld : held f.number = c.filter f.holds) : p.Tells t held (f.name, .null) :=
  ⟨f, hf, rfl, c, fun _ _ => hc, hheld, fun h => absurd hone h⟩

/-! ### All members -/

/-- What a message holds should be held. -/
def Below (m : Message) (held : ℕ → Option Content) : Prop :=
  ∀ n c, m.get? n = some c → held n = some c

/-- One member is read: its field holds what it should, and the others hold what they
held before. -/
theorem readMembers_tells (ht : t.Linked p) (hplain : t.IsPlain) (hone : t.OneOfEach held)
    {f : Field} (hf : f ∈ t.fields) {c : Option Content} {room : ℕ} {d : Document}
    (hd : p.memberContent? room f d = some c) (hheld : held f.number = c.filter f.holds)
    (hfilter : f.oneof ≠ none → c.filter f.holds = c) {m : Message} (hm : m.Ordered)
    (hbelow : Below m held) (hfresh : m.get? f.number = none)
    (ms : List (Option String × Document)) :
    ∃ m' : Message, p.readMembers room t m ((some f.name, d) :: ms) = p.readMembers room t m' ms
      ∧ m'.Ordered ∧ ∀ n, m'.get? n = if n = f.number then held f.number else m.get? n := by
  rw [readMembers_cons (ht.named?_name hplain hf), hd, Option.bind_some]
  cases c with
  | none =>
    refine ⟨m, rfl, hm, fun n => ?_⟩
    split
    · next hn => rw [hn, hfresh, hheld, Option.filter_none]
    · rfl
  | some c =>
    -- Another value in the oneof would be one that should be held beside this one.
    have hfree : m.IsFree t f := by
      intro i hi
      have hsome : held f.number = some c := by
        rw [hheld, hfilter (by simp [hi])]
      rw [Message.choosesFrom, List.any_eq_false]
      intro g hg hgm
      obtain ⟨hgt, hgi⟩ := List.mem_filter.mp hg
      obtain ⟨c', hc'⟩ := Option.isSome_iff_exists.mp hgm
      have hgheld := hbelow _ _ hc'
      have hgi : g.oneof = some i := by simpa using hgi
      have hnumber := hone f hf g hgt (by simp [hi]) (hi.trans hgi.symm) (by simp [hsome])
        (by simp [hgheld])
      rw [← hnumber, hfresh] at hc'
      simp at hc'
    have hchoose : choose t f c m = some (m.set t f c) := by
      unfold choose
      split
      · next i hi => rw [hfree i hi]; rfl
      · rfl
    simp only [hchoose, Option.bind_some]
    refine ⟨m.set t f c, rfl, hm.set t f c, fun n => ?_⟩
    rw [Message.get?_set_of_free hfree, hheld]

/-- The members of an object are read into a message that holds nothing yet under their
fields.  What it held stays, nothing is held that should not be, and the fields of all
members hold what they should. -/
theorem exists_readMembers (ht : t.Linked p) (hplain : t.IsPlain) (hone : t.OneOfEach held)
    {room : ℕ} {ms : List (String × Value)} (htells : ∀ e ∈ ms, p.Tells t held e)
    (hnodup : (ms.map Prod.fst).Nodup)
    (hroom : depthMembers (ofValueMembers ms) ≤ room) {m : Message} (hm : m.Ordered)
    (hbelow : Below m held)
    (hfresh : ∀ f ∈ t.fields, f.name ∈ ms.map Prod.fst → m.get? f.number = none) :
    ∃ m' : Message, p.readMembers room t m (ofValueMembers ms) = some m' ∧ m'.Ordered
      ∧ Below m' held ∧ Below m (fun n => m'.get? n)
      ∧ ∀ f ∈ t.fields, f.name ∈ ms.map Prod.fst → m'.get? f.number = held f.number := by
  induction ms generalizing m with
  | nil =>
    refine ⟨m, ?_, hm, hbelow, fun _ _ h => h, by simp⟩
    rw [ofValueMembers, readMembers]
  | cons e ms ih =>
    obtain ⟨hfirst, hrest⟩ := List.forall_mem_cons.mp htells
    obtain ⟨hnotin, hdistinct⟩ := List.nodup_cons.mp hnodup
    obtain ⟨name, v⟩ := e
    obtain ⟨f, hf, rfl, c, hc, hheld, hfilter⟩ := hfirst
    rw [ofValueMembers, depthMembers, Nat.max_le] at hroom
    have hmfresh : m.get? f.number = none := hfresh f hf (by simp)
    rw [ofValueMembers]
    obtain ⟨m₁, hread, hm₁, hget⟩ := readMembers_tells ht hplain hone hf (hc room hroom.1) hheld
      hfilter hm hbelow hmfresh (ofValueMembers ms)
    have hbelow₁ : Below m₁ held := by
      intro n c' hc'
      rw [hget] at hc'
      split at hc'
      · next hn => rw [hn, hc']
      · exact hbelow n c' hc'
    have hfresh₁ : ∀ g ∈ t.fields, g.name ∈ ms.map Prod.fst → m₁.get? g.number = none := by
      intro g hg hgms
      have hne : g.number ≠ f.number := by
        intro hn
        rw [ht.eq_of_number hg hf hn] at hgms
        exact hnotin hgms
      rw [hget, if_neg hne]
      exact hfresh g hg (List.mem_cons_of_mem _ hgms)
    obtain ⟨m', hread', hm', hbelow', hkept, hall⟩ := ih hrest hdistinct hroom.2 hm₁ hbelow₁ hfresh₁
    refine ⟨m', hread.trans hread', hm', hbelow', fun n c' hc' => ?_, fun g hg hgms => ?_⟩
    · have hne : n ≠ f.number := by
        rintro rfl
        rw [hmfresh] at hc'
        simp at hc'
      exact hkept n c' (by rw [hget, if_neg hne, hc'])
    · rw [List.map_cons, List.mem_cons] at hgms
      rcases hgms with hname | hgms
      · rw [ht.eq_of_name hg hf hname]
        have hf₁ : m₁.get? f.number = held f.number := by rw [hget, if_pos rfl]
        cases hsome : held f.number with
        | some c' => exact hkept _ _ (hf₁.trans hsome)
        | none =>
          refine Option.eq_none_iff_forall_ne_some.mpr fun c' hc' => ?_
          rw [hbelow' _ _ hc'] at hsome
          simp at hsome
      · exact hall g hg hgms

/-- Every field that should hold something has a member. -/
def Covers (t : MessageType) (held : ℕ → Option Content) (ms : Dictionary Value) : Prop :=
  ∀ n c, held n = some c →
    ∃ f ∈ t.fields, f.number = n ∧ Dictionary.contains f.name ms = true

/-- A dictionary whose members tell what should be held, with one for each field that
should hold something. -/
structure Gives (p : Pool) (t : MessageType) (held : ℕ → Option Content)
    (ms : Dictionary Value) : Prop where
  ordered : ms.Ordered
  tells : ∀ e ∈ ms, p.Tells t held e
  covers : Covers t held ms

/-- The message of such a dictionary holds just that. -/
theorem Gives.exists_message {ms : Dictionary Value} (h : p.Gives t held ms) (ht : t.Linked p)
    (hplain : t.IsPlain) (hone : t.OneOfEach held) {room : ℕ}
    (hroom : depthMembers (ofValueMembers ms) ≤ room) :
    ∃ m' : Message, p.readMembers room t [] (ofValueMembers ms) = some m' ∧ m'.Ordered
      ∧ ∀ n, m'.get? n = held n := by
  have hempty : Below [] held := fun n c hc => by simp at hc
  obtain ⟨m', hread, hm', hbelow, -, hall⟩ := exists_readMembers ht hplain hone h.tells
    h.ordered.nodup_keys hroom List.Pairwise.nil hempty fun _ _ _ => rfl
  refine ⟨m', hread, hm', fun n => ?_⟩
  cases hn : held n with
  | some c =>
    obtain ⟨f, hf, rfl, hname⟩ := h.covers n c hn
    rw [hall f hf (Dictionary.contains_iff.mp hname), hn]
  | none =>
    refine Option.eq_none_iff_forall_ne_some.mpr fun c hc => ?_
    rw [hbelow n c hc] at hn
    simp at hn

/-! ### Objects -/

/-- Messages of the type stand as objects of their fields, under whichever of the two
kinds of field type. -/
theorem plainMessage?_of_plain {type : FieldType} (hplain : type.IsPlain)
    (ht : p.messageOf? type = some t) : p.plainMessage? type = some t := by
  cases type with
  | message name =>
    rw [plainMessage?, ofName?_of_not_standard hplain]
    exact ht
  | group name =>
    rw [plainMessage?, ofName?_of_not_standard hplain]
    exact ht
  | scalar k => simp [messageOf?] at ht
  | enumeration name => simp [messageOf?] at ht

/-- An array has room if its elements have, one level further in. -/
theorem room_of_array {vs : List Value} {room : ℕ}
    (h : (Document.ofValue (.array vs)).depth ≤ room) :
    room ≠ 0 ∧ Document.depthAll (Document.ofValues vs) ≤ room - 1 := by
  rw [Document.ofValue, Document.depth] at h
  omega

/-- An object has room if its members have, one level further in. -/
theorem room_of_object {ms : Dictionary Value} {room : ℕ}
    (h : (Document.ofValue (.object ms)).depth ≤ room) :
    room ≠ 0 ∧ depthMembers (ofValueMembers ms) ≤ room - 1 := by
  rw [Document.ofValue, Document.depth] at h
  omega

/-- An object is read as the message of its members. -/
theorem readContent_object {type : FieldType} (htype : p.plainMessage? type = some t)
    {ms : Dictionary Value} {room : ℕ} (hroom : (Document.ofValue (.object ms)).depth ≤ room) :
    p.readContent room .single type (.ofValue (.object ms)) =
      (p.readMembers (room - 1) t [] (ofValueMembers ms)).map fun m => .one (.message m) := by
  rw [Document.ofValue, readContent]
  simp only [htype, if_neg (room_of_object hroom).1]

/-- A dictionary that gives what a message holds stands for that message. -/
theorem spells_object {type : FieldType} (htype : p.plainMessage? type = some t)
    (ht : t.Linked p) (hplain : t.IsPlain) {m : Message} (hm : m.Ordered)
    (hone : t.OneOfEach fun n => m.get? n) {ms : Dictionary Value}
    (hms : p.Gives t (fun n => m.get? n) ms) :
    p.Spells .single type (.object ms) (.one (.message m)) := by
  refine ⟨by simp [Value.kind], fun room hroom => ?_⟩
  have hdepth := (room_of_object hroom).2
  obtain ⟨m', hread, hm', hget⟩ := hms.exists_message ht hplain hone hdepth
  rw [readContent_object htype hroom, hread, hm'.ext hm hget]
  rfl

end Pool

end Switchboard.Proto
