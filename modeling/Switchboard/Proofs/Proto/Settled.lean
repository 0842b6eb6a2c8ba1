import Switchboard.Proofs.Proto.Payloads
import Switchboard.Proofs.Proto.Stored

/-!
# What is left of a message in its bytes

An encoder leaves out what equals the default by value.  A zero with a point may equal the
default by value and differ from it in its sign; then the default comes back in its place,
where a field does not tell the default apart from no value, or under a key of a map.
Everything else in a message is kept.

## Main definitions

* `Datum.depth`, `Message.depth` — how deeply messages are nested.
* `Datum.settled`, `Content.settled`, `Message.settled` — what is left in the bytes.
* `Datum.Lossless`, `Content.Lossless`, `Message.Lossless` — no zero is lost.
* `Pool.entryRecords` — the records of an entry of a map.

## Main results

* `contentsLossless.settled_eq` — all is left of a message in which no zero is lost.
* `Pool.bounds_contentRecords`, `Pool.bounds_entryRecords` — the records of a message and of
  an entry are in range and nested no deeper than it.
-/

namespace Switchboard.Proto

open Wire

/-! ### Depth -/

/-- How deeply groups are nested in payloads. -/
def payloadsDepth (ps : List Payload) : ℕ := (ps.map Payload.depth).foldr max 0

mutual

/-- How deeply messages are nested in a value. -/
def Datum.depth : Datum → ℕ
  | .message m => contentsDepth m + 1
  | _ => 0

/-- How deeply messages are nested in a list. -/
def elementsDepth : List Datum → ℕ
  | [] => 0
  | d :: ds => max d.depth (elementsDepth ds)

/-- How deeply messages are nested in a map. -/
def entriesDepth : List (String × Datum) → ℕ
  | [] => 0
  | (_, d) :: es => max d.depth (entriesDepth es)

/-- How deeply messages are nested in a content; groups that no field takes count as well. -/
def Content.depth : Content → ℕ
  | .one d => d.depth
  | .list ds => elementsDepth ds
  | .map es => entriesDepth es
  | .unknown ps => payloadsDepth ps

/-- How deeply messages are nested in contents. -/
def contentsDepth : List (ℕ × Content) → ℕ
  | [] => 0
  | (_, c) :: m => max c.depth (contentsDepth m)

end

/-- How deeply messages are nested in a message: not at all if it holds none. -/
def Message.depth (m : Message) : ℕ := contentsDepth m

theorem depth_le_payloadsDepth {ps : List Payload} : ∀ pl ∈ ps, pl.depth ≤ payloadsDepth ps := by
  induction ps with
  | nil => simp
  | cons pl ps ih =>
    refine List.forall_mem_cons.mpr ⟨Nat.le_max_left _ _, fun pl' hpl' => ?_⟩
    exact Nat.le_trans (ih pl' hpl') (Nat.le_max_right _ _)

theorem depth_le_elementsDepth {ds : List Datum} : ∀ d ∈ ds, d.depth ≤ elementsDepth ds := by
  induction ds with
  | nil => simp
  | cons d ds ih =>
    rw [elementsDepth]
    refine List.forall_mem_cons.mpr ⟨Nat.le_max_left _ _, fun d' hd' => ?_⟩
    exact Nat.le_trans (ih d' hd') (Nat.le_max_right _ _)

/-! ### What is left -/

mutual

/-- What is left of a value of a type: of a message what is left of its contents. -/
def Datum.settled (p : Pool) (type : FieldType) : Datum → Datum
  | .message m =>
    match type with
    | .message name | .group name => .message (settledContents p (p.message? name) m)
    | _ => .message m
  | d => d

/-- What is left of the values of a list. -/
def settledElements (p : Pool) (type : FieldType) : List Datum → List Datum
  | [] => []
  | d :: ds => d.settled p type :: settledElements p type ds

/-- What is left of the entries of a map: the default in place of a zero like it. -/
def settledEntries (p : Pool) (f : Field) : List (String × Datum) → List (String × Datum)
  | [] => []
  | (k, d) :: es =>
    (k, if d.zeros f.default then f.default else d.settled p f.type) :: settledEntries p f es

/-- What is left of the content of a field: nothing of a zero like the default, where the
field does not tell the default apart from no value. -/
def Content.settled (p : Pool) (f : Field) : Content → Option Content
  | .one d =>
    if !f.explicit && d.zeros f.default then none else some (.one (d.settled p f.type))
  | .list ds => some (.list (settledElements p f.type ds))
  | .map es => some (.map (settledEntries p f es))
  | .unknown ps => some (.unknown ps)

/-- What is left of the contents of a message of a type, if that is known. -/
def settledContents (p : Pool) (t : Option MessageType) : List (ℕ × Content) → List (ℕ × Content)
  | [] => []
  | (n, c) :: m =>
    match t.bind (·.field? n) with
    | some f => ((c.settled p f).map (n, ·)).toList ++ settledContents p t m
    | none => (n, c) :: settledContents p t m

end

/-- What is left of a content under the number of a field, or under one that is no field's. -/
def Content.settledAt (p : Pool) (f : Option Field) (c : Content) : Option Content :=
  match f with
  | some f => c.settled p f
  | none => some c

/-- What is left of a message of a type. -/
def Message.settled (p : Pool) (t : MessageType) (m : Message) : Message :=
  settledContents p (some t) m

variable {p : Pool} {t : MessageType} {m : Message}

/-- What is left of an entry of a map. -/
def settledEntry (p : Pool) (f : Field) (e : String × Datum) : String × Datum :=
  (e.1, if e.2.zeros f.default then f.default else e.2.settled p f.type)

theorem settledEntries_eq {f : Field} (es : List (String × Datum)) :
    settledEntries p f es = es.map (settledEntry p f) := by
  induction es with
  | nil => rfl
  | cons e es ih =>
    obtain ⟨k, d⟩ := e
    rw [settledEntries, ih, List.map_cons, settledEntry]

theorem settledContents_cons {n : ℕ} {c : Content} {m : List (ℕ × Content)} :
    settledContents p (some t) ((n, c) :: m)
      = ((c.settledAt p (t.field? n)).map (n, ·)).toList ++ settledContents p (some t) m := by
  rw [settledContents, Option.bind_some]
  cases t.field? n with
  | some f => rfl
  | none => rfl

/-- All is left of a value that is no message. -/
theorem settled_of_not_isMessage {type : FieldType} {d : Datum} (h : d.Stored p type)
    (htype : Linking.isMessage type = false) : d.settled p type = d := by
  cases d with
  | message m =>
    obtain ⟨name, rfl | rfl, -⟩ := Datum.stored_message_iff.mp h
    · cases htype
    · cases htype
  | _ => rfl

/-! ### Messages that are left as they are -/

mutual

/-- All is left of a value: no message in it holds a zero that is not. -/
def Datum.Lossless (p : Pool) (type : FieldType) : Datum → Prop
  | .message m =>
    match type with
    | .message name | .group name => contentsLossless p (p.message? name) m
    | _ => True
  | _ => True

/-- All is left of the values of a list. -/
def elementsLossless (p : Pool) (type : FieldType) : List Datum → Prop
  | [] => True
  | d :: ds => d.Lossless p type ∧ elementsLossless p type ds

/-- All is left of the entries of a map: a zero like the default is the default. -/
def entriesLossless (p : Pool) (f : Field) : List (String × Datum) → Prop
  | [] => True
  | (_, d) :: es =>
    ((d.zeros f.default = true → d = f.default) ∧ d.Lossless p f.type) ∧ entriesLossless p f es

/-- All is left of the content of a field: it is no zero like the default, unless the field
tells the default apart from no value. -/
def Content.Lossless (p : Pool) (f : Field) : Content → Prop
  | .one d => (f.explicit = true ∨ d.zeros f.default = false) ∧ d.Lossless p f.type
  | .list ds => elementsLossless p f.type ds
  | .map es => entriesLossless p f es
  | .unknown _ => True

/-- All is left of the contents of a message of a type, if that is known. -/
def contentsLossless (p : Pool) (t : Option MessageType) : List (ℕ × Content) → Prop
  | [] => True
  | (n, c) :: m =>
    (∀ f, t.bind (·.field? n) = some f → c.Lossless p f) ∧ contentsLossless p t m

end

/-- All is left of a message of a type. -/
def Message.Lossless (p : Pool) (t : MessageType) (m : Message) : Prop :=
  contentsLossless p (some t) m

mutual

theorem Datum.Lossless.settled_eq : (d : Datum) → ∀ type, d.Lossless p type →
    d.settled p type = d
  | .message m => fun type h => by
    cases type with
    | message name | group name =>
      rw [Datum.settled]
      exact congrArg Datum.message (contentsLossless.settled_eq m _ h)
    | scalar k | enumeration name => rfl
  | .bool _ | .int _ | .single _ | .double _ | .string _ | .bytes _ => fun _ _ => rfl

theorem elementsLossless.settled_eq : (ds : List Datum) → ∀ type,
    elementsLossless p type ds → settledElements p type ds = ds
  | [] => fun _ _ => rfl
  | d :: ds => fun type h => by
    rw [settledElements, Datum.Lossless.settled_eq d type h.1,
      elementsLossless.settled_eq ds type h.2]

theorem entriesLossless.settled_eq : (es : List (String × Datum)) → ∀ f : Field,
    entriesLossless p f es → settledEntries p f es = es
  | [] => fun _ _ => rfl
  | (k, d) :: es => fun f h => by
    rw [settledEntries, entriesLossless.settled_eq es f h.2,
      Datum.Lossless.settled_eq d f.type h.1.2]
    split
    · next hzeros => rw [← h.1.1 hzeros]
    · rfl

theorem Content.Lossless.settled_eq : (c : Content) → ∀ f : Field, c.Lossless p f →
    c.settled p f = some c
  | .one d => fun f h => by
    have hkept : (!f.explicit && d.zeros f.default) = false := by
      rcases h.1 with hexplicit | hzeros
      · rw [hexplicit]
        rfl
      · rw [hzeros, Bool.and_false]
    rw [Content.settled, hkept, Datum.Lossless.settled_eq d f.type h.2]
    rfl
  | .list ds => fun f h => by rw [Content.settled, elementsLossless.settled_eq ds f.type h]
  | .map es => fun f h => by rw [Content.settled, entriesLossless.settled_eq es f h]
  | .unknown _ => fun _ _ => rfl

/-- Of a message without such zeros all is left. -/
theorem contentsLossless.settled_eq : (m : List (ℕ × Content)) → ∀ t : Option MessageType,
    contentsLossless p t m → settledContents p t m = m
  | [] => fun _ _ => rfl
  | (n, c) :: m => fun t h => by
    rw [settledContents, contentsLossless.settled_eq m t h.2]
    split
    · next f hf =>
      rw [Content.Lossless.settled_eq c f (h.1 f hf)]
      rfl
    · rfl

end

/-! ### Payloads -/

namespace Pool

theorem payloads_eq {type : FieldType} (ds : List Datum) :
    p.payloads type ds = ds.map (p.payload type) := by
  induction ds with
  | nil => rfl
  | cons d ds ih => rw [payloads, ih, List.map_cons]

/-- The record of the key of an entry, if it is not left out. -/
def keyRecords (key : Scalar) (k : String) : Records :=
  match key.ofKey? k with
  | some k => if k.same key.zero then [] else [(1, key.payload k)]
  | none => []

/-- The record of the value of an entry, if it is not left out. -/
def valueRecords (p : Pool) (f : Field) (d : Datum) : Records :=
  if d.same f.default then [] else [(2, p.payload f.type d)]

/-- The records of an entry of a map. -/
def entryRecords (p : Pool) (key : Scalar) (f : Field) (e : String × Datum) : Records :=
  keyRecords key e.1 ++ p.valueRecords f e.2

theorem entryPayloads_eq {key : Scalar} {f : Field} (es : List (String × Datum)) :
    p.entryPayloads key f es
      = es.map fun e => .bytes (writeRecords (p.entryRecords key f e)) := by
  induction es with
  | nil => rfl
  | cons e es ih =>
    obtain ⟨k, d⟩ := e
    rw [entryPayloads, ih, List.map_cons]
    rfl

theorem payload_scalar {k : Scalar} {d : Datum} (h : k.Admits d) :
    p.payload (.scalar k) d = k.payload d := by
  cases d with
  | message m => cases k <;> exact h.elim
  | _ => rw [payload]

theorem payload_enumeration {name : String} (i : Int) :
    p.payload (.enumeration name) (.int i) = .varint (Scalar.wrapped 64 i) := by rw [payload]

/-- The payload of a scalar or an enum number has the form of its type. -/
theorem has_payload {type : FieldType} {d : Datum} (h : type.Admits d) :
    type.form.Has (p.payload type d) := by
  cases type with
  | scalar k =>
    rw [payload_scalar h]
    exact Scalar.has_payload h
  | enumeration name =>
    obtain ⟨i, rfl, -⟩ := h
    rw [payload_enumeration]
    trivial
  | message name | group name => exact h.elim

/-- The payload of a scalar or an enum number is in range and no group. -/
theorem bounds_admits {type : FieldType} {d : Datum} (h : type.Admits d) :
    (p.payload type d).InRange ∧ (p.payload type d).depth ≤ d.depth := by
  have hdepth : (p.payload type d).depth = 0 := (has_payload h).depth
  rw [hdepth]
  refine ⟨?_, Nat.zero_le _⟩
  cases type with
  | scalar k =>
    rw [payload_scalar h]
    exact Scalar.inRange_payload h
  | enumeration name =>
    obtain ⟨i, rfl, -⟩ := h
    rw [payload_enumeration]
    exact wrapped_lt 64 i
  | message name | group name => exact h.elim

mutual

/-- The payload of a value is in range and nested no deeper than the value. -/
theorem bounds_payload (hregular : p.Regular) : (d : Datum) → ∀ type, d.Stored p type →
    (p.payload type d).InRange ∧ (p.payload type d).depth ≤ d.depth
  | .message m => fun type h => by
    obtain ⟨name, rfl | rfl, t, ht, hm⟩ := Datum.stored_message_iff.mp h
    · rw [payload]
      exact ⟨trivial, Nat.zero_le _⟩
    · have hbounds := bounds_contentRecords hregular m t (List.mem_of_find?_eq_some ht) hm.contents
      rw [payload, ht]
      refine ⟨recordsInRange_iff.mpr fun r hr => (hbounds r hr).1, ?_⟩
      exact Nat.succ_le_succ (recordsDepth_le_iff.mpr fun r hr => (hbounds r hr).2)
  | .bool _ | .int _ | .single _ | .double _ | .string _ | .bytes _ => fun _ h => bounds_admits h

theorem bounds_payloads (hregular : p.Regular) : (ds : List Datum) → ∀ type,
    (∀ d ∈ ds, d.Stored p type) →
      ∀ pl ∈ p.payloads type ds, pl.InRange ∧ pl.depth ≤ elementsDepth ds
  | [] => fun _ _ => by simp [payloads]
  | d :: ds => fun type h => by
    obtain ⟨hd, hds⟩ := List.forall_mem_cons.mp h
    obtain ⟨hrange, hdepth⟩ := bounds_payload hregular d type hd
    rw [payloads, elementsDepth]
    refine List.forall_mem_cons.mpr ⟨⟨hrange, hdepth.trans (Nat.le_max_left _ _)⟩, ?_⟩
    intro pl hpl
    obtain ⟨hrange, hdepth⟩ := bounds_payloads hregular ds type hds pl hpl
    exact ⟨hrange, hdepth.trans (Nat.le_max_right _ _)⟩

theorem bounds_contentPayloads (hregular : p.Regular) : (c : Content) → ∀ f : Field,
    c.Stored p f.shape f.type →
      ∀ pl ∈ p.contentPayloads (some f) c, pl.InRange ∧ pl.depth ≤ c.depth
  | .one d => fun f h pl hpl => by
    rw [contentPayloads] at hpl
    split at hpl
    · rw [List.mem_singleton.mp hpl]
      exact bounds_payload hregular d f.type h.2
    · cases hpl
  | .list ds => fun f h pl hpl => by
    rw [contentPayloads] at hpl
    split at hpl
    · rw [List.mem_singleton.mp hpl]
      exact ⟨trivial, Nat.zero_le _⟩
    · exact bounds_payloads hregular ds f.type (elementsStored_iff.mp h.2) pl hpl
  | .map es => fun f h pl hpl => by
    obtain ⟨key, hshape, -⟩ := h
    rw [contentPayloads] at hpl
    simp only [hshape, entryPayloads_eq] at hpl
    obtain ⟨e, -, rfl⟩ := List.mem_map.mp hpl
    exact ⟨trivial, Nat.zero_le _⟩
  | .unknown ps => fun f h => h.elim

/-- The records of a message are in range and nested no deeper than the message. -/
theorem bounds_contentRecords (hregular : p.Regular) : (m : List (ℕ × Content)) →
    ∀ t ∈ p.messages, (∀ e ∈ m, e.2.StoredAt p t e.1) →
      ∀ r ∈ p.contentRecords (some t) m,
        (IsFieldNumber r.1 ∧ r.2.InRange) ∧ r.2.depth ≤ contentsDepth m
  | [] => fun _ _ _ => by simp [contentRecords]
  | (n, c) :: m => fun t ht h r hr => by
    obtain ⟨hc, hm⟩ := List.forall_mem_cons.mp h
    rw [contentRecords] at hr
    rw [contentsDepth]
    rcases List.mem_append.mp hr with hr | hr
    · obtain ⟨pl, hpl, rfl⟩ := List.mem_map.mp hr
      rw [Option.bind_some] at hpl
      unfold Content.StoredAt at hc
      cases hf : t.field? n with
      | some f =>
        simp only [hf] at hc hpl
        obtain ⟨hmem, hnumber⟩ := mem_of_field? hf
        obtain ⟨hrange, hdepth⟩ := bounds_contentPayloads hregular c f hc.2 pl hpl
        have hfield := (hregular t ht f hmem).number
        rw [hnumber] at hfield
        exact ⟨⟨hfield, hrange⟩, hdepth.trans (Nat.le_max_left _ _)⟩
      | none =>
        simp only [hf] at hc hpl
        obtain ⟨hnumber, ps, rfl, -, hrange⟩ := hc
        rw [contentPayloads] at hpl
        exact ⟨⟨hnumber, hrange pl hpl⟩,
          (depth_le_payloadsDepth pl hpl).trans (Nat.le_max_left _ _)⟩
    · obtain ⟨hrange, hdepth⟩ := bounds_contentRecords hregular m t ht hm r hr
      exact ⟨hrange, hdepth.trans (Nat.le_max_right _ _)⟩

end

/-- The records of an entry are in range and nested no deeper than the value. -/
theorem bounds_entryRecords (hregular : p.Regular) (key : Scalar) {f : Field}
    {e : String × Datum} (h : e.2.Stored p f.type) :
    ∀ r ∈ p.entryRecords key f e, (IsFieldNumber r.1 ∧ r.2.InRange) ∧ r.2.depth ≤ e.2.depth := by
  have hone : IsFieldNumber 1 := ⟨by decide, by decide⟩
  have htwo : IsFieldNumber 2 := ⟨by decide, by decide⟩
  intro r hr
  rcases List.mem_append.mp hr with hr | hr
  · unfold keyRecords at hr
    split at hr
    · next k hk =>
      split at hr
      · cases hr
      · have hadmits := Scalar.admits_of_ofKey? hk
        rw [List.mem_singleton.mp hr]
        refine ⟨⟨hone, Scalar.inRange_payload hadmits⟩, ?_⟩
        rw [(Scalar.has_payload hadmits).depth]
        exact Nat.zero_le _
    · cases hr
  · unfold valueRecords at hr
    split at hr
    · cases hr
    · obtain ⟨hrange, hdepth⟩ := bounds_payload hregular e.2 f.type h
      rw [List.mem_singleton.mp hr]
      exact ⟨⟨htwo, hrange⟩, hdepth⟩

end Pool

end Switchboard.Proto
