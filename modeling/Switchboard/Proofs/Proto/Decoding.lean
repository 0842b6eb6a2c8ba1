import Switchboard.Proofs.Proto.Payloads
import Switchboard.Proofs.Proto.Stored

/-!
# What decoding gives

Whatever bytes are read, each record leaves the message one that holds, in order, contents
of the kinds that its type declares.

## Main definitions

* `Keeps` — taking up a payload keeps a value one of its type.

## Main results

* `stored_mergeRecord` — one record keeps a message so.
* `stored_decode?` — **every message that is decoded is so.**
-/

namespace Switchboard.Proto.Pool

open Wire

variable {p : Pool} {t : MessageType} {m : Message} {merge : Merge} {limit : ℕ}

/-- Taking up a payload keeps a value one of its type. -/
def Keeps (p : Pool) (merge : Merge) : Prop :=
  ∀ type d pl d', d.Stored p type → pl.InRange → merge type d pl = some d' → d'.Stored p type

/-- What reading a field starts from is a value of its type. -/
theorem stored_default {f : Field} (hf : f.Regular p) : f.default.Stored p f.type :=
  hf.default.stored hf.known

theorem stored_mapM {type : FieldType} {start : Datum} (hmerge : p.Keeps merge)
    (hstart : start.Stored p type) {pls : List Payload} (hpls : ∀ pl ∈ pls, pl.InRange)
    {ds : List Datum} (h : pls.mapM (merge type start) = some ds) :
    ∀ d ∈ ds, d.Stored p type := by
  intro d hd
  obtain ⟨pl, hpl, hmerged⟩ := mem_of_mapM h d hd
  exact hmerge type start pl d hstart (hpls pl hpl) hmerged

/-- The values that a payload adds to a list are of its type. -/
theorem stored_elements? {f : Field} (hf : f.Regular p) (hmerge : p.Keeps merge)
    {pl : Payload} (hpl : pl.InRange) {ds : List Datum}
    (h : elements? merge f pl = some ds) : ∀ d ∈ ds, d.Stored p f.type := by
  have hone : ∀ {pl : Payload}, pl.InRange → (merge f.type f.default pl).map ([·]) = some ds →
      ∀ d ∈ ds, d.Stored p f.type := by
    intro pl hpl hmapped
    obtain ⟨d, hd, rfl⟩ := Option.map_eq_some_iff.mp hmapped
    exact List.forall_mem_singleton.mpr
      (hmerge f.type f.default pl d (stored_default hf) hpl hd)
  unfold elements? at h
  split at h
  · split at h
    · exact hone hpl h
    · obtain ⟨pls, hpls, hds⟩ := Option.bind_eq_some_iff.mp h
      exact stored_mapM hmerge (stored_default hf) (inRange_of_unpacked? hpls) hds
  · exact hone hpl h

/-- The key and the value of an entry are of their types. -/
def EntryStored (p : Pool) (key : Scalar) (type : FieldType) (entry : Datum × Datum) : Prop :=
  key.Admits entry.1 ∧ entry.2.Stored p type

theorem stored_mergeEntry {key : Scalar} {type : FieldType} (hmerge : p.Keeps merge)
    {entry entry' : Datum × Datum} (hentry : p.EntryStored key type entry)
    {record : ℕ × Payload} (hrecord : record.2.InRange)
    (h : mergeEntry merge key type entry record = some entry') :
    p.EntryStored key type entry' := by
  unfold mergeEntry at h
  split at h
  · obtain ⟨k, hk, rfl⟩ := Option.map_eq_some_iff.mp h
    exact ⟨Scalar.admits_of_ofPayload? hrecord hk, hentry.2⟩
  · obtain ⟨d, hd, rfl⟩ := Option.map_eq_some_iff.mp h
    exact ⟨hentry.1, hmerge _ _ _ _ hentry.2 hrecord hd⟩
  · obtain rfl := Option.some.inj h
    exact hentry

/-- Records keep the key and the value of an entry of their types. -/
theorem stored_foldlM_mergeEntry {key : Scalar} {type : FieldType} (hmerge : p.Keeps merge)
    {records : Records} (hrecords : recordsInRange records) {entry entry' : Datum × Datum}
    (hentry : p.EntryStored key type entry)
    (h : records.foldlM (mergeEntry merge key type) entry = some entry') :
    p.EntryStored key type entry' := by
  induction records generalizing entry with
  | nil =>
    obtain rfl := Option.some.inj h
    exact hentry
  | cons record records ih =>
    obtain ⟨number, pl⟩ := record
    rw [recordsInRange] at hrecords
    rw [List.foldlM_cons] at h
    obtain ⟨entry₁, hfirst, h⟩ := Option.bind_eq_some_iff.mp h
    exact ih hrecords.2 (stored_mergeEntry hmerge hentry hrecords.1.2 hfirst) h

/-- A map with one more entry. -/
theorem stored_insert {key : Scalar} {type : FieldType} {es : Dictionary Datum}
    (hordered : es.Ordered) (hes : entriesStored p key type es) {entry : Datum × Datum}
    (hentry : p.EntryStored key type entry) :
    (Content.map (Dictionary.insert entry.1.keyText entry.2 es)).Stored p (.map key) type := by
  refine ⟨key, rfl, hordered.insert _ _, entriesStored_iff.mpr fun e he => ?_⟩
  rcases Dictionary.mem_insert he with rfl | he
  · exact ⟨⟨entry.1, hentry.1, rfl⟩, hentry.2⟩
  · exact entriesStored_iff.mp hes e he

/-! ### Contents by their shape -/

/-- The value that a payload is taken up into. -/
def heldDatum (f : Field) : Option Content → Datum
  | some (.one d) => d
  | _ => f.default

/-- The elements that a payload is added to. -/
def heldElements : Option Content → List Datum
  | some (.list ds) => ds
  | _ => []

/-- The entries that a payload is added to. -/
def heldEntries : Option Content → Dictionary Datum
  | some (.map es) => es
  | _ => []

theorem mergeContent_single {f : Field} (hshape : f.shape = .single) (old : Option Content)
    (pl : Payload) :
    mergeContent limit merge f old pl
      = (merge f.type (heldDatum f old) pl).map .one := by
  unfold mergeContent
  simp only [hshape]
  rcases old with - | c
  · rfl
  · cases c <;> rfl

theorem mergeContent_list {f : Field} (hshape : f.shape = .list) (old : Option Content)
    (pl : Payload) :
    mergeContent limit merge f old pl
      = (elements? merge f pl).map fun ds => .list (heldElements old ++ ds) := by
  unfold mergeContent
  simp only [hshape]
  rcases old with - | c
  · rfl
  · cases c <;> rfl

theorem mergeContent_map {f : Field} {key : Scalar} (hshape : f.shape = .map key)
    (old : Option Content) (bs : Bytes) :
    mergeContent limit merge f old (.bytes bs)
      = (readRecords? limit bs).bind fun records =>
          (records.foldlM (mergeEntry merge key f.type) (key.zero, f.default)).bind fun entry =>
            some (.map (Dictionary.insert entry.1.keyText entry.2 (heldEntries old))) := by
  unfold mergeContent
  simp only [hshape]
  rcases old with - | c
  · rfl
  · cases c <;> rfl

theorem mergeContent_map_eq_none {f : Field} {key : Scalar} (hshape : f.shape = .map key)
    (old : Option Content) {pl : Payload} (hpl : ∀ bs, pl ≠ .bytes bs) :
    mergeContent limit merge f old pl = none := by
  unfold mergeContent
  simp only [hshape]

/-- The content of a field after one more payload is one of the field. -/
theorem stored_mergeContent {f : Field} (hf : f.Regular p) (hmerge : p.Keeps merge)
    {old : Option Content} (hold : ∀ c, old = some c → c.Stored p f.shape f.type)
    {pl : Payload} (hpl : pl.InRange) {c : Content}
    (h : mergeContent limit merge f old pl = some c) : c.Stored p f.shape f.type := by
  cases hshape : f.shape with
  | single =>
    rw [mergeContent_single hshape] at h
    obtain ⟨d, hd, rfl⟩ := Option.map_eq_some_iff.mp h
    refine ⟨rfl, hmerge _ _ _ _ ?_ hpl hd⟩
    unfold heldDatum
    split
    · exact (hold _ rfl).2
    · exact stored_default hf
  | list =>
    rw [mergeContent_list hshape] at h
    obtain ⟨ds, hds, rfl⟩ := Option.map_eq_some_iff.mp h
    refine ⟨rfl, elementsStored_iff.mpr fun d hd => ?_⟩
    rcases List.mem_append.mp hd with hd | hd
    · unfold heldElements at hd
      split at hd
      · exact elementsStored_iff.mp (hold _ rfl).2 d hd
      · cases hd
    · exact stored_elements? hf hmerge hpl hds d hd
  | map key =>
    cases pl with
    | bytes bs =>
      rw [mergeContent_map hshape] at h
      obtain ⟨records, hrecords, h⟩ := Option.bind_eq_some_iff.mp h
      obtain ⟨entry, hentry, h⟩ := Option.bind_eq_some_iff.mp h
      obtain rfl := Option.some.inj h
      have hstart : p.EntryStored key f.type (key.zero, f.default) :=
        ⟨key.admits_zero, stored_default hf⟩
      have hend := stored_foldlM_mergeEntry hmerge (inRange_of_readRecords? hrecords) hstart hentry
      unfold heldEntries
      split
      · obtain ⟨key', hkey', hordered, hes⟩ := hold _ rfl
        obtain rfl := Shape.map.inj (hshape.symm.trans hkey')
        exact stored_insert hordered hes hend
      · exact stored_insert Dictionary.ordered_nil trivial hend
    | varint n | fixed64 n | group rs | fixed32 n =>
      rw [mergeContent_map_eq_none hshape _ (fun bs heq => by cases heq)] at h
      cases h

/-! ### Messages -/

/-- One more record keeps a message one that readers give. -/
theorem stored_mergeRecord (ht : t.Linked p) (hregular : ∀ f ∈ t.fields, f.Regular p)
    (hmerge : p.Keeps merge) (hm : m.Stored p t) {record : ℕ × Payload}
    (hnumber : IsFieldNumber record.1) (hrecord : record.2.InRange) {m' : Message}
    (h : mergeRecord limit merge t m record = some m') : m'.Stored p t := by
  unfold mergeRecord at h
  split at h
  · next f hf =>
    obtain ⟨c, hc, rfl⟩ := Option.map_eq_some_iff.mp h
    obtain ⟨hmem, -⟩ := mem_of_field? hf
    exact hm.set ht hmem fun _ => stored_mergeContent (hregular f hmem) hmerge
      (fun c' hold => hm.content ht hmem hold) hrecord hc
  · next hnone =>
    obtain rfl := Option.some.inj h
    refine hm.put_unknown hnone hnumber (by simp) (fun pl hpl => ?_) ht
    rcases List.mem_append.mp hpl with hpl | hpl
    · split at hpl
      · next ps hget =>
        have hat := hm.contents _ (Message.mem_of_get? hget)
        simp only [Content.StoredAt, hnone] at hat
        obtain ⟨-, ps', hps', -, hrange⟩ := hat
        obtain rfl := Content.unknown.inj hps'
        exact hrange pl hpl
      · cases hpl
    · rw [List.mem_singleton.mp hpl]
      exact hrecord

/-- So do any number of records. -/
theorem stored_foldlM_mergeRecord (ht : t.Linked p) (hregular : ∀ f ∈ t.fields, f.Regular p)
    (hmerge : p.Keeps merge) {records : Records} (hrecords : recordsInRange records)
    (hm : m.Stored p t) {m' : Message}
    (h : records.foldlM (mergeRecord limit merge t) m = some m') : m'.Stored p t := by
  induction records generalizing m with
  | nil =>
    obtain rfl := Option.some.inj h
    exact hm
  | cons record records ih =>
    obtain ⟨number, pl⟩ := record
    rw [recordsInRange] at hrecords
    rw [List.foldlM_cons] at h
    obtain ⟨m₁, hfirst, h⟩ := Option.bind_eq_some_iff.mp h
    exact ih hrecords.2
      (stored_mergeRecord ht hregular hmerge hm hrecords.1.1 hrecords.1.2 hfirst) h

theorem mergeDatum_scalar (p : Pool) (limit : ℕ) (k : Scalar) (d : Datum) (pl : Payload) :
    p.mergeDatum limit (.scalar k) d pl = k.ofPayload? pl := by
  cases limit <;> rw [mergeDatum]

theorem mergeDatum_enumeration (p : Pool) (limit : ℕ) (name : String) (d : Datum) (n : ℕ) :
    p.mergeDatum limit (.enumeration name) d (.varint n) = some (.int (Scalar.signed 32 n)) := by
  cases limit <;> rw [mergeDatum]

/-- Only a number is taken up into an enum value. -/
theorem exists_varint {name : String} {d d' : Datum} {pl : Payload}
    (h : p.mergeDatum limit (.enumeration name) d pl = some d') : ∃ n, pl = .varint n := by
  cases pl with
  | varint n => exact ⟨n, rfl⟩
  | fixed64 n | bytes bs | group rs | fixed32 n =>
    cases limit with
    | zero => simp [mergeDatum] at h
    | succ limit => simp [mergeDatum] at h

/-- The records that are taken up into a message: those in a byte string, or those between
the marks of a group. -/
theorem exists_records {name : String} {type : FieldType}
    (htype : type = .message name ∨ type = .group name) {d' : Datum} {pl : Payload}
    (hpl : pl.InRange) (h : p.mergeDatum limit type (.message m) pl = some d') :
    ∃ below records t, limit = below + 1 ∧ recordsInRange records ∧ p.message? name = some t ∧
      ∃ m', records.foldlM (mergeRecord below (p.mergeDatum below) t) m = some m' ∧
        d' = .message m' := by
  cases limit with
  | zero => rcases htype with rfl | rfl <;> simp [mergeDatum] at h
  | succ below =>
    rcases htype with rfl | rfl
    · cases pl with
      | bytes bs =>
        rw [mergeDatum] at h
        obtain ⟨t, ht, h⟩ := Option.bind_eq_some_iff.mp h
        obtain ⟨records, hrecords, h⟩ := Option.bind_eq_some_iff.mp h
        obtain ⟨m', hm', h⟩ := Option.bind_eq_some_iff.mp h
        obtain rfl := Option.some.inj h
        exact ⟨below, records, t, rfl, inRange_of_readRecords? hrecords, ht, m', hm', rfl⟩
      | varint n | fixed64 n | group rs | fixed32 n => simp [mergeDatum] at h
    · cases pl with
      | group records =>
        rw [mergeDatum] at h
        obtain ⟨t, ht, h⟩ := Option.bind_eq_some_iff.mp h
        obtain ⟨m', hm', h⟩ := Option.bind_eq_some_iff.mp h
        obtain rfl := Option.some.inj h
        exact ⟨below, records, t, rfl, hpl, ht, m', hm', rfl⟩
      | varint n | fixed64 n | bytes bs | fixed32 n => simp [mergeDatum] at h

/-- Taking up a payload keeps a value one of its type, however deeply messages may be
nested. -/
theorem keeps_mergeDatum (hp : p.Linked) (hregular : p.Regular) (limit : ℕ) :
    p.Keeps (p.mergeDatum limit) := by
  induction limit using Nat.strongRecOn with
  | ind limit ih =>
    intro type d pl d' hd hpl h
    cases htype : Linking.isMessage type with
    | false =>
      cases type with
      | scalar k =>
        rw [mergeDatum_scalar] at h
        have hadmits := Scalar.admits_of_ofPayload? hpl h
        exact FieldType.Admits.stored hadmits
      | enumeration name =>
        obtain ⟨n, rfl⟩ := exists_varint h
        rw [mergeDatum_enumeration] at h
        obtain rfl := Option.some.inj h
        obtain ⟨hlow, hhigh⟩ := signed_bounds 31 n
        exact FieldType.Admits.stored ⟨_, rfl, hlow, hhigh⟩
      | message name | group name => cases htype
    | true =>
      obtain ⟨name, hname⟩ := Linking.exists_name_of_isMessage htype
      obtain ⟨m, t, rfl, ht, hm⟩ := hd.exists_message hname
      obtain ⟨below, records, t', rfl, hrecords, ht', m', hm', rfl⟩ := exists_records hname hpl h
      obtain rfl : t = t' := Option.some.inj (ht.symm.trans ht')
      have hstored := stored_foldlM_mergeRecord (linked_of_message? hp ht)
        (hregular t (List.mem_of_find?_eq_some ht)) (ih below (Nat.lt_succ_self _)) hrecords hm hm'
      exact Datum.stored_message_iff.mpr ⟨name, hname, t, ht, hstored⟩

/-- **Every message that is decoded is one that readers give.** -/
theorem stored_decode? (hp : p.Linked) (hregular : p.Regular) {name : String}
    (ht : p.message? name = some t) {bs : Bytes} (h : p.decode? t bs = some m) :
    m.Stored p t := by
  unfold decode? merge? at h
  obtain ⟨records, hrecords, h⟩ := Option.bind_eq_some_iff.mp h
  exact stored_foldlM_mergeRecord (linked_of_message? hp ht)
    (hregular t (List.mem_of_find?_eq_some ht)) (keeps_mergeDatum hp hregular _)
    (inRange_of_readRecords? hrecords) (Message.stored_nil p t) h

end Switchboard.Proto.Pool
