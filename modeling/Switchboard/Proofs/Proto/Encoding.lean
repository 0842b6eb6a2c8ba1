import Switchboard.Proofs.Proto.Reads
import Switchboard.Proofs.Proto.Settled

/-!
# Decoding what was encoded

The records of a message come one content after the other, and each content is built up
again behind those before it: the records of a field only ever concern that field, since no
earlier content is under its number or in its oneof.

## Main definitions

* `Payload.Short` — byte strings no longer than a length can tell.
* `MessageType.Precedes`, `Message.Before` — contents that do not get into each other's way.
* `Pool.mergeAt` — what is held under a number after one more payload.
* `Pool.Returns` — reading gives back what is left of a value.

## Main results

* `Pool.foldlM_mergeRecord_snoc` — the records under one number build up one content.
* `Pool.foldlM_mergeAt_content` — they build up what is left of the content.
* `Pool.decode?_encode` — **decoding gives back what is left of a message.**
-/

namespace Switchboard.Proto

open Wire

/-! ### Lengths -/

/-- A byte string no longer than a length can tell, or a group of records in so many bytes. -/
def Wire.Payload.Short : Payload → Prop
  | .bytes bs => bs.length < 2 ^ 64
  | .group rs => (writeRecords rs).length < 2 ^ 64
  | _ => True

theorem Wire.short_of_length {number : ℕ} {pl : Payload}
    (h : (pl.write number).length < 2 ^ 64) : pl.Short := by
  cases pl with
  | bytes bs =>
    rw [Payload.write, List.length_append] at h
    exact Nat.lt_of_le_of_lt (Nat.le_add_left _ _) h
  | group rs =>
    rw [Payload.write, List.length_append, List.length_append] at h
    show (writeRecords rs).length < 2 ^ 64
    omega
  | varint n | fixed64 n | fixed32 n => trivial

/-- Records in few bytes have short payloads. -/
theorem Wire.short_of_mem {rs : Records} (h : (writeRecords rs).length < 2 ^ 64) :
    ∀ r ∈ rs, r.2.Short := by
  induction rs with
  | nil => simp
  | cons r rs ih =>
    obtain ⟨number, pl⟩ := r
    rw [writeRecords_cons, List.length_append] at h
    refine List.forall_mem_cons.mpr ⟨?_, ih (by omega)⟩
    have hwritten : (pl.write number).length < 2 ^ 64 := by omega
    exact short_of_length hwritten

/-- A payload of a form without a length. -/
theorem Form.Has.short {form : Form} {pl : Payload} (h : form.Has pl) (hform : form ≠ .bytes) :
    pl.Short := by
  cases pl with
  | bytes bs =>
    cases form with
    | bytes => exact absurd rfl hform
    | varint | fixed64 | fixed32 => exact h.elim
  | group rs => cases form <;> exact h.elim
  | varint n | fixed64 n | fixed32 n => trivial

/-! ### One content behind others -/

variable {p : Pool} {t : MessageType} {m acc : Message} {n : ℕ}

/-- A content under one number does not get into the way of a later one: their fields are
in no oneof together. -/
structure MessageType.Precedes (t : MessageType) (a b : ℕ) : Prop where
  lt : a < b
  apart : ∀ f ∈ t.fields, ∀ g ∈ t.fields, f.number = a → g.number = b →
    f.oneof = g.oneof → g.oneof = none

/-- The contents of a message do not get into each other's way. -/
theorem Message.Stored.precedes (hm : m.Stored p t) :
    m.Pairwise fun a b => t.Precedes a.1 b.1 := by
  have hheld : ∀ {e : ℕ × Content}, e ∈ m → (m.get? e.1).isSome = true := by
    intro e he
    rw [get?_of_mem hm.ordered he, Option.isSome_some]
  refine List.Pairwise.imp_of_mem (fun {a b} ha hb hlt => ⟨hlt, ?_⟩) hm.ordered
  -- two contents that are held in one oneof would be under one number
  intro f hf g hg hfa hgb hsame
  by_contra hsome
  have hnumber : f.number = g.number := by
    refine hm.oneOfEach f hf g hg (hsame ▸ hsome) hsame ?_ ?_
    · rw [hfa]
      exact hheld ha
    · rw [hgb]
      exact hheld hb
  omega

/-- The message with one more content at its end, if there is one. -/
def Message.snoc (acc : Message) (n : ℕ) (c : Option Content) : Message :=
  acc ++ (c.map (n, ·)).toList

theorem Message.foldl_drop_of_eq {gs : List Field} (h : ∀ g ∈ gs, m.drop g.number = m) :
    gs.foldl (fun m g => m.drop g.number) m = m := by
  induction gs with
  | nil => rfl
  | cons g gs ih =>
    obtain ⟨hg, hgs⟩ := List.forall_mem_cons.mp h
    rw [List.foldl_cons, hg]
    exact ih hgs

/-- All contents come before those under a number. -/
def Message.Before (t : MessageType) (n : ℕ) (acc : Message) : Prop :=
  ∀ a ∈ acc, t.Precedes a.1 n

namespace Message.Before

variable (h : acc.Before t n)

include h

theorem get?_snoc (c : Option Content) : (acc.snoc n c).get? n = c := by
  induction acc with
  | nil => cases c <;> simp [snoc]
  | cons a acc ih =>
    obtain ⟨ha, hacc⟩ := List.forall_mem_cons.mp h
    rw [snoc, List.cons_append, get?_cons, if_neg (Nat.ne_of_gt ha.lt)]
    exact ih hacc

theorem put_snoc (old : Option Content) (c : Content) :
    (acc.snoc n old).put n c = acc.snoc n (some c) := by
  induction acc with
  | nil => cases old <;> simp [snoc, put]
  | cons a acc ih =>
    obtain ⟨ha, hacc⟩ := List.forall_mem_cons.mp h
    have hlt := ha.lt
    rw [snoc, List.cons_append, put, if_neg (by omega), if_neg (by omega)]
    exact congrArg (a :: ·) (ih hacc)

theorem drop_snoc (old : Option Content) : (acc.snoc n old).drop n = acc.snoc n none := by
  have hkept : acc.filter (·.1 ≠ n) = acc := by
    refine List.filter_eq_self.mpr fun a ha => ?_
    simpa using Nat.ne_of_lt (h a ha).lt
  have hdropped : (old.map (n, ·)).toList.filter (·.1 ≠ n) = [] := by
    cases old <;> simp
  rw [drop, snoc, List.filter_append, hkept, hdropped]
  rfl

/-- No other field of the oneof of a field holds anything. -/
theorem clearOthers_snoc {f : Field} (hf : f ∈ t.fields) (hn : f.number = n)
    (old : Option Content) : (acc.snoc n old).clearOthers t f = acc.snoc n old := by
  unfold clearOthers
  split
  · rfl
  · next i hi =>
    refine foldl_drop_of_eq fun g hg => ?_
    obtain ⟨hg, hne⟩ := List.mem_filter.mp hg
    obtain ⟨hg, hgi⟩ := List.mem_filter.mp hg
    simp only [ne_eq, decide_not, Bool.not_eq_true', decide_eq_false_iff_not,
      decide_eq_true_eq] at hne hgi
    refine List.filter_eq_self.mpr fun a ha => ?_
    simp only [ne_eq, decide_not, Bool.not_eq_true', decide_eq_false_iff_not]
    intro hag
    -- a content in front is in another oneof, and the one at the end is the field's own
    rcases List.mem_append.mp ha with ha | ha
    · have hnone := (h a ha).apart g hg f hf hag.symm hn (hgi.trans hi.symm)
      rw [hi] at hnone
      cases hnone
    · cases old with
      | none => cases ha
      | some c =>
        obtain rfl := List.mem_singleton.mp ha
        exact hne (hag.symm.trans hn.symm)

theorem set_snoc {f : Field} (hf : f ∈ t.fields) (hn : f.number = n)
    (old : Option Content) (c : Content) :
    (acc.snoc n old).set t f c = acc.snoc n ((some c).filter f.holds) := by
  rw [set, h.clearOthers_snoc hf hn, hold, Option.filter_some, hn]
  split
  · exact h.put_snoc old c
  · exact h.drop_snoc old

end Message.Before

/-! ### The records under one number -/

namespace Pool

variable {limit : ℕ} {merge : Merge}

/-- The payloads that a payload is added to. -/
def heldPayloads : Option Content → List Payload
  | some (.unknown ps) => ps
  | _ => []

/-- What is held under a number after one more payload. -/
def mergeAt (limit : ℕ) (merge : Merge) (f : Option Field) (old : Option Content)
    (pl : Payload) : Option (Option Content) :=
  match f with
  | some f => (mergeContent limit merge f old pl).map fun c => (some c).filter f.holds
  | none => some (some (.unknown (heldPayloads old ++ [pl])))

/-- A record concerns the content under its number only. -/
theorem mergeRecord_snoc (hacc : acc.Before t n) (old : Option Content)
    (pl : Payload) :
    mergeRecord limit merge t (acc.snoc n old) (n, pl)
      = (mergeAt limit merge (t.field? n) old pl).map (acc.snoc n) := by
  unfold mergeRecord mergeAt
  dsimp only
  cases hf : t.field? n with
  | some f =>
    obtain ⟨hmem, hn⟩ := mem_of_field? hf
    dsimp only
    rw [hn, hacc.get?_snoc, Option.map_map]
    congr 1
    funext c
    exact hacc.set_snoc hmem hn old c
  | none =>
    dsimp only
    rw [hacc.get?_snoc, hacc.put_snoc, Option.map_some]
    rcases old with - | c
    · rfl
    · cases c <;> rfl

/-- **The records under one number build up one content.** -/
theorem foldlM_mergeRecord_snoc (hacc : acc.Before t n)
    (pls : List Payload) (old : Option Content) :
    (pls.map (n, ·)).foldlM (mergeRecord limit merge t) (acc.snoc n old)
      = (pls.foldlM (mergeAt limit merge (t.field? n)) old).map (acc.snoc n) := by
  induction pls generalizing old with
  | nil => rfl
  | cons pl pls ih =>
    rw [List.map_cons, List.foldlM_cons, List.foldlM_cons, mergeRecord_snoc hacc]
    cases mergeAt limit merge (t.field? n) old pl with
    | none => rfl
    | some c => exact ih c

/-! ### Contents by their shape -/

/-- Reading the payload of a value, wherever it starts from, gives back what is left of the
value. -/
def Returns (p : Pool) (limit : ℕ) (merge : Merge) : Prop :=
  ∀ type start d, type.Starts start → d.Stored p type → d.depth ≤ limit →
    (p.payload type d).Short → merge type start (p.payload type d) = some (d.settled p type)

/-- What is left of a value differs from a default where the value does. -/
theorem identical_settled {type : FieldType} (d d' : Datum) :
    (d.settled p type).identical d' = d.identical d' := by
  cases d with
  | message m =>
    unfold Datum.settled
    split <;> rfl
  | _ => rfl

/-- Nothing is left out of a value that equals the default by value, unless it is a zero. -/
theorem settled_of_same {type : FieldType} {d d' : Datum} (hsame : d.same d' = true)
    (hzeros : d.zeros d' = false) : d.settled p type = d' := by
  obtain rfl := Datum.eq_of_same hsame hzeros
  cases d with
  | message m => cases hsame
  | _ => rfl

theorem mapM_payloads {type : FieldType} {start : Datum} {ds : List Datum}
    (h : ∀ d ∈ ds, merge type start (p.payload type d) = some (d.settled p type)) :
    (p.payloads type ds).mapM (merge type start) = some (settledElements p type ds) := by
  induction ds with
  | nil => rfl
  | cons d ds ih =>
    obtain ⟨hd, hds⟩ := List.forall_mem_cons.mp h
    rw [payloads, settledElements, List.mapM_cons, hd, ih hds]
    rfl

/-- The types that may be packed have payloads without a length. -/
theorem form_of_packable {type : FieldType} (h : Linking.packable type = true) :
    Linking.isMessage type = false ∧ type.form ≠ .bytes := by
  cases type with
  | scalar k =>
    refine ⟨rfl, fun hform => ?_⟩
    cases k <;> cases hform <;> cases h
  | enumeration name => exact ⟨rfl, nofun⟩
  | message name | group name => cases h

/-- A value has a byte string for its payload only if its type is one of byte strings. -/
theorem form_of_payload_bytes {type : FieldType} {d : Datum} (hd : d.Stored p type)
    {bs : Bytes} (h : p.payload type d = .bytes bs) : type.form = .bytes := by
  cases htype : Linking.isMessage type with
  | false =>
    have hhas := p.has_payload (hd.admits htype)
    rw [h] at hhas
    cases hform : type.form with
    | bytes => rfl
    | varint | fixed64 | fixed32 =>
      rw [hform] at hhas
      exact hhas.elim
  | true =>
    obtain ⟨name, rfl | rfl⟩ := Linking.exists_name_of_isMessage htype
    · rfl
    · rfl

/-- What a message holds for a field is written unless it is a zero like the default and the
field does not tell the two apart. -/
theorem carries_of_holds {f : Field} {d : Datum} (h : f.holds (.one d) = true) :
    f.carries d = !(!f.explicit && d.zeros f.default) := by
  rw [Field.holds] at h
  rw [Field.carries]
  cases hexplicit : f.explicit with
  | true => rfl
  | false =>
    rw [hexplicit, Bool.false_or, Bool.not_eq_true'] at h
    rw [Datum.same_eq_zeros h]
    rfl

/-- No key is a zero with a point. -/
theorem zeros_zero {k : Scalar} (hk : k.isKey = true) (d : Datum) :
    d.zeros k.zero = false := by
  cases k with
  | double | float | bytes => cases hk
  | _ => cases d <;> rfl

/-- The record of a key gives back a key with the text, also if it is left out. -/
theorem foldlM_keyRecords {key : Scalar} {type : FieldType} {s : String}
    (h : ∃ x, key.Admits x ∧ x.keyText = s) (d : Datum) :
    ∃ k, k.keyText = s ∧
      (keyRecords key s).foldlM (mergeEntry merge key type) (key.zero, d) = some (k, d) := by
  obtain ⟨x, hx, rfl⟩ := h
  cases hk : key.isKey with
  | true =>
    refine ⟨x, rfl, ?_⟩
    rw [keyRecords, Scalar.ofKey?_keyText hx hk]
    dsimp only
    split
    · next hsame =>
      rw [Datum.eq_of_same hsame (zeros_zero hk x)]
      rfl
    · rw [List.foldlM_cons, mergeEntry, Scalar.ofPayload?_payload hx]
      rfl
  | false =>
    obtain ⟨htext, hnone⟩ := Scalar.keyText_of_not_isKey hk hx
    obtain ⟨hzero, -⟩ := Scalar.keyText_of_not_isKey hk key.admits_zero
    refine ⟨key.zero, hzero.trans htext.symm, ?_⟩
    rw [keyRecords, htext, hnone]
    rfl

section Field

variable {f : Field} (hf : f.Regular p) (hreturns : p.Returns limit merge)

include hf hreturns

/-- A single value. -/
theorem foldlM_mergeAt_one (hshape : f.shape = .single) {d : Datum}
    (hholds : f.holds (.one d) = true) (hd : d.Stored p f.type) (hdepth : d.depth ≤ limit)
    (hshort : ∀ pl ∈ p.contentPayloads (some f) (.one d), pl.Short) :
    (p.contentPayloads (some f) (.one d)).foldlM (mergeAt limit merge (some f)) none
      = some ((Content.one d).settled p f) := by
  rw [contentPayloads, carries_of_holds hholds] at hshort
  rw [contentPayloads, carries_of_holds hholds, Content.settled]
  cases hlost : !f.explicit && d.zeros f.default with
  | true => rfl
  | false =>
    rw [hlost] at hshort
    have hmerge := hreturns f.type f.default d hf.default hd hdepth
      (hshort _ (List.mem_singleton_self _))
    have hheld : f.holds (.one (d.settled p f.type)) = true := by
      rw [Field.holds, identical_settled]
      exact hholds
    have hstep : mergeAt limit merge (some f) none (p.payload f.type d)
        = some (some (.one (d.settled p f.type))) := by
      rw [mergeAt, mergeContent_single hshape]
      change ((merge f.type f.default _).map _).map _ = _
      rw [hmerge, Option.map_some, Option.map_some, Option.filter_some, if_pos hheld]
    rw [Bool.not_false, if_pos rfl, List.foldlM_cons, hstep]
    rfl

/-- One element of a list. -/
theorem elements?_payload {d : Datum} (hd : d.Stored p f.type) (hdepth : d.depth ≤ limit)
    (hshort : (p.payload f.type d).Short) :
    elements? merge f (p.payload f.type d) = some [d.settled p f.type] := by
  have hmerge := hreturns f.type f.default d hf.default hd hdepth hshort
  unfold elements?
  split
  · next bs hpl =>
    rw [form_of_payload_bytes hd hpl]
    dsimp only
    rw [← hpl, hmerge, Option.map_some]
  · rw [hmerge, Option.map_some]

omit hf hreturns in
theorem heldElements_filter (ds : List Datum) :
    heldElements ((some (.list ds)).filter f.holds) = ds := by
  cases ds <;> rfl

/-- The elements of a list, each in a record of its own. -/
theorem foldlM_mergeAt_elements (hshape : f.shape = .list) {ds : List Datum}
    (hds : ∀ d ∈ ds, d.Stored p f.type) (hdepth : elementsDepth ds ≤ limit)
    (hshort : ∀ pl ∈ p.payloads f.type ds, pl.Short) (done : List Datum) :
    (p.payloads f.type ds).foldlM (mergeAt limit merge (some f))
        ((some (.list done)).filter f.holds)
      = some ((some (.list (done ++ settledElements p f.type ds))).filter f.holds) := by
  induction ds generalizing done with
  | nil =>
    rw [payloads, settledElements, List.append_nil]
    rfl
  | cons d ds ih =>
    rw [elementsDepth] at hdepth
    rw [payloads] at hshort
    obtain ⟨hd, hds⟩ := List.forall_mem_cons.mp hds
    obtain ⟨hfirst, hrest⟩ := List.forall_mem_cons.mp hshort
    have hstep : mergeAt limit merge (some f) ((some (.list done)).filter f.holds)
        (p.payload f.type d)
          = some ((some (.list (done ++ [d.settled p f.type]))).filter f.holds) := by
      rw [mergeAt, mergeContent_list hshape, heldElements_filter,
        elements?_payload hf hreturns hd (by omega) hfirst]
      rfl
    rw [payloads, settledElements, List.foldlM_cons, hstep,
      List.append_cons _ _ (settledElements p f.type ds)]
    exact ih hds (by omega) hrest _

/-- The elements of a list, all in one record. -/
theorem mergeAt_packed (hshape : f.shape = .list) (hpacked : f.packed = true)
    {ds : List Datum} (hds : ∀ d ∈ ds, d.Stored p f.type) (hdepth : elementsDepth ds ≤ limit) :
    mergeAt limit merge (some f) none (.bytes ((p.payloads f.type ds).flatMap bare))
      = some ((some (.list (settledElements p f.type ds))).filter f.holds) := by
  obtain ⟨htype, hform⟩ := form_of_packable (hf.packed hpacked)
  have hhas : ∀ d ∈ ds, f.type.form.Has (p.payload f.type d) ∧ (p.payload f.type d).InRange := by
    intro d hd
    have hadmits := (hds d hd).admits htype
    exact ⟨p.has_payload hadmits, (p.bounds_admits hadmits).1⟩
  have hunpacked : unpacked? f.type.form ((p.payloads f.type ds).flatMap bare)
      = some (p.payloads f.type ds) := by
    refine unpacked?_bare hform ?_
    rw [payloads_eq]
    exact List.forall_mem_map.mpr hhas
  have hmapM : (p.payloads f.type ds).mapM (merge f.type f.default)
      = some (settledElements p f.type ds) := by
    refine mapM_payloads fun d hd => ?_
    have hshort := (hhas d hd).1.short hform
    exact hreturns f.type f.default d hf.default (hds d hd)
      ((depth_le_elementsDepth d hd).trans hdepth) hshort
  have helements : elements? merge f (.bytes ((p.payloads f.type ds).flatMap bare))
      = some (settledElements p f.type ds) := by
    rw [elements?]
    split
    · next heq => exact absurd heq hform
    · rw [hunpacked, Option.bind_some, hmapM]
  rw [mergeAt, mergeContent_list hshape, helements]
  rfl

/-- The values of a list. -/
theorem foldlM_mergeAt_list (hshape : f.shape = .list) {ds : List Datum}
    (hholds : f.holds (.list ds) = true) (hds : ∀ d ∈ ds, d.Stored p f.type)
    (hdepth : elementsDepth ds ≤ limit)
    (hshort : ∀ pl ∈ p.contentPayloads (some f) (.list ds), pl.Short) :
    (p.contentPayloads (some f) (.list ds)).foldlM (mergeAt limit merge (some f)) none
      = some ((Content.list ds).settled p f) := by
  have hkept : (some (Content.list (settledElements p f.type ds))).filter f.holds
      = some (.list (settledElements p f.type ds)) := by
    cases ds with
    | nil => cases hholds
    | cons d ds => rfl
  rw [Content.settled, ← hkept]
  rw [contentPayloads] at hshort ⊢
  split
  · next hpacked =>
    rw [List.foldlM_cons, mergeAt_packed hf hreturns hshape hpacked hds hdepth]
    rfl
  · next hpacked =>
    rw [if_neg hpacked] at hshort
    exact foldlM_mergeAt_elements hf hreturns hshape hds hdepth hshort []

omit hf hreturns in
theorem heldEntries_filter (es : Dictionary Datum) :
    heldEntries ((some (.map es)).filter f.holds) = es := by
  cases es <;> rfl

/-- The records of an entry give back the key and what is left of the value. -/
theorem foldlM_mergeEntry {key : Scalar} {e : String × Datum}
    (hkey : ∃ x, key.Admits x ∧ x.keyText = e.1) (hd : e.2.Stored p f.type)
    (hdepth : e.2.depth ≤ limit) (hshort : ∀ r ∈ p.entryRecords key f e, r.2.Short) :
    ∃ k, k.keyText = e.1 ∧
      (p.entryRecords key f e).foldlM (mergeEntry merge key f.type) (key.zero, f.default)
        = some (k, (settledEntry p f e).2) := by
  obtain ⟨k, hk, hfirst⟩ : ∃ k, k.keyText = e.1 ∧
      (keyRecords key e.1).foldlM (mergeEntry merge key f.type) (key.zero, f.default)
        = some (k, f.default) := foldlM_keyRecords hkey f.default
  refine ⟨k, hk, ?_⟩
  have hsecond : (p.valueRecords f e.2).foldlM (mergeEntry merge key f.type) (k, f.default)
      = some (k, (settledEntry p f e).2) := by
    unfold entryRecords at hshort
    unfold valueRecords at hshort ⊢
    rw [settledEntry]
    cases hsame : e.2.same f.default with
    | true =>
      cases hzeros : e.2.zeros f.default with
      | true => rfl
      | false =>
        rw [settled_of_same hsame hzeros]
        rfl
    | false =>
      have hzeros : e.2.zeros f.default = false := by
        by_contra hzeros
        rw [Datum.same_of_zeros (Bool.not_eq_false _ ▸ hzeros)] at hsame
        cases hsame
      have hmerge := hreturns f.type f.default e.2 hf.default hd hdepth
        (hshort (2, p.payload f.type e.2) (by simp [hsame]))
      rw [if_neg Bool.false_ne_true, List.foldlM_cons, mergeEntry, hmerge, hzeros]
      rfl
  rw [entryRecords, List.foldlM_append, hfirst]
  exact hsecond

/-- The entries of a map, each in a record of its own. -/
theorem foldlM_mergeAt_entries (hregular : p.Regular) {key : Scalar}
    (hshape : f.shape = .map key) {es : Dictionary Datum} (hes : entriesStored p key f.type es)
    (hordered : es.Ordered) (hdepth : entriesDepth es ≤ limit)
    (hshort : ∀ pl ∈ p.entryPayloads key f es, pl.Short) (done : Dictionary Datum)
    (hdone : ∀ a ∈ done, ∀ e ∈ es, a.1 < e.1) :
    (p.entryPayloads key f es).foldlM (mergeAt limit merge (some f))
        ((some (.map done)).filter f.holds)
      = some ((some (.map (done ++ settledEntries p f es))).filter f.holds) := by
  rw [entryPayloads_eq] at hshort ⊢
  rw [settledEntries_eq]
  induction es generalizing done with
  | nil =>
    rw [List.map_nil, List.map_nil, List.append_nil]
    rfl
  | cons e es ih =>
    obtain ⟨hfirst, hrest⟩ := List.forall_mem_cons.mp hshort
    obtain ⟨⟨hkey, hd⟩, hes⟩ := List.forall_mem_cons.mp (entriesStored_iff.mp hes)
    obtain ⟨hlt, hordered⟩ := Dictionary.ordered_cons.mp hordered
    rw [entriesDepth] at hdepth
    have hbounds := bounds_entryRecords hregular key hd
    have hread : readRecords? limit (writeRecords (p.entryRecords key f e))
        = some (p.entryRecords key f e) := by
      refine readRecords?_writeRecords ?_ hfirst ?_
      · exact recordsInRange_iff.mpr fun r hr => (hbounds r hr).1
      · exact recordsDepth_le_iff.mpr fun r hr => (hbounds r hr).2.trans (by omega)
    obtain ⟨k, hk, hentry⟩ := foldlM_mergeEntry hf hreturns hkey hd (by omega) (short_of_mem hfirst)
    -- the keys come in order, so each entry is put at the end
    have hlast : ∀ a ∈ done, a.1 < e.1 := fun a ha => hdone a ha e List.mem_cons_self
    have hstep : mergeAt limit merge (some f) ((some (.map done)).filter f.holds)
        (.bytes (writeRecords (p.entryRecords key f e)))
          = some ((some (.map (done ++ [settledEntry p f e]))).filter f.holds) := by
      rw [mergeAt, mergeContent_map hshape, heldEntries_filter, hread, Option.bind_some, hentry,
        Option.bind_some]
      dsimp only
      rw [hk, Dictionary.insert_of_forall_lt hlast]
      rfl
    rw [List.map_cons, List.map_cons, List.foldlM_cons, hstep,
      List.append_cons _ _ (es.map (settledEntry p f))]
    refine ih (entriesStored_iff.mpr hes) hordered (by omega) hrest _ fun a ha e' he' => ?_
    rcases List.mem_append.mp ha with ha | ha
    · exact hdone a ha e' (List.mem_cons_of_mem _ he')
    · rw [List.mem_singleton.mp ha]
      exact hlt e' he'

/-- The values of a map. -/
theorem foldlM_mergeAt_map (hregular : p.Regular) {key : Scalar} (hshape : f.shape = .map key)
    {es : Dictionary Datum} (hholds : f.holds (.map es) = true)
    (hes : entriesStored p key f.type es) (hordered : es.Ordered)
    (hdepth : entriesDepth es ≤ limit)
    (hshort : ∀ pl ∈ p.contentPayloads (some f) (.map es), pl.Short) :
    (p.contentPayloads (some f) (.map es)).foldlM (mergeAt limit merge (some f)) none
      = some ((Content.map es).settled p f) := by
  have hkept : (some (Content.map (settledEntries p f es))).filter f.holds
      = some (.map (settledEntries p f es)) := by
    cases es with
    | nil => cases hholds
    | cons e es => rfl
  rw [Content.settled, ← hkept]
  rw [contentPayloads] at hshort ⊢
  simp only [hshape] at hshort ⊢
  exact foldlM_mergeAt_entries hf hreturns hregular hshape hes hordered hdepth hshort [] nofun

end Field

/-- Payloads that no field takes. -/
theorem foldlM_mergeAt_unknown (pls done : List Payload) :
    pls.foldlM (mergeAt limit merge none) (some (.unknown done))
      = some (some (.unknown (done ++ pls))) := by
  induction pls generalizing done with
  | nil => rw [List.append_nil]; rfl
  | cons pl pls ih =>
    rw [List.foldlM_cons, List.append_cons done pl]
    exact ih _

/-- **The payloads of a content build up what is left of the content.** -/
theorem foldlM_mergeAt_content (hregular : p.Regular) (hreturns : p.Returns limit merge)
    (ht : t ∈ p.messages) {c : Content} (hc : c.StoredAt p t n) (hdepth : c.depth ≤ limit)
    (hshort : ∀ pl ∈ p.contentPayloads (t.field? n) c, pl.Short) :
    (p.contentPayloads (t.field? n) c).foldlM (mergeAt limit merge (t.field? n)) none
      = some (c.settledAt p (t.field? n)) := by
  unfold Content.StoredAt at hc
  cases hfield : t.field? n with
  | some f =>
    rw [hfield] at hc hshort
    obtain ⟨hholds, hc⟩ := hc
    obtain ⟨hmem, -⟩ := mem_of_field? hfield
    have hf := hregular t ht f hmem
    cases c with
    | one d => exact foldlM_mergeAt_one hf hreturns hc.1 hholds hc.2 hdepth hshort
    | list ds =>
      have hds := elementsStored_iff.mp hc.2
      exact foldlM_mergeAt_list hf hreturns hc.1 hholds hds hdepth hshort
    | map es =>
      obtain ⟨key, hshape, hordered, hes⟩ := hc
      exact foldlM_mergeAt_map hf hreturns hregular hshape hholds hes hordered hdepth hshort
    | unknown ps => exact hc.elim
  | none =>
    rw [hfield] at hc
    obtain ⟨-, ps, rfl, hne, -⟩ := hc
    rw [contentPayloads]
    cases ps with
    | nil => exact absurd rfl hne
    | cons pl pls => exact foldlM_mergeAt_unknown pls [pl]

/-! ### Messages -/

/-- The records of one content build up what is left of it, behind contents that come
before. -/
theorem foldlM_mergeRecord_content (hregular : p.Regular) (hreturns : p.Returns limit merge)
    (ht : t ∈ p.messages) {c : Content} (hc : c.StoredAt p t n) (hdepth : c.depth ≤ limit)
    (hshort : ∀ pl ∈ p.contentPayloads (t.field? n) c, pl.Short) (hacc : acc.Before t n) :
    ((p.contentPayloads (t.field? n) c).map (n, ·)).foldlM (mergeRecord limit merge t) acc
      = some (acc.snoc n (c.settledAt p (t.field? n))) := by
  have hstart : acc.snoc n none = acc := List.append_nil acc
  calc ((p.contentPayloads (t.field? n) c).map (n, ·)).foldlM (mergeRecord limit merge t) acc
      = ((p.contentPayloads (t.field? n) c).map (n, ·)).foldlM (mergeRecord limit merge t)
          (acc.snoc n none) := by rw [hstart]
    _ = ((p.contentPayloads (t.field? n) c).foldlM (mergeAt limit merge (t.field? n)) none).map
          (acc.snoc n) := foldlM_mergeRecord_snoc hacc _ none
    _ = some (acc.snoc n (c.settledAt p (t.field? n))) := by
      rw [foldlM_mergeAt_content hregular hreturns ht hc hdepth hshort, Option.map_some]

/-- The records of a message build up what is left of the message, behind contents that
come before. -/
theorem foldlM_mergeRecord_contents (hregular : p.Regular) (hreturns : p.Returns limit merge)
    (ht : t ∈ p.messages) (hcontents : ∀ e ∈ m, e.2.StoredAt p t e.1)
    (hm : m.Pairwise fun a b => t.Precedes a.1 b.1) (hdepth : m.depth ≤ limit)
    (hshort : ∀ r ∈ p.contentRecords (some t) m, r.2.Short)
    (hacc : ∀ e ∈ m, acc.Before t e.1) :
    (p.contentRecords (some t) m).foldlM (mergeRecord limit merge t) acc
      = some (acc ++ m.settled p t) := by
  induction m generalizing acc with
  | nil =>
    rw [contentRecords, Message.settled, settledContents, List.append_nil]
    rfl
  | cons e m ih =>
    obtain ⟨n, c⟩ := e
    obtain ⟨hc, hcontents⟩ := List.forall_mem_cons.mp hcontents
    obtain ⟨hfirst, hm⟩ := List.pairwise_cons.mp hm
    -- what is left of the first content stays in front of the others
    obtain ⟨hbefore, hbehind⟩ := List.forall_mem_cons.mp hacc
    rw [contentRecords, Option.bind_some] at hshort ⊢
    rw [Message.depth, contentsDepth] at hdepth
    have hpayloads : ∀ pl ∈ p.contentPayloads (t.field? n) c, pl.Short := fun pl hpl =>
      hshort _ (List.mem_append_left _ (List.mem_map_of_mem hpl))
    have hlimit : c.depth ≤ limit := by omega
    rw [List.foldlM_append,
      foldlM_mergeRecord_content hregular hreturns ht hc hlimit hpayloads hbefore,
      Message.settled, settledContents_cons, ← List.append_assoc]
    refine ih hcontents hm (by rw [Message.depth]; omega)
      (fun r hr => hshort r (List.mem_append_right _ hr)) fun e he a ha => ?_
    rcases List.mem_append.mp ha with ha | ha
    · exact hbehind e he a ha
    · obtain ⟨c', -, rfl⟩ := Option.map_eq_some_iff.mp (Option.mem_toList.mp ha)
      exact hfirst e he

/-- The records of a message are read back into what is left of the message. -/
theorem foldlM_mergeRecord_settled (hp : p.Sound) (hreturns : p.Returns limit merge)
    (ht : t ∈ p.messages) (hm : m.Stored p t) (hdepth : m.depth ≤ limit)
    (hlength : (writeRecords (p.contentRecords (some t) m)).length < 2 ^ 64) :
    (p.contentRecords (some t) m).foldlM (mergeRecord limit merge t) [] = some (m.settled p t) := by
  have hstart : ∀ e ∈ m, Message.Before t e.1 [] := fun _ _ => nofun
  exact foldlM_mergeRecord_contents hp.regular hreturns ht hm.contents hm.precedes hdepth
    (short_of_mem hlength) hstart

/-- The records of a message come back from their bytes. -/
theorem readRecords?_contentRecords (hp : p.Sound) (ht : t ∈ p.messages) (hm : m.Stored p t)
    (hdepth : m.depth ≤ limit)
    (hlength : (writeRecords (p.contentRecords (some t) m)).length < 2 ^ 64) :
    readRecords? limit (writeRecords (p.contentRecords (some t) m))
      = some (p.contentRecords (some t) m) := by
  have hbounds := bounds_contentRecords hp.regular m t ht hm.contents
  refine readRecords?_writeRecords ?_ hlength ?_
  · exact recordsInRange_iff.mpr fun r hr => (hbounds r hr).1
  · exact recordsDepth_le_iff.mpr fun r hr => (hbounds r hr).2.trans hdepth

/-- A scalar or an enum number comes back, however deeply messages may be nested. -/
theorem mergeDatum_payload {type : FieldType} (start : Datum) {d : Datum} (h : type.Admits d) :
    p.mergeDatum limit type start (p.payload type d) = some d := by
  cases type with
  | scalar k =>
    rw [mergeDatum_scalar, payload_scalar h]
    exact Scalar.ofPayload?_payload h
  | enumeration name =>
    obtain ⟨i, rfl, hlow, hhigh⟩ := h
    rw [payload_enumeration, mergeDatum_enumeration, signed_wrapped (by decide) hlow hhigh]
  | message name | group name => exact h.elim

/-- Reading gives back what is left of a value, with messages nested as deeply as it may
be read. -/
theorem returns_mergeDatum (hp : p.Sound) (limit : ℕ) : p.Returns limit (p.mergeDatum limit) := by
  induction limit using Nat.strongRecOn with
  | ind limit ih =>
    intro type start d hstart hd hdepth hshort
    cases htype : Linking.isMessage type with
    | false =>
      rw [settled_of_not_isMessage hd htype]
      exact mergeDatum_payload start (hd.admits htype)
    | true =>
      obtain ⟨name, hname⟩ := Linking.exists_name_of_isMessage htype
      obtain ⟨m, t, rfl, ht, hm⟩ := hd.exists_message hname
      have hmem := List.mem_of_find?_eq_some ht
      cases limit with
      | zero => exact absurd hdepth (Nat.not_succ_le_zero _)
      | succ below =>
        -- one level is spent on the message, and the values in it have the others
        have hinner : m.depth ≤ below := Nat.le_of_succ_le_succ hdepth
        have hbelow := ih below (Nat.lt_succ_self _)
        rcases hname with rfl | rfl
        · obtain rfl : start = .message [] := hstart
          rw [payload, ht] at hshort ⊢
          rw [mergeDatum, Datum.settled, ht, Option.bind_eq_bind, Option.bind_some,
            readRecords?_contentRecords hp hmem hm hinner hshort, Option.bind_eq_bind,
            Option.bind_some, foldlM_mergeRecord_settled hp hbelow hmem hm hinner hshort]
          rfl
        · obtain rfl : start = .message [] := hstart
          rw [payload, ht] at hshort ⊢
          rw [mergeDatum, Datum.settled, ht, Option.bind_eq_bind, Option.bind_some,
            foldlM_mergeRecord_settled hp hbelow hmem hm hinner hshort]
          rfl

/-- **Decoding gives back what is left of a message** that readers give, if its bytes are
fewer than a length can tell and its messages are nested no deeper than a decoder goes. -/
theorem decode?_encode (hp : p.Sound) (ht : t ∈ p.messages) (hm : m.Stored p t)
    (hdepth : m.depth ≤ maxNesting) (hlength : (p.encode t m).length < 2 ^ 64) :
    p.decode? t (p.encode t m) = some (m.settled p t) := by
  rw [decode?, merge?, encode, readRecords?_contentRecords hp ht hm hdepth hlength]
  exact foldlM_mergeRecord_settled hp (returns_mergeDatum hp maxNesting) ht hm hdepth hlength

end Pool

end Switchboard.Proto
