import Switchboard.Proofs.Proto.Reading
import Switchboard.Proto.Json.Writing

/-!
# What is written for a message reads back

A value of a plain type is written, and what is written for it stands for it: scalars
and enum values by themselves, lists and maps by their elements, and a message by the
members for the fields it holds and for those that it has anyway.

## Main results

* `Pool.spells_writeDefault` — what is written for a field that is not held.
* `Pool.exists_writeDatum`, `Pool.exists_writeContents` — what is written for a value and
  for a message, by induction over both.
* `Pool.tells_written` — the object of a message tells what should be held.
-/

namespace Switchboard.Proto

open Json
open Document (ofValue ofValues ofValueMembers depthAll depthMembers)

namespace Pool

variable {p : Pool} {t : MessageType}

/-! ### Values without anything inside -/

theorem readContent_leaf {v : Value} (hv : Value.isLeaf v = true) (room : ℕ)
    (type : FieldType) :
    p.readContent room .single type (ofValue v)
      = (p.readPlain room type (ofValue v)).map .one := by
  cases v with
  | null | array | object => simp [Value.isLeaf] at hv
  | bool | number | string => rw [ofValue, readContent] <;> simp

theorem spells_leaf {v : Value} (hv : Value.isLeaf v = true) {type : FieldType} {d : Datum}
    (h : ∀ room, p.readPlain room type (ofValue v) = some d) :
    p.Spells .single type v (.one d) := by
  refine ⟨fun hnull => ?_, fun room _ => ?_⟩
  · cases v <;> simp [Value.kind, Value.isLeaf] at hnull hv
  · rw [readContent_leaf hv, h]
    rfl

theorem spells_scalar {k : Scalar} {d : Datum} (h : k.Admits d) (hk : k.isFloating = false) :
    p.Spells .single (.scalar k) (k.write d) (.one d) := by
  obtain ⟨hleaf, hread⟩ := Scalar.read?_write h hk
  exact spells_leaf hleaf fun _ => hread

theorem name_of_enum? {name : String} {e : EnumType} (h : p.enum? name = some e) :
    e.name = name := by
  simpa using List.find?_some h

theorem spells_enum {name : String} {e : EnumType} (he : p.enum? name = some e)
    (hnodup : (e.values.map Prod.fst).Nodup) (hname : ¬ IsStandard name) {i : Int}
    (h : IsEnumNumber i ∨ e.Names (.int i)) :
    p.Spells .single (.enumeration name) (e.write (.int i)) (.one (.int i)) := by
  have hnull : e.name ≠ nullEnum := by
    rw [name_of_enum? he]
    exact ne_nullEnum_of_not_standard hname
  obtain ⟨hleaf, hread⟩ := EnumType.read?_write hnodup hnull h
  refine spells_leaf hleaf fun room => ?_
  rw [readPlain, he]
  exact hread

theorem identical_self {k : Scalar} {d : Datum} (h : k.Admits d) (hk : k.isFloating = false) :
    d.identical d = true := by
  cases d with
  | single | double | message => cases k <;> simp_all [Scalar.Admits, Scalar.isFloating]
  | _ => simp [Datum.identical]

/-- What is written for a field that is not held, but that a message has anyway, stands
for a content that the field has anyway. -/
theorem spells_writeDefault {f : Field} (hf : f.Linked p) (hplain : f.type.IsPlain)
    (hexplicit : f.explicit = false) :
    ∃ c, p.Spells f.shape f.type (p.writeDefault f) c ∧ f.holds c = false := by
  unfold writeDefault
  cases hshape : f.shape with
  | list =>
    refine ⟨.list [], ⟨by simp [Value.kind], fun room hroom => ?_⟩, rfl⟩
    rw [ofValue, readContent, ofValues, readElements]
    simp [(room_of_array hroom).1]
  | map key =>
    refine ⟨.map [], ⟨by simp [Value.kind], fun room hroom => ?_⟩, rfl⟩
    rw [ofValue, readContent, ofValueMembers, readEntries]
    simp [(room_of_object hroom).1]
  | single =>
    cases htype : f.type with
    | scalar k =>
      rw [htype] at hplain
      have hadmits := hf.default_scalar k hshape htype
      refine ⟨.one f.default, spells_scalar hadmits hplain, ?_⟩
      rw [Field.holds, hexplicit, identical_self hadmits hplain]
      rfl
    | enumeration name =>
      rw [htype] at hplain
      obtain ⟨e, he, hnodup, hnames⟩ := hf.enum name htype
      obtain ⟨s, i, hmem, hi⟩ := hnames hshape
      refine ⟨.one f.default, ?_, ?_⟩
      · simp only [he, hi]
        exact spells_enum he hnodup hplain (Or.inr ⟨s, i, hmem, rfl⟩)
      · rw [Field.holds, hexplicit, hi]
        simp [Datum.identical]
    | message name =>
      have hmessage := hf.explicit_of_message hshape (by rw [htype]; rfl)
      rw [hexplicit] at hmessage
      simp at hmessage
    | group name =>
      have hmessage := hf.explicit_of_message hshape (by rw [htype]; rfl)
      rw [hexplicit] at hmessage
      simp at hmessage

/-! ### The object of a message -/

/-- A member stands for a content that a message holds. -/
def SpellsField (p : Pool) (t : MessageType) (x : ℕ × Content) (e : String × Value) : Prop :=
  ∃ f, t.field? x.1 = some f ∧ f.name = e.1 ∧ f.holds x.2 = true
    ∧ p.Spells f.shape f.type e.2 x.2

/-- Members that stand for the contents of a message, each for one of them, and each of
them under one. -/
structure Written (p : Pool) (t : MessageType) (m : Message) (ms : List (String × Value)) :
    Prop where
  spelled : ∀ e ∈ ms, ∃ x ∈ m, p.SpellsField t x e
  present : ∀ x ∈ m, ∃ e ∈ ms, p.SpellsField t x e

/-- The object of a message tells what should be held, if what the message holds should
be, and what it has anyway should not. -/
theorem tells_written (ht : t.Linked p) (hplain : t.IsPlain) {m : Message} (hm : m.Ordered)
    {ms : List (String × Value)} (hms : p.Written t m ms) {held : ℕ → Option Content}
    (hheld : Below m held)
    (hnone : ∀ f ∈ t.fields, f.explicit = false → m.get? f.number = none →
      held f.number = none) :
    ∀ e ∈ Dictionary.ofList (p.defaultMembers t m ++ ms), p.Tells t held e := by
  intro e he
  rcases List.mem_append.mp (Dictionary.mem_ofList he) with he | he
  · obtain ⟨f, hf, rfl⟩ := List.mem_map.mp he
    obtain ⟨hmem, hf⟩ := List.mem_filter.mp hf
    simp only [Bool.and_eq_true, Bool.not_eq_true', Option.isNone_iff_eq_none] at hf
    obtain ⟨c, hspells, hc⟩ := spells_writeDefault (ht.fields f hmem) (hplain.types f hmem) hf.1
    refine hspells.tells hmem ?_ fun hone => ?_
    · rw [hnone f hmem hf.1 hf.2, Option.filter_some, hc]
      rfl
    · obtain ⟨i, hi⟩ := Option.ne_none_iff_exists'.mp hone
      have hexplicit := (ht.fields f hmem).explicit_of_oneof i hi
      rw [hf.1] at hexplicit
      simp at hexplicit
  · obtain ⟨⟨n, c⟩, hx, f, hf, hname, hholds, hspells⟩ := hms.spelled e he
    obtain ⟨hmem, rfl⟩ := mem_of_field? hf
    obtain ⟨name, v⟩ := e
    obtain rfl : f.name = name := hname
    refine hspells.tells hmem ?_ fun _ => hholds
    rw [hheld _ _ (Message.get?_of_mem hm hx), Option.filter_some, if_pos hholds]

/-- The object of a message has a member for every field that the message holds or has
anyway. -/
theorem contains_written {m : Message} {ms : List (String × Value)} (hms : p.Written t m ms)
    (ht : t.Linked p) {f : Field} (hf : f ∈ t.fields)
    (h : f.explicit = false ∨ (m.get? f.number).isSome = true) :
    Dictionary.contains f.name (Dictionary.ofList (p.defaultMembers t m ++ ms)) = true := by
  rw [Dictionary.contains_ofList, List.map_append, List.mem_append]
  by_cases hheld : (m.get? f.number).isSome = true
  · obtain ⟨c, hc⟩ := Option.isSome_iff_exists.mp hheld
    obtain ⟨e, he, g, hg, hname, -⟩ := hms.present _ (Message.mem_of_get? hc)
    rw [ht.field?_number hf] at hg
    obtain rfl := Option.some.inj hg
    exact Or.inr (hname ▸ List.mem_map_of_mem he)
  · have hexplicit := h.resolve_right hheld
    have hmem : (f.name, p.writeDefault f) ∈ p.defaultMembers t m := by
      refine List.mem_map_of_mem (List.mem_filter.mpr ⟨hf, ?_⟩)
      rw [Option.not_isSome_iff_eq_none] at hheld
      simp [hexplicit, hheld]
    exact Or.inl (List.mem_map_of_mem hmem)

/-- The object of a message gives what the message holds. -/
theorem gives_written (ht : t.Linked p) (hplain : t.IsPlain) {m : Message} (hm : m.Ordered)
    (hfit : contentsFit p t m) {ms : List (String × Value)} (hms : p.Written t m ms) :
    p.Gives t (fun n => m.get? n) (Dictionary.ofList (p.defaultMembers t m ++ ms)) where
  ordered := Dictionary.ordered_ofList _
  tells := tells_written ht hplain hm hms (fun _ _ h => h) fun _ _ _ h => h
  covers := fun n c hc => by
    obtain ⟨f, hf, -⟩ := hfit.of_mem (Message.mem_of_get? hc)
    obtain ⟨hmem, rfl⟩ := mem_of_field? hf
    have hsome := Option.isSome_iff_exists.mpr ⟨c, hc⟩
    exact ⟨f, hmem, rfl, contains_written hms ht hmem (Or.inr hsome)⟩

/-! ### What is written for a value -/

theorem exists_writeDatum_of_leaf (any : Bytes → Option Value) {type : FieldType}
    (htype : p.Carries type) {d : Datum} (hd : ∀ m, d ≠ .message m) (h : d.Fits p type) :
    ∃ v, p.writeDatum any type d = some v ∧ p.Spells .single type v (.one d) := by
  have hfits : type.Admits d := by
    cases d with
    | message m => exact absurd rfl (hd m)
    | _ => exact h
  cases type with
  | scalar k =>
    refine ⟨k.write d, ?_, spells_scalar hfits htype.plain⟩
    cases d with
    | message m => exact absurd rfl (hd m)
    | _ => rfl
  | enumeration name =>
    obtain ⟨i, rfl, hi⟩ := hfits
    obtain ⟨e, he, hnodup⟩ := htype.enum name rfl
    refine ⟨e.write (.int i), ?_, spells_enum he hnodup htype.plain (Or.inl hi)⟩
    rw [writeDatum]
    · simp only [he, Option.map_some]
    · exact fun m => hd m
  | message name => exact hfits.elim
  | group name => exact hfits.elim

/-- What is written for a message of a field type, once its members are. -/
theorem writeDatum_message (any : Bytes → Option Value) {type : FieldType}
    (htype : type.IsPlain) (ht : p.messageOf? type = some t) {m : Message}
    {ms : List (String × Value)} (hms : p.writeContents any t m = some ms) :
    p.writeDatum any type (.message m)
      = some (.object (Dictionary.ofList (p.defaultMembers t m ++ ms))) := by
  cases type with
  | message name =>
    have hspecial := ofName?_of_not_standard htype
    have ht : p.message? name = some t := ht
    rw [writeDatum]
    simp only [ht, hspecial, hms, Option.map_some, Value.ofMembers]
  | group name =>
    have hspecial := ofName?_of_not_standard htype
    have ht : p.message? name = some t := ht
    rw [writeDatum]
    simp only [ht, hspecial, hms, Option.map_some, Value.ofMembers]
  | scalar k => simp [messageOf?] at ht
  | enumeration name => simp [messageOf?] at ht

mutual

/-- What is written for a value of a plain type stands for it. -/
theorem exists_writeDatum (hp : p.Linked) (any : Bytes → Option Value) {type : FieldType}
    (htype : p.Carries type) : (d : Datum) → d.Fits p type →
      ∃ v, p.writeDatum any type d = some v ∧ p.Spells .single type v (.one d)
  | .message m => fun h => by
    obtain ⟨name, hname, t, ht, hm⟩ := Datum.fits_message_iff.mp h
    have hmessage : p.messageOf? type = some t := by
      rcases hname with rfl | rfl
      · exact ht
      · exact ht
    have hlinked := linked_of_message? hp ht
    have hplain := htype.reached t hmessage
    obtain ⟨ms, hwrite, hms⟩ := exists_writeContents hp any hlinked hplain m hm.contents
    have hgives := gives_written hlinked hplain.isPlain hm.ordered hm.contents hms
    refine ⟨_, writeDatum_message any htype.plain hmessage hwrite, ?_⟩
    exact spells_object (plainMessage?_of_plain htype.plain hmessage) hlinked hplain.isPlain
      hm.ordered hm.oneOfEach hgives
  | .bool _ => exists_writeDatum_of_leaf any htype (by simp)
  | .int _ => exists_writeDatum_of_leaf any htype (by simp)
  | .single _ => exists_writeDatum_of_leaf any htype (by simp)
  | .double _ => exists_writeDatum_of_leaf any htype (by simp)
  | .string _ => exists_writeDatum_of_leaf any htype (by simp)
  | .bytes _ => exists_writeDatum_of_leaf any htype (by simp)

/-- The elements that are written for a list are read as the list. -/
theorem exists_writeElements (hp : p.Linked) (any : Bytes → Option Value) {type : FieldType}
    (htype : p.Carries type) : (ds : List Datum) → elementsFit p type ds →
      ∃ vs, p.writeElements any type ds = some vs ∧ ∀ room, depthAll (ofValues vs) ≤ room →
        p.readElements room type (ofValues vs) = some ds
  | [] => fun _ => ⟨[], by rw [writeElements], fun _ _ => by rw [ofValues, readElements]⟩
  | d :: ds => fun h => by
    rw [elementsFit] at h
    obtain ⟨v, hv, hspells⟩ := exists_writeDatum hp any htype d h.1
    obtain ⟨vs, hvs, hread⟩ := exists_writeElements hp any htype ds h.2
    refine ⟨v :: vs, ?_, fun room hroom => ?_⟩
    · rw [writeElements, hv, hvs]
      rfl
    · rw [ofValues, depthAll, Nat.max_le] at hroom
      rw [ofValues, readElements, hspells.2 room hroom.1, hread room hroom.2]
      rfl

/-- The members that are written for the entries of a map are read as the entries. -/
theorem exists_writeEntries (hp : p.Linked) (any : Bytes → Option Value) {type : FieldType}
    (htype : p.Carries type) {key : Scalar} (hkey : key.isKey = true) :
    (es : List (String × Datum)) → entriesFit p key type es →
      ∃ vs, p.writeEntries any type es = some vs
        ∧ ∀ room before, depthMembers (ofValueMembers vs) ≤ room →
          Dictionary.Ordered (before ++ es) →
            p.readEntries room key type before (ofValueMembers vs) = some (before ++ es)
  | [] => fun _ => by
    refine ⟨[], by rw [writeEntries], fun _ before _ _ => ?_⟩
    rw [ofValueMembers, readEntries, List.append_nil]
  | (k, d) :: es => fun h => by
    rw [entriesFit] at h
    obtain ⟨⟨x, hx, rfl⟩, hd, hes⟩ := h
    obtain ⟨v, hv, hspells⟩ := exists_writeDatum hp any htype d hd
    obtain ⟨vs, hvs, hread⟩ := exists_writeEntries hp any htype hkey es hes
    refine ⟨(x.keyText, v) :: vs, ?_, fun room before hroom hordered => ?_⟩
    · rw [writeEntries, hv, hvs]
      rfl
    · rw [ofValueMembers, depthMembers, Nat.max_le] at hroom
      -- Keys come in order, so each entry goes behind those that were read before.
      have hlast : Dictionary.insert x.keyText d before = before ++ [(x.keyText, d)] := by
        obtain ⟨-, -, hlt⟩ := List.pairwise_append.mp hordered
        exact Dictionary.insert_of_forall_lt fun e he => hlt e he _ List.mem_cons_self
      rw [List.append_cons] at hordered
      rw [ofValueMembers, readEntries]
      simp only [Option.bind_eq_bind, Option.bind_some, Scalar.ofKey?_keyText hx hkey,
        hspells.2 room hroom.1, value?, hlast]
      rw [hread room _ hroom.2 hordered, ← List.append_cons]

/-- What is written for a content of a field stands for it. -/
theorem exists_writeContent (hp : p.Linked) (any : Bytes → Option Value) {f : Field}
    (htype : p.Carries f.type) : (c : Content) → c.Fits p f →
      ∃ v, p.writeContent any f c = some v ∧ p.Spells f.shape f.type v c
  | .one d => fun h => by
    rw [Content.Fits] at h
    rw [h.1, writeContent]
    exact exists_writeDatum hp any htype d h.2
  | .list ds => fun h => by
    rw [Content.Fits] at h
    obtain ⟨vs, hvs, hread⟩ := exists_writeElements hp any htype ds h.2
    refine ⟨.array vs, ?_, by simp [Value.kind], fun room hroom => ?_⟩
    · rw [writeContent, hvs]
      rfl
    · obtain ⟨hpos, hdepth⟩ := room_of_array hroom
      rw [h.1, ofValue, readContent]
      simp only [if_neg hpos, hread (room - 1) hdepth, Option.map_some]
  | .map es => fun h => by
    rw [Content.Fits] at h
    obtain ⟨key, hshape, hkey, hordered, hes⟩ := h
    obtain ⟨vs, hvs, hread⟩ := exists_writeEntries hp any htype hkey es hes
    refine ⟨.object vs, ?_, by simp [Value.kind], fun room hroom => ?_⟩
    · rw [writeContent, hvs]
      rfl
    · obtain ⟨hpos, hdepth⟩ := room_of_object hroom
      rw [hshape, ofValue, readContent]
      simp only [if_neg hpos, hread (room - 1) [] hdepth hordered, Option.map_some,
        List.nil_append]
  | .unknown _ => fun h => by
    rw [Content.Fits] at h
    exact h.elim

/-- The members that are written for the contents of a message stand for them. -/
theorem exists_writeContents (hp : p.Linked) (any : Bytes → Option Value) {t : MessageType}
    (ht : t.Linked p) (hplain : p.AllPlain t) : (m : List (ℕ × Content)) → contentsFit p t m →
      ∃ ms, p.writeContents any t m = some ms ∧ p.Written t m ms
  | [] => fun _ => ⟨[], by rw [writeContents], by simp, by simp⟩
  | (n, c) :: m => fun h => by
    rw [contentsFit] at h
    obtain ⟨⟨f, hf, hholds, hc⟩, hm⟩ := h
    have htype := hplain.carries ht (mem_of_field? hf).1
    obtain ⟨v, hv, hspells⟩ := exists_writeContent hp any htype c hc
    obtain ⟨ms, hms, hwritten⟩ := exists_writeContents hp any ht hplain m hm
    have hfirst : p.SpellsField t (n, c) (f.name, v) := ⟨f, hf, rfl, hholds, hspells⟩
    refine ⟨(f.name, v) :: ms, ?_, ?_, ?_⟩
    · rw [writeContents, hf]
      simp only [Option.bind_eq_bind, hv, hms, Option.bind_some, Option.pure_def]
    · refine List.forall_mem_cons.mpr ⟨⟨_, List.mem_cons_self, hfirst⟩, fun e he => ?_⟩
      obtain ⟨x, hx, hspells⟩ := hwritten.spelled e he
      exact ⟨x, List.mem_cons_of_mem _ hx, hspells⟩
    · refine List.forall_mem_cons.mpr ⟨⟨_, List.mem_cons_self, hfirst⟩, fun x hx => ?_⟩
      obtain ⟨e, he, hspells⟩ := hwritten.present x hx
      exact ⟨e, List.mem_cons_of_mem _ he, hspells⟩

end

end Pool

end Switchboard.Proto
