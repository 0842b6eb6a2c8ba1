import Switchboard.Proofs.Dictionary
import Switchboard.Proofs.Proto.Contents
import Switchboard.Proto.Json.Writing

/-!
# The object of a message

A message of a type that has no form of its own is written as an object: a member for each
field that it holds, with what is written for the content, and a member for each field that
it does not hold but has anyway.  A field that tells its default apart from no value is left
out while it has no value.

## Main results

* `Pool.writeDatum_object` — what is written for a message, whatever field it stands in.
* `Pool.contains_form` — the fields that have a member.
* `Pool.get?_form` — the member of a field that is held.
-/

namespace Switchboard.Proto.Pool

open Json

variable {p : Pool} {t : MessageType} {m : Message} {any : Bytes → Option Value}

/-- A message of a type without a form of its own is written as an object. -/
theorem writeDatum_object {type : FieldType} (htype : p.plainMessage? type = some t)
    (m : Message) :
    p.writeDatum any type (.message m) =
      (p.writeContents any t m).map fun ms => .ofMembers (p.defaultMembers t m ++ ms) := by
  cases type with
  | message name | group name =>
    rw [plainMessage?] at htype
    split at htype
    · cases htype
    · next hspecial =>
      rw [writeDatum]
      simp only [htype, hspecial]
  | scalar k => cases htype
  | enumeration name => cases htype

/-- A type of the pool without a form of its own is such a type under its own name. -/
theorem plainMessage?_name {name : String} (ht : p.message? name = some t)
    (hspecial : Special.ofName? t.name = none) :
    p.plainMessage? (.message t.name) = some t := by
  have hname : t.name = name := by simpa using List.find?_some ht
  rw [plainMessage?, hspecial, hname]
  exact ht

/-- Such a type is known under its own name. -/
theorem message?_of_plainMessage? {type : FieldType} (h : p.plainMessage? type = some t) :
    p.message? t.name = some t ∧ Special.ofName? t.name = none := by
  cases type with
  | message name | group name =>
    rw [plainMessage?] at h
    split at h
    · cases h
    · next hspecial =>
      have hname : t.name = name := by simpa using List.find?_some h
      rw [hname]
      exact ⟨h, hspecial⟩
  | scalar k => cases h
  | enumeration name => cases h

/-! ### The members of the contents -/

/-- Each member stands for a content. -/
theorem content_of_writeContents {m : Message} {ms : List (String × Value)}
    (h : p.writeContents any t m = some ms) {e : String × Value} (he : e ∈ ms) :
    ∃ n c f, (n, c) ∈ m ∧ t.field? n = some f ∧ f.name = e.1
      ∧ p.writeContent any f c = some e.2 := by
  induction m generalizing ms with
  | nil =>
    rw [writeContents] at h
    obtain rfl := Option.some.inj h
    cases he
  | cons x m ih =>
    obtain ⟨n, c⟩ := x
    rw [writeContents] at h
    cases hf : t.field? n with
    | none =>
      simp only [hf] at h
      obtain ⟨n', c', f', hmem, hrest⟩ := ih h he
      exact ⟨n', c', f', List.mem_cons_of_mem _ hmem, hrest⟩
    | some f =>
      simp only [hf] at h
      obtain ⟨v, hv, h⟩ := Option.bind_eq_some_iff.mp h
      obtain ⟨ms', hms', h⟩ := Option.bind_eq_some_iff.mp h
      obtain rfl := Option.some.inj h
      rcases List.mem_cons.mp he with rfl | he
      · exact ⟨n, c, f, List.mem_cons_self, hf, rfl, hv⟩
      · obtain ⟨n', c', f', hmem, hrest⟩ := ih hms' he
        exact ⟨n', c', f', List.mem_cons_of_mem _ hmem, hrest⟩

/-- Each content of a known field has a member. -/
theorem member_of_writeContents {m : Message} {ms : List (String × Value)}
    (h : p.writeContents any t m = some ms) {n : ℕ} {c : Content} (hc : (n, c) ∈ m)
    {f : Field} (hf : t.field? n = some f) :
    ∃ v, p.writeContent any f c = some v ∧ (f.name, v) ∈ ms := by
  induction m generalizing ms with
  | nil => cases hc
  | cons x m ih =>
    obtain ⟨n', c'⟩ := x
    rw [writeContents] at h
    cases hf' : t.field? n' with
    | none =>
      simp only [hf'] at h
      rcases List.mem_cons.mp hc with heq | hc
      · obtain ⟨rfl, rfl⟩ := Prod.mk.inj heq
        rw [hf] at hf'
        cases hf'
      · exact ih h hc
    | some f' =>
      simp only [hf'] at h
      obtain ⟨v, hv, h⟩ := Option.bind_eq_some_iff.mp h
      obtain ⟨ms', hms', h⟩ := Option.bind_eq_some_iff.mp h
      obtain rfl := Option.some.inj h
      rcases List.mem_cons.mp hc with heq | hc
      · obtain ⟨rfl, rfl⟩ := Prod.mk.inj heq
        rw [hf] at hf'
        obtain rfl := Option.some.inj hf'
        exact ⟨v, hv, List.mem_cons_self⟩
      · obtain ⟨v', hv', hmem⟩ := ih hms' hc
        exact ⟨v', hv', List.mem_cons_of_mem _ hmem⟩

/-! ### The members of the object -/

/-- The object for a message of which the given members have been written. -/
def form (p : Pool) (t : MessageType) (m : Message) (ms : List (String × Value)) :
    Dictionary Value :=
  Dictionary.ofList (p.defaultMembers t m ++ ms)

theorem mem_defaultMembers {e : String × Value} :
    e ∈ p.defaultMembers t m ↔ ∃ f ∈ t.fields, f.explicit = false ∧ m.get? f.number = none
      ∧ (f.name, p.writeDefault f) = e := by
  simp only [defaultMembers, List.mem_map, List.mem_filter, Bool.and_eq_true,
    Bool.not_eq_true', Option.isNone_iff_eq_none, and_assoc]

/-- A field has a member exactly if the message holds it or has it anyway. -/
theorem contains_form (ht : t.Linked p) {ms : List (String × Value)}
    (hms : p.writeContents any t m = some ms) {f : Field} (hf : f ∈ t.fields) :
    Dictionary.contains f.name (p.form t m ms) = true ↔
      f.explicit = false ∨ (m.get? f.number).isSome = true := by
  rw [form, Dictionary.contains_ofList, List.map_append, List.mem_append]
  constructor
  · rintro (h | h)
    · obtain ⟨e, he, hname⟩ := List.mem_map.mp h
      obtain ⟨g, hg, hexplicit, -, rfl⟩ := mem_defaultMembers.mp he
      rw [ht.eq_of_name hg hf hname] at hexplicit
      exact Or.inl hexplicit
    · obtain ⟨e, he, hname⟩ := List.mem_map.mp h
      obtain ⟨n, c, g, hmem, hg, hgname, -⟩ := content_of_writeContents hms he
      obtain ⟨hgt, rfl⟩ := mem_of_field? hg
      rw [ht.eq_of_name hgt hf (hgname.trans hname)] at hmem
      -- the first content under the number need not be this one, but there is one
      refine Or.inr (Option.ne_none_iff_isSome.mp fun hnone => ?_)
      exact Message.ne_of_get?_eq_none hnone _ hmem rfl
  · intro h
    by_cases hheld : (m.get? f.number).isSome = true
    · obtain ⟨c, hc⟩ := Option.isSome_iff_exists.mp hheld
      obtain ⟨v, -, hmem⟩ := member_of_writeContents hms (Message.mem_of_get? hc)
        (ht.field?_number hf)
      exact Or.inr (List.mem_map_of_mem hmem)
    · rw [Option.not_isSome_iff_eq_none] at hheld
      have hdefault : (f.name, p.writeDefault f) ∈ p.defaultMembers t m := by
        refine mem_defaultMembers.mpr ⟨f, hf, h.resolve_right ?_, hheld, rfl⟩
        rw [hheld]
        decide
      exact Or.inl (List.mem_map_of_mem hdefault)

/-- The member of a field that is held is what is written for its content. -/
theorem get?_form (ht : t.Linked p) (hm : m.Ordered) {ms : List (String × Value)}
    (hms : p.writeContents any t m = some ms) {f : Field} (hf : f ∈ t.fields) {c : Content}
    (hc : m.get? f.number = some c) :
    ∃ v, p.writeContent any f c = some v ∧
      Dictionary.get? f.name (p.form t m ms) = some v := by
  obtain ⟨v, hv, -⟩ := member_of_writeContents hms (Message.mem_of_get? hc) (ht.field?_number hf)
  have hcontains := (contains_form ht hms hf).mpr (Or.inr (Option.isSome_iff_exists.mpr ⟨c, hc⟩))
  obtain ⟨w, hw⟩ := Option.isSome_iff_exists.mp hcontains
  refine ⟨v, hv, hw.trans (congrArg some ?_)⟩
  -- all members of that name were written for this content
  rcases List.mem_append.mp (Dictionary.mem_ofList (Dictionary.mem_of_get? hw)) with hmem | hmem
  · obtain ⟨g, hg, -, hnone, heq⟩ := mem_defaultMembers.mp hmem
    rw [ht.eq_of_name hg hf (Prod.mk.inj heq).1, hc] at hnone
    cases hnone
  · obtain ⟨n, c', g, hin, hg, hname, hwritten⟩ := content_of_writeContents hms hmem
    obtain ⟨hgt, rfl⟩ := mem_of_field? hg
    obtain rfl := ht.eq_of_name hgt hf hname
    rw [Message.get?_of_mem hm hin] at hc
    obtain rfl := Option.some.inj hc
    rw [hv] at hwritten
    exact (Option.some.inj hwritten).symm

end Switchboard.Proto.Pool
