import Switchboard.Proofs.Proto.Linking
import Switchboard.Proofs.Proto.Wire
import Switchboard.Proofs.Proto.Scalars

/-!
# What encoding relies on

A pool that links has what an encoder and a decoder rely on: field numbers fit a key, only
scalars are packed, every field has a default to start from, and the messages of a field are
of a type that is known.

## Main definitions

* `FieldType.Starts` — the values that reading a field may start from.
* `Field.Regular`, `Pool.Regular` — the guarantees.
* `Scope.Declares` — a name that stands for a message type.

## Main result

* `Pool.regular_of_link?` — a pool that links has them.
-/

namespace Switchboard.Proto

open Wire

/-- A value that reading a field of a type may start from: a scalar, an enum number, or the
message that holds nothing. -/
def FieldType.Starts (type : FieldType) (d : Datum) : Prop :=
  match type with
  | .scalar k => k.Admits d
  | .enumeration _ => ∃ i, d = .int i ∧ IsEnumNumber i
  | .message _ | .group _ => d = .message []

/-- What encoding relies on in a field. -/
structure Field.Regular (p : Pool) (f : Field) : Prop where
  /-- The number fits a key. -/
  number : IsFieldNumber f.number
  /-- Only what may be packed is packed. -/
  packed : f.packed = true → Linking.packable f.type = true
  /-- There is a default to start from. -/
  default : f.type.Starts f.default
  /-- Messages are of a type that is known. -/
  known : ∀ name, f.type = .message name ∨ f.type = .group name →
    ∃ t, p.message? name = some t

/-- What encoding relies on in a pool. -/
def Pool.Regular (p : Pool) : Prop := ∀ t ∈ p.messages, ∀ f ∈ t.fields, f.Regular p

/-- The numbers of enum values have thirty-two bits, as a descriptor holds them. -/
def Pool.NarrowEnums (p : Pool) : Prop := ∀ e ∈ p.enums, ∀ v ∈ e.values, IsEnumNumber v.2

/-! ### Names of message types -/

namespace Scope

/-- A name stands for a message type. -/
def Declares (s : Scope) (name : String) : Prop :=
  ∃ e ∈ s.symbols, e.name = name ∧ e.symbol = .message

variable {s : Scope} {place name : String}

theorem declares_of_type? {full : String} (h : s.type? full = some (name, .message)) :
    s.Declares name := by
  unfold type? at h
  split at h
  · next hfind =>
    obtain ⟨rfl, -⟩ := Prod.mk.inj (Option.some.inj h)
    obtain ⟨e, he, hsymbol⟩ := Option.map_eq_some_iff.mp hfind
    exact ⟨e, List.mem_of_find?_eq_some he, by simpa using List.find?_some he, hsymbol⟩
  · cases h
  · cases h

theorem declares_of_resolve? {given : String} (h : s.resolve? place given = some (name, .message)) :
    s.Declares name := by
  unfold resolve? at h
  split at h
  · exact declares_of_type? h
  · split at h
    · cases h
    · obtain ⟨outer, -, h⟩ := List.exists_of_findSome?_eq_some h
      exact declares_of_type? h
    · split at h
      · exact declares_of_type? h
      · cases h

/-- The message type of a field is declared. -/
theorem declares_of_fieldType? {f : FieldDecl} {type : FieldType}
    (h : s.fieldType? place f = some type) (htype : type = .message name ∨ type = .group name) :
    s.Declares name := by
  have hmessage : ∀ {given : String}, s.message? place given = some name → s.Declares name := by
    intro given hgiven
    unfold message? at hgiven
    split at hgiven
    · next hresolve =>
      obtain rfl := Option.some.inj hgiven
      exact declares_of_resolve? hresolve
    · cases hgiven
  unfold fieldType? at h
  split at h
  · obtain rfl := Option.some.inj h
    rcases htype with h | h <;> cases h
  · obtain ⟨full, hfull, rfl⟩ := Option.map_eq_some_iff.mp h
    rcases htype with h | h
    · obtain rfl := FieldType.message.inj h
      exact hmessage hfull
    · cases h
  · obtain ⟨full, hfull, rfl⟩ := Option.map_eq_some_iff.mp h
    rcases htype with h | h
    · cases h
    · obtain rfl := FieldType.group.inj h
      exact hmessage hfull
  · split at h
    · obtain rfl := Option.some.inj h
      rcases htype with h | h <;> cases h
    · cases h
  · split at h
    · obtain rfl := Option.some.inj h
      rcases htype with h | h <;> cases h
    · next hresolve =>
      obtain rfl := Option.some.inj h
      rcases htype with h | h
      · obtain rfl := FieldType.message.inj h
        exact declares_of_resolve? hresolve
      · cases h
    · cases h
  · cases h

end Scope

mutual

/-- A full name of a message type is the name of one that is declared. -/
theorem MessageDecl.mem_all_of_mem_symbols {name : String} (scope : String) :
    (m : MessageDecl) → (name, Symbol.message) ∈ m.symbols scope →
      ∃ d, (name, d) ∈ m.all scope
  | .mk own fields messages enums oneofs mapEntry => fun h => by
    rw [MessageDecl.symbols] at h
    rw [MessageDecl.all]
    simp only [List.mem_cons, List.mem_append, List.mem_map, List.mem_flatMap, Prod.mk.injEq,
      EnumDecl.symbols, reduceCtorEq, and_false, exists_false, or_false, and_true] at h
    rcases h with rfl | h
    · exact ⟨_, List.mem_cons_self⟩
    · obtain ⟨d, hd⟩ := mem_all_of_mem_symbols _ messages h
      exact ⟨d, List.mem_cons_of_mem _ hd⟩

theorem mem_all_of_mem_symbols {name : String} (scope : String) :
    (ms : List MessageDecl) → (name, Symbol.message) ∈ messageSymbols scope ms →
      ∃ d, (name, d) ∈ allMessages scope ms
  | [] => fun h => by simp [messageSymbols] at h
  | m :: ms => fun h => by
    rw [messageSymbols] at h
    rw [allMessages]
    rcases List.mem_append.mp h with h | h
    · obtain ⟨d, hd⟩ := MessageDecl.mem_all_of_mem_symbols scope m h
      exact ⟨d, List.mem_append_left _ hd⟩
    · obtain ⟨d, hd⟩ := mem_all_of_mem_symbols scope ms h
      exact ⟨d, List.mem_append_right _ hd⟩

end

/-- A full name of a message type that a file declares is the name of one of its types. -/
theorem FileDecl.mem_types_of_mem_symbols {f : FileDecl} {e : Symbol.Entry} (he : e ∈ f.symbols)
    (hsymbol : e.symbol = .message) : ∃ d, (e.name, d) ∈ f.types := by
  unfold FileDecl.symbols at he
  obtain ⟨⟨name, symbol⟩, hmem, rfl⟩ := List.mem_map.mp he
  obtain rfl : symbol = .message := hsymbol
  simp only [List.mem_append, List.mem_map, List.mem_flatMap, List.mem_cons, Prod.mk.injEq,
    EnumDecl.symbols, ServiceDecl.symbols, reduceCtorEq, and_false, exists_false, or_false,
    false_or] at hmem
  exact mem_all_of_mem_symbols _ _ hmem

/-! ### Fields -/

/-- The value type of a map is one that its declaration has. -/
theorem Linking.declares_of_pairOf? {l : Linking} {type value : FieldType} {key : Scalar}
    (h : l.pairOf? type = some (key, value)) {name : String}
    (hvalue : value = .message name ∨ value = .group name) : l.scope.Declares name := by
  unfold pairOf? at h
  split at h
  · split at h
    · split at h
      · split at h
        · split at h
          · next hfield =>
            obtain ⟨-, rfl⟩ := Prod.mk.inj (Option.some.inj h)
            exact Scope.declares_of_fieldType? hfield hvalue
          · cases h
        · cases h
      · cases h
    · cases h
  · cases h

/-- What a field has from its declaration, as far as encoding relies on it. -/
theorem Linking.field?_types {l : Linking} {place : String} {d : FieldDecl} {f : Field}
    (h : l.field? place d = some f) :
    (∀ name, f.type = .message name ∨ f.type = .group name → l.scope.Declares name)
      ∧ (f.packed = true → packable f.type = true) := by
  unfold Linking.field? at h
  obtain ⟨type, htype, h⟩ := Option.bind_eq_some_iff.mp h
  obtain ⟨default, -, h⟩ := Option.bind_eq_some_iff.mp h
  have hdeclares : ∀ name, type = .message name ∨ type = .group name → l.scope.Declares name :=
    fun name hname => Scope.declares_of_fieldType? htype hname
  split at h
  · split at h
    · next hpair =>
      obtain ⟨default', -, h⟩ := Option.bind_eq_some_iff.mp h
      obtain rfl := Option.some.inj h
      exact ⟨fun name hname => declares_of_pairOf? hpair hname, nofun⟩
    · obtain rfl := Option.some.inj h
      exact ⟨hdeclares, fun hpacked => (Bool.and_eq_true_iff.mp hpacked).1⟩
  · obtain rfl := Option.some.inj h
    exact ⟨hdeclares, nofun⟩

/-- A default is a value to start from, in a pool with the enums it was found in. -/
theorem starts_of_defaultOf? {enums : List (String × EnumDecl)} {p : Pool}
    (hp : p.enums = enums.map fun e => ⟨e.1, e.2.values⟩) (hnumbers : p.NarrowEnums)
    {type : FieldType} {declared : Option String} {d : Datum}
    (h : defaultOf? enums type declared = some d) : type.Starts d := by
  cases type with
  | scalar k =>
    cases declared with
    | none =>
      obtain rfl := Option.some.inj h
      exact k.admits_zero
    | some s => exact Scalar.admits_of_ofDefault? h
  | enumeration name =>
    obtain ⟨e, he, hd⟩ := Option.bind_eq_some_iff.mp h
    have hvalues : ∀ v ∈ e.values, IsEnumNumber v.2 := by
      have hmem := List.mem_of_find?_eq_some (enum?_of_lookup hp he)
      exact hnumbers _ hmem
    cases declared with
    | none =>
      obtain rfl := Option.some.inj hd
      refine ⟨_, rfl, ?_⟩
      cases hv : e.values with
      | nil =>
        show IsEnumNumber 0
        exact ⟨by decide, by decide⟩
      | cons v vs =>
        show IsEnumNumber v.2
        exact hvalues v (by rw [hv]; exact List.mem_cons_self)
    | some s =>
      obtain ⟨i, hi, rfl⟩ := Option.map_eq_some_iff.mp hd
      obtain ⟨v, hv, rfl⟩ := Option.map_eq_some_iff.mp hi
      exact ⟨v.2, rfl, hvalues v (List.mem_of_find?_eq_some hv)⟩
  | message name =>
    cases declared with
    | none => exact (Option.some.inj h).symm
    | some s => cases h
  | group name =>
    cases declared with
    | none => exact (Option.some.inj h).symm
    | some s => cases h

/-! ### Pools -/

theorem Linking.name_of_message? {l : Linking} {full : String} {d : MessageDecl}
    {t : MessageType} (h : l.message? full d = some t) : t.name = full := by
  unfold Linking.message? at h
  split at h
  · obtain ⟨fields, -, rfl⟩ := Option.map_eq_some_iff.mp h
    rfl
  · cases h

/-- The message types that a run over files gives to a pool: each links, and each that is
declared is among them. -/
theorem Pool.foldlM_addFile?_types {files : List FileDecl} {symbols : List Symbol.Entry}
    {types : List (String × MessageDecl)} {enums : List (String × EnumDecl)}
    {fs : List FileDecl} {p p' : Pool}
    (h : fs.foldlM (addFile? files symbols types enums) p = some p') :
    (∀ t ∈ p'.messages, t ∈ p.messages ∨ ∃ l : Linking, l.enums = enums
        ∧ (∀ s ∈ l.scope.symbols, s ∈ symbols) ∧ ∃ full d, l.message? full d = some t)
      ∧ (∀ t ∈ p.messages, t ∈ p'.messages)
      ∧ ∀ f ∈ fs, ∀ e ∈ f.types, ∃ t ∈ p'.messages, t.name = e.1 := by
  induction fs generalizing p with
  | nil =>
    obtain rfl : p = p' := Option.some.inj h
    exact ⟨fun t ht => Or.inl ht, fun t ht => ht, nofun⟩
  | cons f fs ih =>
    rw [List.foldlM_cons] at h
    obtain ⟨p₁, hfirst, hrest⟩ := Option.bind_eq_some_iff.mp h
    obtain ⟨hlinked, hkept, hdeclared⟩ := ih hrest
    unfold addFile? at hfirst
    obtain ⟨older, -, hfirst⟩ := Option.bind_eq_some_iff.mp hfirst
    obtain ⟨messages, hmessages, hfirst⟩ := Option.bind_eq_some_iff.mp hfirst
    obtain ⟨services, -, hfirst⟩ := Option.bind_eq_some_iff.mp hfirst
    split at hfirst
    · obtain rfl := Option.some.inj hfirst
      refine ⟨fun t ht => ?_, fun t ht => hkept t (List.mem_append_left _ ht),
        List.forall_mem_cons.mpr ⟨fun e he => ?_, hdeclared⟩⟩
      · rcases hlinked t ht with ht | ht
        · rcases List.mem_append.mp ht with ht | ht
          · exact Or.inl ht
          · obtain ⟨e, -, hlink⟩ := mem_of_mapM hmessages t ht
            exact Or.inr ⟨_, rfl, fun s hs => List.mem_of_mem_filter hs, _, _, hlink⟩
        · exact Or.inr ht
      · have hnames : messages.map MessageType.name = f.types.map Prod.fst := by
          refine map_of_mapM (fun e t hlink => ?_) hmessages
          exact Linking.name_of_message? hlink
        have hname : e.1 ∈ messages.map MessageType.name := hnames ▸ List.mem_map_of_mem he
        obtain ⟨t, ht, hname⟩ := List.mem_map.mp hname
        exact ⟨t, hkept t (List.mem_append_right _ ht), hname⟩
    · cases hfirst

/-- A pool that links has what encoding relies on. -/
theorem Pool.regular_of_link? {files : List FileDecl} {p : Pool} (h : link? files = some p)
    (hnumbers : p.NarrowEnums) : p.Regular := by
  simp only [link?, ofArranged?] at h
  split at h
  · obtain ⟨henums, -, -⟩ := foldlM_addFile?_cases h
    obtain ⟨hmessages, -, hdeclared⟩ := foldlM_addFile?_types h
    intro t ht f hf
    rcases hmessages t ht with ht | ⟨l, hlinking, hsymbols, full, m, hlink⟩
    · cases ht
    unfold Linking.message? at hlink
    split at hlink
    · next hwell =>
      obtain ⟨fields, hfields, rfl⟩ := Option.map_eq_some_iff.mp hlink
      obtain ⟨d, hd, hfield⟩ := mem_of_mapM hfields f hf
      obtain ⟨-, hnumber, -, -, declared, hdefault⟩ := Linking.field?_cases hfield
      obtain ⟨htypes, hpacked⟩ := Linking.field?_types hfield
      unfold MessageDecl.wellFormed at hwell
      simp only [Bool.and_eq_true, List.all_eq_true, decide_eq_true_eq] at hwell
      obtain ⟨⟨hlow, hhigh⟩, -⟩ := hwell.1.1 d hd
      refine ⟨?_, hpacked, ?_, fun name hname => ?_⟩
      · unfold maxFieldNumber at hhigh
        rw [hnumber]
        exact ⟨by omega, by omega⟩
      · rw [hlinking] at hdefault
        exact starts_of_defaultOf? henums hnumbers hdefault
      · obtain ⟨s, hs, rfl, hsymbol⟩ := htypes name hname
        obtain ⟨g, hg, hs⟩ := List.mem_flatMap.mp (hsymbols s hs)
        obtain ⟨m, hm⟩ := FileDecl.mem_types_of_mem_symbols hs hsymbol
        obtain ⟨t, ht, hname⟩ := hdeclared g hg _ hm
        have hsome : (p.message? s.name).isSome = true := by
          rw [message?, List.find?_isSome]
          exact ⟨t, ht, by simpa using hname⟩
        exact Option.isSome_iff_exists.mp hsome
    · cases hlink
  · cases h

end Switchboard.Proto
