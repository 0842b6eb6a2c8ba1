import Switchboard.Grpc.Payload
import Switchboard.Proofs.Proto.RoundTrip

/-!
# A response sent back as a request

The dictionary of a message of a plain type is a request body for that type.  The
message that it stands for holds what the first one held, with one difference: a scalar
or an enum field outside every oneof that has no value, though its default is told apart
from that, is `null` in the dictionary and comes back with its default.

## Main definitions

* `Field.nulled?` — what `null` puts into such a field.
* `ComesBackAs` — a message is written and read back.

## Main results

* `gives_filled` — the dictionary of a message gives what comes back.
* `comesBack_of_fits` — what comes back of a message that fits its type.
-/

namespace Switchboard.Proto

open Json

/-- What `null` puts into a field outside every oneof whose default is told apart from no
value: the default of a scalar or an enum, and nothing that is held into any other. -/
def Field.nulled? (f : Field) : Option Content :=
  if f.oneof = none ∧ f.explicit = true then
    match f.shape, f.type with
    | .single, .scalar _ | .single, .enumeration _ => some (.one f.default)
    | _, _ => none
  else none

theorem Field.nulled?_eq_none_of_oneof {f : Field} (h : f.oneof ≠ none) : f.nulled? = none :=
  if_neg fun hf => h hf.1

theorem Field.nulled?_eq_none_of_implicit {f : Field} (h : f.explicit = false) :
    f.nulled? = none := by
  refine if_neg fun hf => ?_
  rw [h] at hf
  simp at hf

theorem Field.of_nulled? {f : Field} {c : Content} (h : f.nulled? = some c) :
    f.oneof = none ∧ f.explicit = true := by
  unfold Field.nulled? at h
  split at h
  · next hf => exact hf
  · simp at h

namespace Pool

variable {p : Pool} {t : MessageType} {m : Message}

/-! ### Filling in `null` -/

/-- A dictionary with `null` under those of some names that it does not have. -/
def fillNulls (names : List String) (o : Dictionary Value) : Dictionary Value :=
  names.foldl (fun o name =>
    if Dictionary.contains name o then o else Dictionary.insert name .null o) o

theorem ordered_fillNulls {names : List String} {o : Dictionary Value} (h : o.Ordered) :
    (fillNulls names o).Ordered := by
  induction names generalizing o with
  | nil => exact h
  | cons name names ih =>
    rw [fillNulls, List.foldl_cons]
    split
    · exact ih h
    · exact ih (h.insert _ _)

theorem contains_fillNulls {names : List String} {o : Dictionary Value} {k : String} :
    Dictionary.contains k (fillNulls names o) = true ↔
      Dictionary.contains k o = true ∨ k ∈ names := by
  induction names generalizing o with
  | nil => simp [fillNulls]
  | cons name names ih =>
    rw [fillNulls, List.foldl_cons, List.mem_cons]
    split
    · next hname =>
      rw [← fillNulls, ih]
      constructor
      · exact fun h => h.imp_right Or.inr
      · rintro (h | rfl | h)
        · exact Or.inl h
        · exact Or.inl hname
        · exact Or.inr h
    · rw [← fillNulls, ih, Dictionary.contains_insert, Bool.or_eq_true, decide_eq_true_iff]
      tauto

theorem mem_fillNulls {names : List String} {o : Dictionary Value} {e : String × Value}
    (h : e ∈ fillNulls names o) :
    e ∈ o ∨ ∃ name ∈ names, Dictionary.contains name o = false ∧ e = (name, .null) := by
  induction names generalizing o with
  | nil => exact Or.inl h
  | cons name names ih =>
    rw [fillNulls, List.foldl_cons] at h
    split at h
    · next hname =>
      rcases ih h with he | ⟨k, hk, hcontains, rfl⟩
      · exact Or.inl he
      · exact Or.inr ⟨k, List.mem_cons_of_mem _ hk, hcontains, rfl⟩
    · next hname =>
      rw [Bool.not_eq_true] at hname
      rcases ih h with he | ⟨k, hk, hcontains, rfl⟩
      · rcases Dictionary.mem_insert he with rfl | he
        · exact Or.inr ⟨name, List.mem_cons_self, hname, rfl⟩
        · exact Or.inl he
      · rw [Dictionary.contains_insert, Bool.or_eq_false_iff] at hcontains
        exact Or.inr ⟨k, List.mem_cons_of_mem _ hk, hcontains.2, rfl⟩

/-! ### What comes back -/

/-- What a message holds once it has come back. -/
def comesBack (t : MessageType) (m : Message) (n : ℕ) : Option Content :=
  (m.get? n).or ((t.field? n).bind Field.nulled?)

theorem comesBack_number (ht : t.Linked p) {f : Field} (hf : f ∈ t.fields) :
    comesBack t m f.number = (m.get? f.number).or f.nulled? := by
  rw [comesBack, ht.field?_number hf, Option.bind_some]

theorem below_comesBack : Below m (comesBack t m) := by
  intro n c hc
  rw [comesBack, hc, Option.some_or]

theorem oneOfEach_comesBack (ht : t.Linked p) (hm : t.OneOfEach fun n => m.get? n) :
    t.OneOfEach (comesBack t m) := by
  intro f hf g hg hone hfg hfheld hgheld
  rw [comesBack_number ht hf, Field.nulled?_eq_none_of_oneof hone, Option.or_none] at hfheld
  rw [hfg] at hone
  rw [comesBack_number ht hg, Field.nulled?_eq_none_of_oneof hone, Option.or_none] at hgheld
  exact hm f hf g hg (hfg ▸ hone) hfg hfheld hgheld

theorem mem_standalone {name : String} :
    name ∈ standalone t ↔ ∃ f ∈ t.fields, f.oneof = none ∧ f.name = name := by
  rw [standalone, List.mem_map]
  constructor
  · rintro ⟨f, hf, rfl⟩
    obtain ⟨hmem, hone⟩ := List.mem_filter.mp hf
    exact ⟨f, hmem, by simpa using hone, rfl⟩
  · rintro ⟨f, hf, hone, rfl⟩
    exact ⟨f, List.mem_filter.mpr ⟨hf, by simpa using hone⟩, rfl⟩

/-- `null` puts into a field what comes back of it. -/
theorem readNull_plain {f : Field} (hplain : f.type.IsPlain) (hone : f.oneof = none)
    (hexplicit : f.explicit = true) :
    ∃ c, p.readNull f = some c ∧ f.nulled? = c.filter f.holds := by
  have hnulled : f.nulled? = match f.shape, f.type with
      | .single, .scalar _ | .single, .enumeration _ => some (.one f.default)
      | _, _ => none := if_pos ⟨hone, hexplicit⟩
  have hdefault : (some (Content.one f.default)).filter f.holds
      = some (Content.one f.default) := by
    rw [Option.filter_some, Field.holds, hexplicit]
    rfl
  rw [hnulled]
  unfold readNull
  cases hshape : f.shape with
  | list => exact ⟨_, rfl, rfl⟩
  | map key => exact ⟨_, rfl, rfl⟩
  | single =>
    cases htype : f.type with
    | scalar k => exact ⟨_, rfl, hdefault.symm⟩
    | enumeration name =>
      rw [htype] at hplain
      simp only [if_neg (ne_nullEnum_of_not_standard hplain)]
      exact ⟨_, rfl, hdefault.symm⟩
    | message name =>
      rw [htype] at hplain
      simp only [ofName?_of_not_standard hplain]
      exact ⟨none, rfl, rfl⟩
    | group name => exact ⟨none, rfl, rfl⟩

/-- The dictionary of a message gives what comes back. -/
theorem gives_filled (ht : t.Linked p) (hplain : t.IsPlain) (hm : m.Fits p t)
    {ms : List (String × Value)} (hms : p.Written t m ms) :
    p.Gives t (comesBack t m)
      (fillNulls (standalone t) (Dictionary.ofList (p.defaultMembers t m ++ ms))) where
  ordered := ordered_fillNulls (Dictionary.ordered_ofList _)
  tells := by
    intro e he
    rcases mem_fillNulls he with he | ⟨name, hname, habsent, rfl⟩
    · refine tells_written ht hplain hm.ordered hms below_comesBack ?_ e he
      intro f hf hexplicit hnone
      rw [comesBack_number ht hf, hnone, Field.nulled?_eq_none_of_implicit hexplicit]
      rfl
    · obtain ⟨f, hf, hone, rfl⟩ := mem_standalone.mp hname
      -- The object has a member for a field that is held or that the message has anyway.
      have hexplicit : f.explicit = true := by
        by_contra hexplicit
        rw [Bool.not_eq_true] at hexplicit
        rw [contains_written hms ht hf (Or.inl hexplicit)] at habsent
        simp at habsent
      have hnone : m.get? f.number = none := by
        by_contra hheld
        rw [← Ne, Option.ne_none_iff_isSome] at hheld
        rw [contains_written hms ht hf (Or.inr hheld)] at habsent
        simp at habsent
      obtain ⟨c, hread, hc⟩ := readNull_plain (p := p) (hplain.types f hf) hone hexplicit
      refine tells_null hf hone hread ?_
      rw [comesBack_number ht hf, hnone, Option.none_or, hc]
  covers := by
    intro n c hc
    rw [comesBack, Option.or_eq_some_iff] at hc
    rcases hc with hc | ⟨-, hc⟩
    · obtain ⟨f, hf, -⟩ := hm.contents.of_mem (Message.mem_of_get? hc)
      obtain ⟨hmem, rfl⟩ := mem_of_field? hf
      have hsome := Option.isSome_iff_exists.mpr ⟨c, hc⟩
      have hcontains := contains_written hms ht hmem (Or.inr hsome)
      exact ⟨f, hmem, rfl, contains_fillNulls.mpr (Or.inl hcontains)⟩
    · obtain ⟨f, hf, hnulled⟩ := Option.bind_eq_some_iff.mp hc
      obtain ⟨hmem, rfl⟩ := mem_of_field? hf
      have hstandalone := mem_standalone.mpr ⟨f, hmem, (Field.of_nulled? hnulled).1, rfl⟩
      exact ⟨f, hmem, rfl, contains_fillNulls.mpr (Or.inr hstandalone)⟩

end Pool

end Switchboard.Proto

namespace Switchboard.Grpc

open Proto Json

variable {p : Pool} {t : MessageType} {m : Message}

/-- A message is written as a dictionary, and the dictionary is read as a message that
holds the given contents. -/
def ComesBackAs (p : Pool) (t : MessageType) (m : Message) (held : ℕ → Option Content) : Prop :=
  ∃ ms m', responseMap p t m = .ok ms ∧ requestMessage p t (.json (.object ms)) = .ok m'
    ∧ m'.Ordered ∧ ∀ n, m'.get? n = held n

theorem comesBack_of_fits (hp : p.Linked) {name : String} (ht : p.message? name = some t)
    (hname : ¬ IsStandard name) (hplain : p.AllPlain t) (hm : m.Fits p t) :
    ComesBackAs p t m (Pool.comesBack t m) := by
  have hlinked := Pool.linked_of_message? hp ht
  have htname : t.name = name := by simpa using List.find?_some ht
  have htype : (FieldType.message t.name).IsPlain := by rwa [htname]
  have hmessage : p.messageOf? (.message t.name) = some t := by
    rw [htname]
    exact ht
  obtain ⟨ms, hwrite, hms⟩ := Pool.exists_writeContents hp p.writeOutermost hlinked hplain m
    hm.contents
  have hgives := Pool.gives_filled hlinked hplain.isPlain hm hms
  have hobject : p.write? t m
      = some (.object (Dictionary.ofList (p.defaultMembers t m ++ ms))) :=
    Pool.writeDatum_message _ htype hmessage hwrite
  have hfilled : p.writeFilled? t m = some (Pool.fillNulls (Pool.standalone t)
      (Dictionary.ofList (p.defaultMembers t m ++ ms))) := by
    rw [Pool.writeFilled?, hobject]
    rfl
  generalize Pool.fillNulls _ _ = filled at hgives hfilled
  obtain ⟨m', hread, hm', hget⟩ := hgives.exists_message hlinked hplain.isPlain
    (Pool.oneOfEach_comesBack hlinked hm.oneOfEach) (Nat.le_refl _)
  refine ⟨filled, m', ?_, ?_, hm', hget⟩
  · rw [responseMap, hfilled]
  · have hobject := Pool.readContent_object (Pool.plainMessage?_of_plain htype hmessage)
      (Nat.le_refl (Document.ofValue (.object filled)).depth)
    have hdepth : (Document.ofValue (.object filled)).depth - 1
        = Document.depthMembers (Document.ofValueMembers filled) := by
      rw [Document.ofValue, Document.depth, Nat.add_sub_cancel]
    rw [hdepth, hread] at hobject
    rw [requestMessage, requestMessage?, Pool.read?, hobject]
    rfl

/-- **What comes back of a response.**  For a message of a type in a pool that links, outside
`google.protobuf`, whose types are all plain, the dictionary of the message is read as
a message with the same contents, but that a singular scalar or enum field outside every
oneof has its default where it had no value that is told apart from it. -/
theorem requestMessage_responseMap {files : List FileDecl} (hp : Pool.link? files = some p)
    {name : String} (ht : p.message? name = some t) (hname : ¬ IsStandard name)
    (hplain : p.AllPlain t) (hm : m.Fits p t) :
    ComesBackAs p t m fun n => (m.get? n).or ((t.field? n).bind Field.nulled?) :=
  comesBack_of_fits (Pool.linked_of_link? hp) ht hname hplain hm

/-- A message comes back as it was where no field of its type is set by `null`, as in the
newer version of the language. -/
theorem comesBackAs_self {files : List FileDecl} (hp : Pool.link? files = some p)
    {name : String} (ht : p.message? name = some t) (hname : ¬ IsStandard name)
    (hplain : p.AllPlain t) (hm : m.Fits p t) (hnulled : ∀ f ∈ t.fields, f.nulled? = none) :
    ComesBackAs p t m fun n => m.get? n := by
  have hsame : Pool.comesBack t m = fun n => m.get? n := by
    funext n
    rw [Pool.comesBack]
    cases hf : t.field? n with
    | none => rw [Option.bind_none, Option.or_none]
    | some f => rw [Option.bind_some, hnulled f (mem_of_field? hf).1, Option.or_none]
  rw [← hsame]
  exact comesBack_of_fits (Pool.linked_of_link? hp) ht hname hplain hm

/-! ### A message with every kind of field -/

/-- A person with friends, keys under names, and a phone or a guardian. -/
def personDecl : MessageDecl :=
  .mk "Person"
    [{ name := "name", number := 1, type := some (.scalar .string) },
     { name := "id", number := 2, type := some (.scalar .int64) },
     { name := "kind", number := 3, type := some .enumeration, typeName := some ".Kind" },
     { name := "friends", number := 4, type := some .message, typeName := some ".Person",
       label := .repeated },
     { name := "keys", number := 5, type := some .message,
       typeName := some ".Person.KeysEntry", label := .repeated },
     { name := "phone", number := 6, type := some (.scalar .string), oneof := some 0 },
     { name := "guardian", number := 7, type := some .message, typeName := some ".Person",
       oneof := some 0 },
     { name := "age", number := 8, type := some (.scalar .int32), oneof := some 1,
       marked := true }]
    [.mk "KeysEntry"
      [{ name := "key", number := 1, type := some (.scalar .string) },
       { name := "value", number := 2, type := some (.scalar .bytes) }] [] [] [] true]
    [] ["contact", "_age"] false

/-- The file of that type. -/
def peopleFile : FileDecl where
  name := "people.proto"
  version := some "proto3"
  messages := [personDecl]
  enums := [{ name := "Kind", values := [("UNKNOWN", 0)] }]

/-- The linked type of a person. -/
def personType : MessageType where
  name := "Person"
  fields :=
    [⟨"name", "name", 1, .scalar .string, .single, none, false, false, .string ""⟩,
     ⟨"id", "id", 2, .scalar .int64, .single, none, false, false, .int 0⟩,
     ⟨"kind", "kind", 3, .enumeration "Kind", .single, none, false, false, .int 0⟩,
     ⟨"friends", "friends", 4, .message "Person", .list, none, false, false, .message []⟩,
     ⟨"keys", "keys", 5, .scalar .bytes, .map .string, none, false, false, .bytes []⟩,
     ⟨"phone", "phone", 6, .scalar .string, .single, some 0, true, false, .string ""⟩,
     ⟨"guardian", "guardian", 7, .message "Person", .single, some 0, true, false, .message []⟩,
     ⟨"age", "age", 8, .scalar .int32, .single, some 1, true, false, .int 0⟩]

/-- The pool of that file. -/
def peoplePool : Pool where
  files := ["people.proto"]
  messages :=
    [personType,
     ⟨"Person.KeysEntry",
      [⟨"key", "key", 1, .scalar .string, .single, none, false, false, .string ""⟩,
       ⟨"value", "value", 2, .scalar .bytes, .single, none, false, false, .bytes []⟩]⟩]
  enums := [⟨"Kind", [("UNKNOWN", 0)]⟩]
  services := []

/-- A person of a kind without a name, with one friend of whom nothing is known, a key,
an empty guardian and the age zero. -/
def ada : Message :=
  [(1, .one (.string "Ada")), (2, .one (.int (2 ^ 62))), (3, .one (.int 5)),
   (4, .list [.message []]), (5, .map [("ssh", .bytes [1, 2])]), (7, .one (.message [])),
   (8, .one (.int 0))]

theorem link_people : Pool.link? [peopleFile] = some peoplePool := by
  rw [Pool.link?, FileDecl.arrange_singleton rfl]
  rfl

theorem allPlain_person : peoplePool.AllPlain personType := by
  intro t hreach
  have ht := hreach.mem (p := peoplePool) (List.mem_cons_self ..)
  simp only [peoplePool, List.mem_cons, List.not_mem_nil, or_false] at ht
  rcases ht with rfl | rfl
  · exact ⟨by decide, by decide⟩
  · exact ⟨by decide, by decide⟩

theorem fits_ada : Message.Fits peoplePool personType ada := by
  have hempty : (Datum.message []).Fits peoplePool (.message "Person") :=
    Datum.fits_message_iff.mpr ⟨"Person", Or.inl rfl, personType, rfl, Message.fits_nil _ _⟩
  refine ⟨by simp [ada, Message.Ordered], by unfold MessageType.OneOfEach; decide, ?_⟩
  refine ⟨⟨_, rfl, rfl, rfl, trivial⟩, ⟨_, rfl, rfl, rfl, ?_⟩, ⟨_, rfl, rfl, rfl, ?_⟩,
    ⟨_, rfl, rfl, rfl, hempty, trivial⟩, ⟨_, rfl, rfl, .string, rfl, rfl, ?_, ?_⟩,
    ⟨_, rfl, rfl, rfl, hempty⟩, ⟨_, rfl, rfl, rfl, ?_⟩, trivial⟩
  · show Scalar.int64.Admits (.int (2 ^ 62))
    exact Scalar.admits_int rfl (by decide) (by decide)
  · exact ⟨5, rfl, by decide, by decide⟩
  · exact List.pairwise_singleton _ _
  · exact ⟨⟨.string "ssh", trivial, rfl⟩, trivial, trivial⟩
  · show Scalar.int32.Admits (.int 0)
    exact Scalar.admits_int rfl (by decide) (by decide)

/-- Ada comes back. -/
theorem requestMessage_ada :
    Pool.link? [peopleFile] = some peoplePool ∧ peoplePool.message? "Person" = some personType
      ∧ ¬ IsStandard "Person" ∧ peoplePool.AllPlain personType
      ∧ Message.Fits peoplePool personType ada
      ∧ ComesBackAs peoplePool personType ada fun n =>
        (Message.get? n ada).or ((personType.field? n).bind Field.nulled?) :=
  have hfound : peoplePool.message? "Person" = some personType := rfl
  have hname : ¬ IsStandard "Person" := by decide
  ⟨link_people, hfound, hname, allPlain_person, fits_ada,
    requestMessage_responseMap link_people hfound hname allPlain_person fits_ada⟩

/-! ### Messages that come back changed -/

/-- A file in the older version of the language, with one field. -/
def olderFile : FileDecl where
  name := "p.proto"
  version := some "proto2"
  messages := [.mk "M" [{ name := "x", number := 1, type := some (.scalar .int32) }] [] [] []
    false]

/-- The linked type of its messages. -/
def olderType : MessageType where
  name := "M"
  fields := [⟨"x", "x", 1, .scalar .int32, .single, none, true, false, .int 0⟩]

/-- The pool of that file. -/
def olderPool : Pool := ⟨["p.proto"], [olderType], [], []⟩

/-- A file with a type whose field `b` has the name that `a` has for JSON, and a type that
holds its messages. -/
def clashingFile : FileDecl where
  name := "c.proto"
  version := some "proto3"
  messages :=
    [.mk "Outer"
      [{ name := "inner", number := 1, type := some .message, typeName := some ".Inner" }]
      [] [] [] false,
     .mk "Inner"
      [{ name := "a", number := 1, type := some (.scalar .int32), jsonName := some "b" },
       { name := "b", number := 2, type := some (.scalar .int32), jsonName := some "c" }]
      [] [] [] false]

/-- The linked type of the outer messages. -/
def outerType : MessageType where
  name := "Outer"
  fields := [⟨"inner", "inner", 1, .message "Inner", .single, none, true, false, .message []⟩]

/-- The linked type of the inner messages. -/
def innerType : MessageType where
  name := "Inner"
  fields :=
    [⟨"a", "b", 1, .scalar .int32, .single, none, false, false, .int 0⟩,
     ⟨"b", "c", 2, .scalar .int32, .single, none, false, false, .int 0⟩]

/-- The pool of that file. -/
def clashingPool : Pool := ⟨["c.proto"], [outerType, innerType], [], []⟩

/-- An outer message around an inner one with both fields set. -/
def clashing : Message :=
  [(1, .one (.message [(1, .one (.int 1)), (2, .one (.int 2))]))]

theorem not_comesBackAs {ms : Dictionary Value} {m' : Message}
    {held : ℕ → Option Content} (hms : responseMap p t m = .ok ms)
    (hm' : requestMessage p t (.json (.object ms)) = .ok m') {n : ℕ}
    (hn : m'.get? n ≠ held n) : ¬ ComesBackAs p t m held := by
  rintro ⟨ms', m'', hms', hm'', -, hheld⟩
  rw [hms] at hms'
  obtain rfl := Except.ok.inj hms'
  rw [hm'] at hm''
  obtain rfl := Except.ok.inj hm''
  exact hn (hheld n)

theorem allPlain_older : olderPool.AllPlain olderType := by
  intro t hreach
  have ht := hreach.mem (p := olderPool) (List.mem_cons_self ..)
  obtain rfl := List.mem_singleton.mp ht
  exact ⟨by decide, by decide⟩

theorem plainTypes_outer : ∀ t, clashingPool.Reaches outerType t →
    ∀ f ∈ t.fields, f.type.IsPlain := by
  intro t hreach
  have ht := hreach.mem (p := clashingPool) (List.mem_cons_self ..)
  simp only [clashingPool, List.mem_cons, List.not_mem_nil, or_false] at ht
  rcases ht with rfl | rfl
  · decide
  · decide

theorem fits_clashing : Message.Fits clashingPool outerType clashing := by
  have hinner : Message.Fits clashingPool innerType
      [(1, .one (.int 1)), (2, .one (.int 2))] := by
    refine ⟨by simp [Message.Ordered], by unfold MessageType.OneOfEach; decide,
      ⟨_, rfl, rfl, rfl, ?_⟩, ⟨_, rfl, rfl, rfl, ?_⟩, trivial⟩
    · show Scalar.int32.Admits (.int 1)
      exact Scalar.admits_int rfl (by decide) (by decide)
    · show Scalar.int32.Admits (.int 2)
      exact Scalar.admits_int rfl (by decide) (by decide)
  refine ⟨List.pairwise_singleton _ _, by unfold MessageType.OneOfEach; decide,
    ⟨_, rfl, rfl, rfl, ?_⟩, trivial⟩
  exact Datum.fits_message_iff.mpr ⟨"Inner", Or.inl rfl, innerType, rfl, hinner⟩

/-- Not every message comes back as it was.  An unset field in the older version of the
language comes back with its default; and where only the outermost type keeps its declared
names apart from its names for JSON, a field further inside is lost. -/
theorem comesBack_changed :
    (Pool.link? [olderFile] = some olderPool ∧ olderPool.message? "M" = some olderType
      ∧ ¬ IsStandard "M" ∧ olderPool.AllPlain olderType
      ∧ Message.Fits olderPool olderType []
      ∧ ¬ ComesBackAs olderPool olderType [] fun n => Message.get? n [])
    ∧ Pool.link? [clashingFile] = some clashingPool
      ∧ clashingPool.message? "Outer" = some outerType ∧ ¬ IsStandard "Outer"
      ∧ (∀ t, clashingPool.Reaches outerType t → ∀ f ∈ t.fields, f.type.IsPlain)
      ∧ (∀ f ∈ outerType.fields, ∀ g ∈ outerType.fields, g.jsonName = f.name →
        g.name = f.name)
      ∧ Message.Fits clashingPool outerType clashing
      ∧ ¬ ComesBackAs clashingPool outerType clashing fun n => Message.get? n clashing := by
  have hlink : Pool.link? [olderFile] = some olderPool := by
    rw [Pool.link?, FileDecl.arrange_singleton rfl]
    rfl
  have hlink' : Pool.link? [clashingFile] = some clashingPool := by
    rw [Pool.link?, FileDecl.arrange_singleton rfl]
    rfl
  have hdefault : requestMessage olderPool olderType (.json (.object [("x", .null)]))
      = .ok [(1, .one (.int 0))] := rfl
  have hwritten : responseMap clashingPool outerType clashing
      = .ok [("inner", .object [("a", .int 1), ("b", .int 2)])] := rfl
  have hlost : requestMessage clashingPool outerType
      (.json (.object [("inner", .object [("a", .int 1), ("b", .int 2)])]))
      = .ok [(1, .one (.message [(1, .one (.int 2))]))] := rfl
  refine ⟨⟨hlink, rfl, by decide, allPlain_older, Message.fits_nil _ _, ?_⟩, hlink', rfl,
    by decide, plainTypes_outer, by decide, fits_clashing, ?_⟩
  · exact not_comesBackAs rfl hdefault (n := 1) (by simp)
  · exact not_comesBackAs hwritten hlost (n := 1) (by simp [clashing])

end Switchboard.Grpc
