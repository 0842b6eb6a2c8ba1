import Switchboard.Proofs.Grpc.Payload
import Switchboard.Proofs.Proto.Form

/-!
# Where `null` stands in a response

The dictionary of a response has every member of the object that the message is written as,
and `null` under the fields outside every oneof that the object leaves out.  Where the object
has a member for each field, it leaves out only what the message does not hold.  A message
with a form of its own is written as an object of something else, and then `null` stands
under a field whether the message holds it or not.

## Main definitions

* `Fills` — a dictionary adds to an object `null` for unset fields alone.

## Main results

* `get?_fillNulls` — what is found once `null` has been filled in.
* `fills_iff` — **when `null` is added for unset fields alone.**
-/

namespace Switchboard.Proto.Pool

open Json

/-- What is found once `null` has been filled in: what was there, and `null` under those of
the names that were not. -/
theorem get?_fillNulls (names : List String) (o : Dictionary Value) (k : String) :
    Dictionary.get? k (fillNulls names o)
      = (Dictionary.get? k o).or (if k ∈ names then some .null else none) := by
  induction names generalizing o with
  | nil => rw [fillNulls, List.foldl_nil, if_neg List.not_mem_nil, Option.or_none]
  | cons name names ih =>
    rw [fillNulls, List.foldl_cons, ← fillNulls, ih]
    by_cases hname : Dictionary.contains name o = true
    · rw [if_pos hname]
      by_cases hk : k = name
      · subst hk
        obtain ⟨v, hv⟩ := Option.isSome_iff_exists.mp hname
        rw [hv, Option.some_or, Option.some_or]
      · simp only [List.mem_cons, hk, false_or]
    · rw [if_neg hname, Dictionary.get?_insert]
      by_cases hk : k = name
      · subst hk
        rw [Dictionary.contains, Option.not_isSome_iff_eq_none] at hname
        rw [hname, if_pos rfl, if_pos List.mem_cons_self, Option.some_or, Option.none_or]
      · rw [if_neg hk]
        simp only [List.mem_cons, hk, false_or]

/-- An object in which every one of the names stands is left as it is. -/
theorem fillNulls_of_forall {names : List String} {o : Dictionary Value}
    (h : ∀ name ∈ names, Dictionary.contains name o = true) : fillNulls names o = o := by
  induction names with
  | nil => rfl
  | cons name names ih =>
    obtain ⟨hname, hnames⟩ := List.forall_mem_cons.mp h
    rw [fillNulls, List.foldl_cons, if_pos hname, ← fillNulls, ih hnames]

end Switchboard.Proto.Pool

namespace Switchboard.Grpc

open Proto Json

variable {p : Pool} {t : MessageType} {m : Message} {form o : Dictionary Value}

/-- A message that is written as an object has the dictionary of that object with `null`
filled in. -/
theorem responseMap_of_object (h : p.write? t m = some (.object form)) :
    responseMap p t m = .ok (Pool.fillNulls (Pool.standalone t) form) := by
  rw [responseMap, Pool.writeFilled?, h]
  rfl

/-- The object of a message of a type without a form of its own. -/
theorem write?_eq {name : String} (ht : p.message? name = some t)
    (hspecial : Special.ofName? t.name = none) :
    p.write? t m =
      (p.writeContents p.writeOutermost t m).map fun ms => .object (p.form t m ms) :=
  Pool.writeDatum_object (Pool.plainMessage?_name ht hspecial) m

/-- Such an object leaves out a field exactly if the field tells its default apart from no
value and has none. -/
theorem get?_object_eq_none_iff (hp : p.Linked) {name : String}
    (ht : p.message? name = some t) (hspecial : Special.ofName? t.name = none)
    (hform : p.write? t m = some (.object form)) {f : Field} (hf : f ∈ t.fields) :
    Dictionary.get? f.name form = none ↔ f.explicit = true ∧ m.get? f.number = none := by
  rw [write?_eq ht hspecial] at hform
  obtain ⟨ms, hms, hobject⟩ := Option.map_eq_some_iff.mp hform
  obtain rfl := Value.object.inj hobject
  have hcontains := Pool.contains_form (Pool.linked_of_message? hp ht) hms hf
  rw [← Option.not_isSome_iff_eq_none, ← Dictionary.contains, hcontains, not_or,
    Bool.not_eq_false, Option.not_isSome_iff_eq_none]

/-- A dictionary has all that an object has, and beside it nothing but `null` under fields
outside every oneof that the message does not hold. -/
structure Fills (t : MessageType) (m : Message) (form o : Dictionary Value) : Prop where
  /-- What the object has is unchanged. -/
  kept : ∀ k v, Dictionary.get? k form = some v → Dictionary.get? k o = some v
  /-- What is added stands for a field that is unset. -/
  added : ∀ k v, Dictionary.get? k form = none → Dictionary.get? k o = some v →
    v = .null ∧ ∃ f ∈ t.fields, f.name = k ∧ f.oneof = none ∧ m.get? f.number = none

/-- What is filled in stands for unset fields alone if no field outside the oneofs is both
held and left out. -/
theorem fills_fillNulls_iff (ht : t.Linked p) :
    Fills t m form (Pool.fillNulls (Pool.standalone t) form) ↔
      ∀ f ∈ t.fields, f.oneof = none → (m.get? f.number).isSome = true →
        Dictionary.contains f.name form = true := by
  have hfound := Pool.get?_fillNulls (Pool.standalone t) form
  constructor
  · intro h f hf hone hheld
    by_contra habsent
    rw [Dictionary.contains, Option.not_isSome_iff_eq_none] at habsent
    have hnull := hfound f.name
    rw [habsent, if_pos (Pool.mem_standalone.mpr ⟨f, hf, hone, rfl⟩), Option.none_or] at hnull
    obtain ⟨-, g, hg, hname, -, hunset⟩ := h.added _ _ habsent hnull
    rw [ht.eq_of_name hg hf hname] at hunset
    rw [hunset] at hheld
    cases hheld
  · refine fun h => ⟨fun k v hv => ?_, fun k v habsent hv => ?_⟩
    · rw [hfound, hv, Option.some_or]
    · rw [hfound, habsent, Option.none_or] at hv
      split at hv
      · next hk =>
        obtain ⟨f, hf, hone, rfl⟩ := Pool.mem_standalone.mp hk
        refine ⟨(Option.some.inj hv).symm, f, hf, rfl, hone, ?_⟩
        by_contra hheld
        have hcontains := h f hf hone (Option.ne_none_iff_isSome.mp hheld)
        rw [Dictionary.contains, habsent] at hcontains
        cases hcontains
      · cases hv

/-- What is filled in stands for unset fields alone, unless a message with a form of its own
holds a field that the object does not name. -/
theorem fills_object_iff (hp : p.Linked) {name : String} (ht : p.message? name = some t)
    (hform : p.write? t m = some (.object form)) :
    Fills t m form (Pool.fillNulls (Pool.standalone t) form) ↔
      Special.ofName? t.name = none ∨
        ∀ f ∈ t.fields, f.oneof = none → (m.get? f.number).isSome = true →
          Dictionary.contains f.name form = true := by
  rw [fills_fillNulls_iff (Pool.linked_of_message? hp ht)]
  refine ⟨Or.inr, fun h => h.elim (fun hspecial f hf _ hheld => ?_) id⟩
  by_contra habsent
  rw [Dictionary.contains, Option.not_isSome_iff_eq_none,
    get?_object_eq_none_iff hp ht hspecial hform hf] at habsent
  rw [habsent.2] at hheld
  cases hheld

/-- **When `null` is added for unset fields alone.**  For a message that is written as an
object, the dictionary of the response has every member of the object as it is.  What it has
beside is `null` for fields outside every oneof that are unset, exactly if the type has no
form of its own or the object happens to name every such field that the message holds. -/
theorem fills_iff {files : List FileDecl} (hp : Pool.link? files = some p) {name : String}
    (ht : p.message? name = some t) (hform : p.write? t m = some (.object form)) :
    ∃ o, responseMap p t m = .ok o ∧
      (∀ k v, Dictionary.get? k form = some v → Dictionary.get? k o = some v) ∧
      (Fills t m form o ↔ Special.ofName? t.name = none ∨
        ∀ f ∈ t.fields, f.oneof = none → (m.get? f.number).isSome = true →
          Dictionary.contains f.name form = true) := by
  have hlinked := Pool.linked_of_link? hp
  refine ⟨_, responseMap_of_object hform, fun k v hv => ?_, fills_object_iff hlinked ht hform⟩
  rw [Pool.get?_fillNulls, hv, Option.some_or]

/-! ### Trees -/

/-- A file with the type of trees whose nodes have labels. -/
def treeFile : FileDecl where
  name := "tree.proto"
  version := some "proto3"
  messages :=
    [.mk "Tree"
      [{ name := "label", number := 1, type := some (.scalar .string) },
       { name := "left", number := 2, type := some .message, typeName := some ".Tree" },
       { name := "right", number := 3, type := some .message, typeName := some ".Tree" }]
      [] [] [] false]

/-- The linked type of trees. -/
def treeType : MessageType where
  name := "Tree"
  fields :=
    [⟨"label", "label", 1, .scalar .string, .single, none, false, false, .string ""⟩,
     ⟨"left", "left", 2, .message "Tree", .single, none, true, false, .message []⟩,
     ⟨"right", "right", 3, .message "Tree", .single, none, true, false, .message []⟩]

/-- The pool of that file. -/
def treePool : Pool := ⟨["tree.proto"], [treeType], [], []⟩

theorem link_tree : Pool.link? [treeFile] = some treePool := by
  rw [Pool.link?, FileDecl.arrange_singleton rfl]
  rfl

/-- A tree with a leaf on its left, which has no label. -/
def leftTree : Message := [(1, .one (.string "root")), (2, .one (.message []))]

/-- The object of that tree. -/
def leftForm : Dictionary Value :=
  [("label", .string "root"), ("left", .object [("label", .string "")])]

/-- The dictionary of the tree has `null` for what it does not have on its right. -/
theorem fills_leftTree :
    Pool.link? [treeFile] = some treePool ∧ treePool.message? "Tree" = some treeType ∧
      treePool.write? treeType leftTree = some (.object leftForm) ∧
      Fills treeType leftTree leftForm (leftForm ++ [("right", .null)]) := by
  have hfound : treePool.message? "Tree" = some treeType := rfl
  have hform : treePool.write? treeType leftTree = some (.object leftForm) := rfl
  have hmap : responseMap treePool treeType leftTree = .ok (leftForm ++ [("right", .null)]) := rfl
  obtain ⟨o, ho, -, hfills⟩ := fills_iff link_tree hfound hform
  rw [hmap] at ho
  obtain rfl := Except.ok.inj ho
  exact ⟨link_tree, hfound, hform, hfills.mpr (Or.inl (by decide))⟩

/-! ### A message with a form of its own -/

/-- The file of the types for JSON values that come with the language, with their texts
alone. -/
def structFile : FileDecl where
  name := "google/protobuf/struct.proto"
  package := "google.protobuf"
  version := some "proto3"
  messages :=
    [.mk "Struct"
      [{ name := "fields", number := 1, type := some .message,
         typeName := some ".google.protobuf.Struct.FieldsEntry", label := .repeated }]
      [.mk "FieldsEntry"
        [{ name := "key", number := 1, type := some (.scalar .string) },
         { name := "value", number := 2, type := some .message,
           typeName := some ".google.protobuf.Value" }] [] [] [] true]
      [] [] false,
     .mk "Value"
      [{ name := "string_value", number := 3, type := some (.scalar .string),
         oneof := some 0 }] [] [] ["kind"] false]

/-- The linked type of JSON objects. -/
def structType : MessageType where
  name := "google.protobuf.Struct"
  fields :=
    [⟨"fields", "fields", 1, .message "google.protobuf.Value", .map .string, none, false,
      false, .message []⟩]

/-- The pool of that file. -/
def structPool : Pool where
  files := ["google/protobuf/struct.proto"]
  messages :=
    [structType,
     ⟨"google.protobuf.Struct.FieldsEntry",
      [⟨"key", "key", 1, .scalar .string, .single, none, false, false, .string ""⟩,
       ⟨"value", "value", 2, .message "google.protobuf.Value", .single, none, true, false,
        .message []⟩]⟩,
     ⟨"google.protobuf.Value",
      [⟨"string_value", "stringValue", 3, .scalar .string, .single, some 0, true, false,
        .string ""⟩]⟩]
  enums := []
  services := []

/-- The JSON object with the one member `name`. -/
def namedAda : Message := [(1, .map [("name", .message [(3, .one (.string "Ada"))])])]

/-- In the dictionary of a JSON object `null` stands under the field that holds the members
of the object, though there is one. -/
theorem not_fills_namedAda :
    Pool.link? [structFile] = some structPool ∧
      structPool.message? "google.protobuf.Struct" = some structType ∧
      structPool.write? structType namedAda = some (.object [("name", .string "Ada")]) ∧
      responseMap structPool structType namedAda
        = .ok [("fields", .null), ("name", .string "Ada")] ∧
      (namedAda.get? 1).isSome = true ∧
      ¬ Fills structType namedAda [("name", .string "Ada")]
        [("fields", .null), ("name", .string "Ada")] := by
  have hlink : Pool.link? [structFile] = some structPool := by
    rw [Pool.link?, FileDecl.arrange_singleton rfl]
    rfl
  have hform : structPool.write? structType namedAda
      = some (.object [("name", .string "Ada")]) := by with_unfolding_all rfl
  have hmap : responseMap structPool structType namedAda
      = .ok [("fields", .null), ("name", .string "Ada")] := responseMap_of_object hform
  refine ⟨hlink, rfl, hform, hmap, rfl, fun hfills => ?_⟩
  obtain ⟨-, f, hf, -, -, hunset⟩ := hfills.added "fields" .null rfl rfl
  obtain rfl := List.mem_singleton.mp hf
  cases hunset

end Switchboard.Grpc
