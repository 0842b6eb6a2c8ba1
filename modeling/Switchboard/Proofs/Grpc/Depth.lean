import Switchboard.Proofs.Grpc.Nulls

/-!
# Messages inside a response

A message stands inside another in a field, among the elements of a list or under a key of a
map.  The way to it names fields, and it leads through the dictionary of the response as it
leads through the message.  What stands there is the object of the inner message, without
the `null` that the dictionary of a message on its own has under fields that are unset.

## Main definitions

* `Step` — a step from a message to one inside it.
* `messageAt?`, `valueAt?` — where steps lead through a message and through its value.
* `OrderedWithin` — the message and all messages that steps lead to are ordered.

## Main results

* `part?_of_datum?` — a step leads to what is written for the value it leads to.
* `valueAt?_form` — so does any number of steps.
* `valueAt?_eq_iff` — **when a message inside a response has the dictionary that it has on
  its own.**
-/

namespace Switchboard.Grpc

open Proto Json

/-- A step from a message to one inside it. -/
inductive Step where
  /-- To what a field holds. -/
  | field (name : String)
  /-- To an element of the list in a field. -/
  | element (name : String) (i : ℕ)
  /-- To what the map in a field has under a key. -/
  | entry (name : String) (key : String)
  deriving DecidableEq, Repr

namespace Step

/-- The name of the field. -/
def name : Step → String
  | field name | element name _ | entry name _ => name

/-- What the step leads to in the content of the field. -/
def datum? : Step → Content → Option Datum
  | field _, .one d => some d
  | element _ i, .list ds => ds[i]?
  | entry _ k, .map es => Dictionary.get? k es
  | _, _ => none

/-- What the step leads to in the value of the field. -/
def part? : Step → Value → Option Value
  | field _, v => some v
  | element _ i, .array vs => vs[i]?
  | entry _ k, .object es => Dictionary.get? k es
  | _, _ => none

end Step

/-- The message that steps lead to, with its type; no message on the way is of a type with a
form of its own. -/
def messageAt? (p : Pool) (t : MessageType) (m : Message) :
    List Step → Option (MessageType × Message)
  | [] => some (t, m)
  | s :: path => do
    let f ← t.fields.find? (·.name = s.name)
    match ← s.datum? (← m.get? f.number) with
    | .message m' => messageAt? p (← p.plainMessage? f.type) m' path
    | _ => none

/-- The value that steps lead to. -/
def valueAt? (v : Value) : List Step → Option Value
  | [] => some v
  | s :: path => (v.member? s.name).bind fun w => (s.part? w).bind fun w' => valueAt? w' path

/-- The message and all messages that steps lead to are ordered. -/
def OrderedWithin (p : Pool) (t : MessageType) (m : Message) : Prop :=
  ∀ path t' m', messageAt? p t m path = some (t', m') → m'.Ordered

variable {p : Pool} {t t' : MessageType} {m m' : Message} {any : Bytes → Option Value}

theorem OrderedWithin.ordered (h : OrderedWithin p t m) : m.Ordered := h [] t m rfl

/-- The first of some steps, and the others. -/
theorem messageAt?_cons {s : Step} {path : List Step} :
    messageAt? p t m (s :: path) = some (t', m') ↔
      ∃ f c m₁ t₁, t.fields.find? (·.name = s.name) = some f ∧ m.get? f.number = some c ∧
        s.datum? c = some (.message m₁) ∧ p.plainMessage? f.type = some t₁ ∧
        messageAt? p t₁ m₁ path = some (t', m') := by
  constructor
  · intro h
    rw [messageAt?] at h
    obtain ⟨f, hf, h⟩ := Option.bind_eq_some_iff.mp h
    obtain ⟨c, hc, h⟩ := Option.bind_eq_some_iff.mp h
    obtain ⟨d, hd, h⟩ := Option.bind_eq_some_iff.mp h
    split at h
    · next m₁ =>
      obtain ⟨t₁, ht₁, h⟩ := Option.bind_eq_some_iff.mp h
      exact ⟨f, c, m₁, t₁, hf, hc, hd, ht₁, h⟩
    · cases h
  · rintro ⟨f, c, m₁, t₁, hf, hc, hd, ht₁, h⟩
    rw [messageAt?, hf, Option.bind_eq_bind, Option.bind_some, hc, Option.bind_eq_bind,
      Option.bind_some, hd, Option.bind_eq_bind, Option.bind_some]
    simp only [ht₁, Option.bind_eq_bind, Option.bind_some]
    exact h

/-! ### One step -/

theorem getElem?_writeElements {type : FieldType} {ds : List Datum} {vs : List Value}
    (h : p.writeElements any type ds = some vs) {i : ℕ} {d : Datum} (hd : ds[i]? = some d) :
    ∃ v, p.writeDatum any type d = some v ∧ vs[i]? = some v := by
  induction ds generalizing vs i with
  | nil => simp at hd
  | cons d' ds ih =>
    rw [Pool.writeElements] at h
    obtain ⟨v, hv, h⟩ := Option.bind_eq_some_iff.mp h
    obtain ⟨vs', hvs', h⟩ := Option.bind_eq_some_iff.mp h
    obtain rfl := Option.some.inj h
    cases i with
    | zero =>
      obtain rfl := Option.some.inj hd
      exact ⟨v, hv, rfl⟩
    | succ i =>
      rw [List.getElem?_cons_succ] at hd ⊢
      exact ih hvs' hd

theorem get?_writeEntries {type : FieldType} {es : List (String × Datum)}
    {ms : List (String × Value)} (h : p.writeEntries any type es = some ms) {k : String}
    {d : Datum} (hd : Dictionary.get? k es = some d) :
    ∃ v, p.writeDatum any type d = some v ∧ Dictionary.get? k ms = some v := by
  induction es generalizing ms with
  | nil => simp at hd
  | cons e es ih =>
    obtain ⟨k', d'⟩ := e
    rw [Pool.writeEntries] at h
    obtain ⟨v, hv, h⟩ := Option.bind_eq_some_iff.mp h
    obtain ⟨ms', hms', h⟩ := Option.bind_eq_some_iff.mp h
    obtain rfl := Option.some.inj h
    rw [Dictionary.get?_cons] at hd ⊢
    split at hd
    · next hk =>
      obtain rfl := Option.some.inj hd
      exact ⟨v, hv, if_pos hk⟩
    · next hk =>
      rw [if_neg hk]
      exact ih hms' hd

/-- A step leads, in what is written for a content, to what is written for the value that it
leads to in the content. -/
theorem part?_of_datum? {f : Field} {c : Content} {v : Value}
    (hv : p.writeContent any f c = some v) {s : Step} {d : Datum} (hd : s.datum? c = some d) :
    ∃ w, p.writeDatum any f.type d = some w ∧ s.part? v = some w := by
  cases s with
  | field name =>
    cases c with
    | one d' =>
      obtain rfl := Option.some.inj hd
      rw [Pool.writeContent] at hv
      exact ⟨v, hv, rfl⟩
    | list ds | map es | unknown ps => cases hd
  | element name i =>
    cases c with
    | list ds =>
      rw [Pool.writeContent] at hv
      obtain ⟨vs, hvs, rfl⟩ := Option.map_eq_some_iff.mp hv
      exact getElem?_writeElements hvs hd
    | one d' | map es | unknown ps => cases hd
  | entry name k =>
    cases c with
    | map es =>
      rw [Pool.writeContent] at hv
      obtain ⟨ms, hms, rfl⟩ := Option.map_eq_some_iff.mp hv
      exact get?_writeEntries hms hd
    | one d' | list ds | unknown ps => cases hd

/-! ### Any number of steps -/

/-- Steps lead, in the object of a message, to the object of the message that they lead to
in the message. -/
theorem valueAt?_form (hp : p.Linked) {path : List Step} (ht : t.Linked p)
    (hm : OrderedWithin p t m) {ms : List (String × Value)}
    (hms : p.writeContents any t m = some ms)
    (hpath : messageAt? p t m path = some (t', m')) :
    ∃ ms', p.writeContents any t' m' = some ms' ∧
      valueAt? (.object (p.form t m ms)) path = some (.object (p.form t' m' ms')) := by
  induction path generalizing t m ms with
  | nil =>
    rw [messageAt?] at hpath
    obtain ⟨rfl, rfl⟩ := Prod.mk.inj (Option.some.inj hpath)
    exact ⟨ms, hms, rfl⟩
  | cons s path ih =>
    obtain ⟨f, c, m₁, t₁, hf, hc, hd, ht₁, hrest⟩ := messageAt?_cons.mp hpath
    have hname : f.name = s.name := by simpa using List.find?_some hf
    obtain ⟨v, hv, hfound⟩ := Pool.get?_form ht hm.ordered hms (List.mem_of_find?_eq_some hf) hc
    obtain ⟨w, hw, hpart⟩ := part?_of_datum? hv hd
    rw [Pool.writeDatum_object ht₁] at hw
    obtain ⟨ms₁, hms₁, rfl⟩ := Option.map_eq_some_iff.mp hw
    have hm₁ : OrderedWithin p t₁ m₁ := fun path' t₂ m₂ h =>
      hm (s :: path') t₂ m₂ (messageAt?_cons.mpr ⟨f, c, m₁, t₁, hf, hc, hd, ht₁, h⟩)
    have ht₁' : t₁.Linked p := Pool.linked_of_message? hp (Pool.message?_of_plainMessage? ht₁).1
    obtain ⟨ms', hms', hvalue⟩ := ih ht₁' hm₁ hms₁ hrest
    refine ⟨ms', hms', ?_⟩
    rw [valueAt?, Value.member?, ← hname, hfound, Option.bind_some, hpart, Option.bind_some]
    exact hvalue

/-- The type of a message that steps lead to is known and has no form of its own. -/
theorem message?_of_messageAt? {path : List Step} (ht : p.message? t.name = some t)
    (hspecial : Special.ofName? t.name = none)
    (hpath : messageAt? p t m path = some (t', m')) :
    p.message? t'.name = some t' ∧ Special.ofName? t'.name = none := by
  induction path generalizing t m with
  | nil =>
    obtain ⟨rfl, -⟩ := Prod.mk.inj (Option.some.inj hpath)
    exact ⟨ht, hspecial⟩
  | cons s path ih =>
    obtain ⟨f, c, m₁, t₁, -, -, -, ht₁, hrest⟩ := messageAt?_cons.mp hpath
    obtain ⟨hfound, hplain⟩ := Pool.message?_of_plainMessage? ht₁
    exact ih hfound hplain hrest

/-- A message of a type without a form of its own is written as its object. -/
theorem write?_form {name : String} (ht : p.message? name = some t)
    (hspecial : Special.ofName? t.name = none) {ms : List (String × Value)}
    (hms : p.writeContents p.writeOutermost t m = some ms) :
    p.write? t m = some (.object (p.form t m ms)) := by
  rw [write?_eq ht hspecial, hms, Option.map_some]

/-- The dictionary of such a message is its object with `null` filled in. -/
theorem exists_form {name : String} (ht : p.message? name = some t)
    (hspecial : Special.ofName? t.name = none) {o : Dictionary Value}
    (ho : responseMap p t m = .ok o) :
    ∃ ms, p.writeContents p.writeOutermost t m = some ms ∧
      Pool.fillNulls (Pool.standalone t) (p.form t m ms) = o := by
  cases hms : p.writeContents p.writeOutermost t m with
  | none =>
    rw [responseMap, Pool.writeFilled?, write?_eq ht hspecial, hms] at ho
    cases ho
  | some ms =>
    rw [responseMap_of_object (write?_form ht hspecial hms)] at ho
    exact ⟨ms, rfl, Except.ok.inj ho⟩

/-- What steps lead to in an object is there once `null` has been filled in. -/
theorem valueAt?_fillNulls {names : List String} {form : Dictionary Value} {s : Step}
    {path : List Step} {v : Value} (h : valueAt? (.object form) (s :: path) = some v) :
    valueAt? (.object (Pool.fillNulls names form)) (s :: path) = some v := by
  rw [valueAt?, Value.member?] at h ⊢
  obtain ⟨w, hw, hrest⟩ := Option.bind_eq_some_iff.mp h
  rw [Pool.get?_fillNulls, hw, Option.some_or, Option.bind_some]
  exact hrest

/-- `null` is filled in nowhere exactly if no name is left out. -/
theorem fillNulls_eq_iff {names : List String} {form : Dictionary Value} :
    Pool.fillNulls names form = form ↔ ∀ name ∈ names, Dictionary.contains name form = true := by
  refine ⟨fun h name hname => ?_, Pool.fillNulls_of_forall⟩
  rw [Dictionary.contains, ← h, Pool.get?_fillNulls, if_pos hname]
  cases Dictionary.get? name form <;> rfl

/-- **When a message inside a response has the dictionary that it has on its own.**  What
stands in the dictionary of a message for a message further inside is the object of the
inner one.  Its own dictionary adds `null` to that object for its unset fields alone, and
adds none exactly if the inner message holds each of its fields that is outside every oneof
and tells its default apart from no value. -/
theorem valueAt?_eq_iff {files : List FileDecl} (hp : Pool.link? files = some p)
    {name : String} (ht : p.message? name = some t)
    (hspecial : Special.ofName? t.name = none) (hm : OrderedWithin p t m)
    {o : Dictionary Value} (ho : responseMap p t m = .ok o) {s : Step} {path : List Step}
    (hpath : messageAt? p t m (s :: path) = some (t', m')) :
    ∃ form o', valueAt? (.object o) (s :: path) = some (.object form) ∧
      p.write? t' m' = some (.object form) ∧ responseMap p t' m' = .ok o' ∧
      Fills t' m' form o' ∧
      (form = o' ↔ ∀ f ∈ t'.fields, f.oneof = none → f.explicit = true →
        (m'.get? f.number).isSome = true) := by
  have hlinked := Pool.linked_of_link? hp
  have hname : t.name = name := by simpa using List.find?_some ht
  rw [← hname] at ht
  obtain ⟨ht', hspecial'⟩ := message?_of_messageAt? ht hspecial hpath
  obtain ⟨ms, hms, rfl⟩ := exists_form ht hspecial ho
  obtain ⟨ms', hms', hvalue⟩ :=
    valueAt?_form hlinked (Pool.linked_of_message? hlinked ht) hm hms hpath
  have hform := write?_form ht' hspecial' hms'
  have hfills := (fills_object_iff hlinked ht' hform).mpr (Or.inl hspecial')
  refine ⟨p.form t' m' ms', _, valueAt?_fillNulls hvalue, hform, responseMap_of_object hform,
    hfills, ?_⟩
  rw [eq_comm, fillNulls_eq_iff]
  have hcontains : ∀ f ∈ t'.fields,
      (Dictionary.contains f.name (p.form t' m' ms') = true ↔
        (f.explicit = true → (m'.get? f.number).isSome = true)) := by
    intro f hf
    rw [Pool.contains_form (Pool.linked_of_message? hlinked ht') hms' hf]
    cases f.explicit <;> simp
  constructor
  · intro h f hf hone
    exact (hcontains f hf).mp (h _ (Pool.mem_standalone.mpr ⟨f, hf, hone, rfl⟩))
  · intro h name hstands
    obtain ⟨f, hf, hone, rfl⟩ := Pool.mem_standalone.mp hstands
    exact (hcontains f hf).mpr (h f hf hone)

/-! ### The left of a tree -/

theorem orderedWithin_nil : OrderedWithin p t [] := by
  intro path t' m' h
  cases path with
  | nil =>
    obtain ⟨-, rfl⟩ := Prod.mk.inj (Option.some.inj h)
    exact List.Pairwise.nil
  | cons s path =>
    obtain ⟨f, c, m₁, t₁, -, hc, -⟩ := messageAt?_cons.mp h
    rw [Message.get?_nil] at hc
    cases hc

theorem orderedWithin_leftTree : OrderedWithin treePool treeType leftTree := by
  intro path t' m' h
  cases path with
  | nil =>
    obtain ⟨-, rfl⟩ := Prod.mk.inj (Option.some.inj h)
    simp [leftTree, Message.Ordered]
  | cons s path =>
    obtain ⟨f, c, m₁, t₁, -, hc, hd, -, hrest⟩ := messageAt?_cons.mp h
    have hmem := Message.mem_of_get? hc
    -- the label leads to no message, and what is on the left is empty
    rcases List.mem_cons.mp hmem with heq | hmem
    · rw [(Prod.mk.inj heq).2] at hd
      cases s <;> simp [Step.datum?] at hd
    · rw [(Prod.mk.inj (List.mem_singleton.mp hmem)).2] at hd
      cases s with
      | field name =>
        obtain rfl : [] = m₁ := Datum.message.inj (Option.some.inj hd)
        exact orderedWithin_nil path t' m' hrest
      | element name i => cases hd
      | entry name k => cases hd

/-- The dictionary of a tree without label and branches. -/
def bareTree : Dictionary Value := [("label", .string ""), ("left", .null), ("right", .null)]

/-- What stands on the left of the tree is not the dictionary of what is on its left, which
has `null` on both sides. -/
theorem valueAt?_eq_iff_left :
    Pool.link? [treeFile] = some treePool ∧ treePool.message? "Tree" = some treeType ∧
      Special.ofName? treeType.name = none ∧ OrderedWithin treePool treeType leftTree ∧
      responseMap treePool treeType leftTree = .ok (leftForm ++ [("right", .null)]) ∧
      messageAt? treePool treeType leftTree [.field "left"] = some (treeType, []) ∧
      ∃ form o', valueAt? (.object (leftForm ++ [("right", .null)])) [.field "left"]
          = some (.object form) ∧
        responseMap treePool treeType [] = .ok o' ∧ form ≠ o' := by
  have hfound : treePool.message? "Tree" = some treeType := rfl
  have hspecial : Special.ofName? treeType.name = none := by decide
  have hmap : responseMap treePool treeType leftTree = .ok (leftForm ++ [("right", .null)]) := rfl
  have hleft : messageAt? treePool treeType leftTree [.field "left"] = some (treeType, []) := rfl
  obtain ⟨form, o', hvalue, -, hown, -, heq⟩ :=
    valueAt?_eq_iff link_tree hfound hspecial orderedWithin_leftTree hmap hleft
  refine ⟨link_tree, hfound, hspecial, orderedWithin_leftTree, hmap, hleft, form, o', hvalue,
    hown, fun h => ?_⟩
  have hheld := heq.mp h ⟨"left", "left", 2, .message "Tree", .single, none, true, false,
    .message []⟩ (by simp [treeType]) rfl rfl
  cases hheld

/-- Rendering is not uniform: the object on the left has a label alone. -/
theorem valueAt?_left_ne :
    responseMap treePool treeType leftTree = .ok (leftForm ++ [("right", .null)]) ∧
      messageAt? treePool treeType leftTree [.field "left"] = some (treeType, []) ∧
      responseMap treePool treeType [] = .ok bareTree ∧
      valueAt? (.object (leftForm ++ [("right", .null)])) [.field "left"]
        = some (.object [("label", .string "")]) ∧
      Value.object [("label", .string "")] ≠ .object bareTree := by
  refine ⟨rfl, rfl, rfl, rfl, fun h => ?_⟩
  have hlength := congrArg List.length (Value.object.inj h)
  simp [bareTree] at hlength

end Switchboard.Grpc
