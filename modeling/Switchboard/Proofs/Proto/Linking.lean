import Mathlib.Data.List.Nodup
import Switchboard.Proto.Linking

/-!
# What linking guarantees

A pool that links knows every enum that a field refers to, and gives no two fields
of a message type one number or one name.  No full name is declared twice, so no
two fields of a type and no two values of an enum share a name; and every default
is a value of its field.

## Main definitions

* `Scalar.Admits` — the values of a scalar kind.
* `Field.Linked`, `MessageType.Linked`, `Pool.Linked` — the guarantees.

## Main result

* `Pool.linked_of_link?` — a pool that links has them.
-/

namespace Switchboard.Proto

open List (Sublist)

/-! ### Values of a type -/

/-- The values of a scalar kind: integers within its bounds, and any truth value, text,
byte string or number with a point. -/
def Scalar.Admits (k : Scalar) (d : Datum) : Prop :=
  match k, d with
  | .bool, .bool _ | .string, .string _ | .bytes, .bytes _ => True
  | .double, .double _ | .float, .single _ => True
  | k, .int i =>
    match k.bounds? with
    | some (low, high) => low ≤ i ∧ i ≤ high
    | none => False
  | _, _ => False

theorem Scalar.admits_int {k : Scalar} {i low high : Int} (hk : k.bounds? = some (low, high))
    (hlow : low ≤ i) (hhigh : i ≤ high) : k.Admits (.int i) := by
  cases k <;> simp_all [Scalar.Admits, Scalar.bounds?]

theorem Scalar.admits_zero (k : Scalar) : k.Admits k.zero := by
  cases k <;> simp [Scalar.Admits, Scalar.zero, Scalar.bounds?]

theorem bounds_of_integerOf? {low high i : Int} {s : String}
    (h : integerOf? low high s = some i) : low ≤ i ∧ i ≤ high := by
  unfold integerOf? at h
  split at h
  · split at h
    · next hi =>
      rw [Option.some.injEq] at h
      exact ⟨h ▸ hi.1, h ▸ hi.2.1⟩
    · simp at h
  · simp at h

theorem Scalar.admits_of_integer {k : Scalar} {s : String} {d : Datum}
    (h : (k.bounds?.bind fun (low, high) => (integerOf? low high s).map Datum.int) = some d) :
    k.Admits d := by
  obtain ⟨⟨low, high⟩, hk, hd⟩ := Option.bind_eq_some_iff.mp h
  obtain ⟨i, hi, rfl⟩ := Option.map_eq_some_iff.mp hd
  obtain ⟨hlow, hhigh⟩ := bounds_of_integerOf? hi
  exact admits_int hk hlow hhigh

/-- A declared default is a value of its kind. -/
theorem Scalar.admits_of_ofDefault? {k : Scalar} {s : String} {d : Datum}
    (h : k.ofDefault? s = some d) : k.Admits d := by
  cases k with
  | double | float | bytes =>
    simp only [Scalar.ofDefault?] at h
    obtain ⟨x, -, rfl⟩ := Option.map_eq_some_iff.mp h
    trivial
  | string =>
    obtain rfl : Datum.string s = d := Option.some.inj h
    trivial
  | bool =>
    simp only [Scalar.ofDefault?] at h
    split at h
    · obtain rfl := Option.some.inj h
      trivial
    · split at h
      · obtain rfl := Option.some.inj h
        trivial
      · simp at h
  | _ => exact admits_of_integer h

/-- The values of an enum that it gives a name. -/
def EnumType.Names (e : EnumType) (d : Datum) : Prop :=
  ∃ s i, (s, i) ∈ e.values ∧ d = .int i

/-! ### The guarantees -/

/-- The guarantees for a field. -/
structure Field.Linked (p : Pool) (f : Field) : Prop where
  /-- A field of a oneof tells its default apart from no value. -/
  explicit_of_oneof : ∀ i, f.oneof = some i → f.explicit = true
  /-- So does a message. -/
  explicit_of_message : f.shape = .single → Linking.isMessage f.type = true → f.explicit = true
  /-- The default of a scalar is one of its values. -/
  default_scalar : ∀ k, f.shape = .single → f.type = .scalar k → k.Admits f.default
  /-- An enum is known, has no two values of one name, and the default is one of its
  values. -/
  enum : ∀ name, f.type = .enumeration name → ∃ e, p.enum? name = some e
    ∧ (e.values.map Prod.fst).Nodup ∧ (f.shape = .single → e.Names f.default)

/-- The guarantees for a message type. -/
structure MessageType.Linked (p : Pool) (t : MessageType) : Prop where
  numbers : (t.fields.map Field.number).Nodup
  names : (t.fields.map Field.name).Nodup
  fields : ∀ f ∈ t.fields, f.Linked p

/-- The guarantees for a pool. -/
def Pool.Linked (p : Pool) : Prop := ∀ t ∈ p.messages, t.Linked p

theorem Pool.linked_of_message? {p : Pool} {t : MessageType} (hp : p.Linked) {name : String}
    (ht : p.message? name = some t) : t.Linked p := hp t (List.mem_of_find?_eq_some ht)

/-! ### Distinct names -/

/-- Of two entries with one name both stand for packages. -/
theorem pairwise_of_distinctNames {ss : List Symbol.Entry} (h : distinctNames ss = true) :
    ss.Pairwise fun s t => s.name ≠ t.name ∨ (s.symbol = .package ∧ t.symbol = .package) := by
  induction ss with
  | nil => exact List.Pairwise.nil
  | cons s rest ih =>
    rw [distinctNames, Bool.and_eq_true, List.all_eq_true] at h
    refine List.pairwise_cons.mpr ⟨fun t ht => ?_, ih h.2⟩
    simpa using h.1 t ht

/-- The entries of the members of one scope. -/
def memberEntries (file scope : String) (names : List String) : List Symbol.Entry :=
  names.map fun n => ⟨qualify scope n, .member, file⟩

/-- Members of one scope that are declared beside each other have distinct names. -/
theorem nodup_of_distinctNames {ss : List Symbol.Entry} {file scope : String}
    {names : List String} (h : distinctNames ss = true)
    (hsub : Sublist (memberEntries file scope names) ss) : names.Nodup := by
  have hpair := (pairwise_of_distinctNames h).sublist hsub
  rw [memberEntries, List.pairwise_map] at hpair
  refine hpair.imp fun {a b} hab heq => ?_
  rcases hab with hne | ⟨hpackage, -⟩
  · exact hne (congrArg (qualify scope) heq)
  · simp at hpackage

mutual

/-- The names of the fields of a declared type stand among the names it declares. -/
theorem MessageDecl.fields_sublist (scope : String) :
    (d : MessageDecl) → ∀ e ∈ d.all scope,
      Sublist (e.2.fields.map fun f => (qualify e.1 f.name, Symbol.member)) (d.symbols scope)
  | .mk name fields messages enums oneofs mapEntry => by
    intro e he
    rw [MessageDecl.all, List.mem_cons] at he
    rw [MessageDecl.symbols]
    rcases he with rfl | he
    · refine Sublist.trans ?_ (List.sublist_append_left ..)
      refine Sublist.trans ?_ (List.sublist_append_left ..)
      refine Sublist.trans ?_ (List.sublist_append_left ..)
      exact List.sublist_cons_self ..
    · refine Sublist.trans ?_ (List.sublist_append_left ..)
      exact Sublist.trans (fields_sublist_all _ messages e he) (List.sublist_append_right ..)

theorem fields_sublist_all (scope : String) :
    (ds : List MessageDecl) → ∀ e ∈ allMessages scope ds,
      Sublist (e.2.fields.map fun f => (qualify e.1 f.name, Symbol.member))
        (messageSymbols scope ds)
  | [] => fun e he => by simp [allMessages] at he
  | d :: ds => fun e he => by
    rw [allMessages, List.mem_append] at he
    rw [messageSymbols]
    rcases he with he | he
    · exact (d.fields_sublist scope e he).trans (List.sublist_append_left ..)
    · exact (fields_sublist_all scope ds e he).trans (List.sublist_append_right ..)

end

theorem sublist_flatMap {α β : Type} {xs : List α} {x : α} (hx : x ∈ xs) (g : α → List β) :
    Sublist (g x) (xs.flatMap g) := by
  rw [List.flatMap_def]
  exact List.sublist_flatten_of_mem (List.mem_map_of_mem hx)

mutual

/-- The names that an enum within a declared type declares stand among the names of
that type. -/
theorem MessageDecl.enums_sublist (scope : String) :
    (d : MessageDecl) → ∀ e ∈ d.allEnums scope,
      ∃ place, Sublist (e.2.symbols place) (d.symbols scope)
  | .mk name fields messages enums oneofs mapEntry => by
    intro e he
    rw [MessageDecl.allEnums, List.mem_append, List.mem_map] at he
    rw [MessageDecl.symbols]
    rcases he with ⟨d, hd, rfl⟩ | he
    · exact ⟨_, (sublist_flatMap hd _).trans (List.sublist_append_right ..)⟩
    · obtain ⟨place, hsub⟩ := enums_sublist_all _ messages e he
      refine ⟨place, Sublist.trans ?_ (List.sublist_append_left ..)⟩
      exact hsub.trans (List.sublist_append_right ..)

theorem enums_sublist_all (scope : String) :
    (ds : List MessageDecl) → ∀ e ∈ allEnums scope ds,
      ∃ place, Sublist (e.2.symbols place) (messageSymbols scope ds)
  | [] => fun e he => by simp [allEnums] at he
  | d :: ds => fun e he => by
    rw [allEnums, List.mem_append] at he
    rw [messageSymbols]
    rcases he with he | he
    · obtain ⟨place, hsub⟩ := d.enums_sublist scope e he
      exact ⟨place, hsub.trans (List.sublist_append_left ..)⟩
    · obtain ⟨place, hsub⟩ := enums_sublist_all scope ds e he
      exact ⟨place, hsub.trans (List.sublist_append_right ..)⟩

end

/-- The names that a file declares for types of messages, enums and their members. -/
def FileDecl.typeSymbols (f : FileDecl) : List (String × Symbol) :=
  messageSymbols f.package f.messages ++ f.enums.flatMap (EnumDecl.symbols f.package)

/-- Members that a file declares beside each other have distinct names. -/
theorem FileDecl.nodup_members {files : List FileDecl} {f : FileDecl} {scope : String}
    {names : List String} (h : distinctNames (files.flatMap FileDecl.symbols) = true)
    (hf : f ∈ files)
    (hsub : Sublist (names.map fun n => (qualify scope n, Symbol.member)) f.typeSymbols) :
    names.Nodup := by
  have hfile : Sublist (memberEntries f.name scope names) f.symbols := by
    have hmap := hsub.map fun s => (⟨s.1, s.2, f.name⟩ : Symbol.Entry)
    rw [List.map_map] at hmap
    refine hmap.trans (Sublist.map _ ?_)
    refine Sublist.trans ?_ (List.sublist_append_left ..)
    rw [List.append_assoc]
    exact List.sublist_append_right ..
  exact nodup_of_distinctNames h (hfile.trans (sublist_flatMap hf _))

/-- The fields of a type of a file have distinct names. -/
theorem FileDecl.nodup_fields {files : List FileDecl} {f : FileDecl}
    (h : distinctNames (files.flatMap FileDecl.symbols) = true) (hf : f ∈ files)
    {e : String × MessageDecl} (he : e ∈ f.types) :
    (e.2.fields.map FieldDecl.name).Nodup := by
  have hsub : Sublist ((e.2.fields.map FieldDecl.name).map fun n =>
      (qualify e.1 n, Symbol.member)) f.typeSymbols := by
    rw [List.map_map]
    exact (fields_sublist_all _ _ e he).trans (List.sublist_append_left ..)
  exact nodup_members h hf hsub

/-- The values of an enum of a file have distinct names. -/
theorem FileDecl.nodup_values {files : List FileDecl} {f : FileDecl}
    (h : distinctNames (files.flatMap FileDecl.symbols) = true) (hf : f ∈ files)
    {e : String × EnumDecl} (he : e ∈ f.enumTypes) : (e.2.values.map Prod.fst).Nodup := by
  have hplace : ∃ place, Sublist (e.2.symbols place) f.typeSymbols := by
    rw [FileDecl.enumTypes, List.mem_append, List.mem_map] at he
    rcases he with ⟨d, hd, rfl⟩ | he
    · exact ⟨f.package, (sublist_flatMap hd _).trans (List.sublist_append_right ..)⟩
    · obtain ⟨place, hsub⟩ := enums_sublist_all f.package f.messages e he
      exact ⟨place, hsub.trans (List.sublist_append_left ..)⟩
  obtain ⟨place, hsub⟩ := hplace
  have hvalues : Sublist ((e.2.values.map Prod.fst).map fun n =>
      (qualify place n, Symbol.member)) f.typeSymbols := by
    rw [List.map_map]
    exact (List.sublist_cons_self ..).trans hsub
  exact nodup_members h hf hvalues

/-! ### Fields and message types -/

theorem mem_of_mapM {α β : Type} {g : α → Option β} {xs : List α} {ys : List β}
    (h : xs.mapM g = some ys) : ∀ y ∈ ys, ∃ x ∈ xs, g x = some y := by
  induction xs generalizing ys with
  | nil =>
    obtain rfl : [] = ys := by simpa using h
    simp
  | cons x xs ih =>
    rw [List.mapM_cons] at h
    obtain ⟨y, hy, h⟩ := Option.bind_eq_some_iff.mp h
    obtain ⟨ys', hys, h⟩ := Option.bind_eq_some_iff.mp h
    obtain rfl := Option.some.inj h
    refine List.forall_mem_cons.mpr ⟨⟨x, List.mem_cons_self, hy⟩, fun z hz => ?_⟩
    obtain ⟨x', hx', hz⟩ := ih hys z hz
    exact ⟨x', List.mem_cons_of_mem _ hx', hz⟩

theorem map_of_mapM {α β γ : Type} {g : α → Option β} {a : α → γ} {b : β → γ}
    (hab : ∀ x y, g x = some y → b y = a x) {xs : List α} {ys : List β}
    (h : xs.mapM g = some ys) : ys.map b = xs.map a := by
  induction xs generalizing ys with
  | nil =>
    obtain rfl : [] = ys := by simpa using h
    rfl
  | cons x xs ih =>
    rw [List.mapM_cons] at h
    obtain ⟨y, hy, h⟩ := Option.bind_eq_some_iff.mp h
    obtain ⟨ys', hys, h⟩ := Option.bind_eq_some_iff.mp h
    obtain rfl := Option.some.inj h
    rw [List.map_cons, List.map_cons, hab x y hy, ih hys]

/-- An enum of the pool under the name by which its declaration is found. -/
theorem enum?_of_lookup {enums : List (String × EnumDecl)} {p : Pool}
    (hp : p.enums = enums.map fun e => ⟨e.1, e.2.values⟩) {name : String} {e : EnumDecl}
    (h : enums.lookup name = some e) : p.enum? name = some ⟨name, e.values⟩ := by
  rw [Pool.enum?, hp]
  clear hp
  induction enums with
  | nil => simp at h
  | cons e' enums ih =>
    obtain ⟨name', d⟩ := e'
    rw [List.lookup_cons] at h
    rw [List.map_cons, List.find?_cons]
    by_cases hname : name = name'
    · subst hname
      obtain rfl : d = e := by simpa using h
      simp
    · have hbeq : (name == name') = false := by simpa using hname
      rw [hbeq] at h
      have hdec : decide (name' = name) = false := by simpa using fun h' => hname h'.symm
      rw [hdec]
      exact ih h

theorem mem_of_lookup {α : Type} {xs : List (String × α)} {name : String} {x : α}
    (h : xs.lookup name = some x) : (name, x) ∈ xs := by
  induction xs with
  | nil => simp at h
  | cons e xs ih =>
    obtain ⟨name', x'⟩ := e
    rw [List.lookup_cons] at h
    split at h
    · next hname =>
      rw [beq_iff_eq.mp hname, Option.some.inj h]
      exact List.mem_cons_self
    · exact List.mem_cons_of_mem _ (ih h)

/-- What a field has from its declaration.  Whatever its shape, its default is one that
its type has. -/
theorem Linking.field?_cases {l : Linking} {place : String} {d : FieldDecl} {f : Field}
    (h : l.field? place d = some f) :
    f.name = d.name ∧ f.number = d.number.toNat
      ∧ (∀ i, f.oneof = some i → f.explicit = true)
      ∧ (f.shape = .single → isMessage f.type = true → f.explicit = true)
      ∧ ∃ declared, defaultOf? l.enums f.type declared = some f.default := by
  unfold Linking.field? at h
  obtain ⟨type, -, h⟩ := Option.bind_eq_some_iff.mp h
  obtain ⟨default, hdefault, h⟩ := Option.bind_eq_some_iff.mp h
  have honeof : ∀ i, d.oneof.map Int.toNat = some i → (d.marked || d.oneof.isSome) = true := by
    intro i hi
    obtain ⟨j, hj, -⟩ := Option.map_eq_some_iff.mp hi
    simp [hj]
  split at h
  · split at h
    · obtain ⟨default', hdefault', h⟩ := Option.bind_eq_some_iff.mp h
      obtain rfl := Option.some.inj h
      exact ⟨rfl, rfl, honeof, nofun, _, hdefault'⟩
    · obtain rfl := Option.some.inj h
      exact ⟨rfl, rfl, honeof, nofun, _, hdefault⟩
  · obtain rfl := Option.some.inj h
    refine ⟨rfl, rfl, fun i hi => ?_, fun _ hmessage => ?_, _, hdefault⟩
    · simp [honeof i hi]
    · simp only at hmessage
      simp [hmessage]

/-- The enums by which defaults are found: each has a value, and no two of one name. -/
def Nameable (enums : List (String × EnumDecl)) : Prop :=
  ∀ e ∈ enums, e.2.values ≠ [] ∧ (e.2.values.map Prod.fst).Nodup

theorem names_first {e : EnumType} (h : e.values ≠ []) : e.Names (.int e.first) := by
  cases hv : e.values with
  | nil => exact absurd hv h
  | cons v vs => exact ⟨v.1, v.2, by simp [hv], by simp [EnumType.first, hv]⟩

theorem names_of_number? {e : EnumType} {s : String} {i : Int} (h : e.number? s = some i) :
    e.Names (.int i) := by
  obtain ⟨v, hv, rfl⟩ := Option.map_eq_some_iff.mp h
  exact ⟨v.1, v.2, List.mem_of_find?_eq_some hv, rfl⟩

/-- A field that links has the guarantees, in a pool with the enums it was linked
with. -/
theorem Linking.linked_of_field? {l : Linking} {p : Pool} (hl : Nameable l.enums)
    (hp : p.enums = l.enums.map fun e => ⟨e.1, e.2.values⟩) {place : String} {d : FieldDecl}
    {f : Field} (h : l.field? place d = some f) : f.Linked p := by
  obtain ⟨-, -, honeof, hmessage, declared, hdefault⟩ := field?_cases h
  refine ⟨honeof, hmessage, fun k _ hk => ?_, fun name hname => ?_⟩
  · rw [hk] at hdefault
    cases declared with
    | none =>
      rw [← Option.some.inj hdefault]
      exact k.admits_zero
    | some s => exact Scalar.admits_of_ofDefault? hdefault
  · rw [hname] at hdefault
    obtain ⟨e, he, hdefault⟩ := Option.bind_eq_some_iff.mp hdefault
    obtain ⟨hvalues, hnodup⟩ := hl _ (mem_of_lookup he)
    refine ⟨_, enum?_of_lookup hp he, hnodup, fun _ => ?_⟩
    cases declared with
    | none =>
      rw [← Option.some.inj hdefault]
      exact names_first hvalues
    | some s =>
      obtain ⟨i, hi, hdefault⟩ := Option.map_eq_some_iff.mp hdefault
      rw [← hdefault]
      exact names_of_number? hi

/-- A message type that links has the guarantees, if its fields are declared with
distinct names. -/
theorem Linking.linked_of_message? {l : Linking} {p : Pool} (hl : Nameable l.enums)
    (hp : p.enums = l.enums.map fun e => ⟨e.1, e.2.values⟩) {full : String} {d : MessageDecl}
    {t : MessageType} (hnames : (d.fields.map FieldDecl.name).Nodup)
    (h : l.message? full d = some t) : t.Linked p := by
  unfold Linking.message? at h
  split at h
  · next hwell =>
    obtain ⟨fields, hfields, rfl⟩ := Option.map_eq_some_iff.mp h
    unfold MessageDecl.wellFormed at hwell
    simp only [Bool.and_eq_true, List.all_eq_true, decide_eq_true_eq] at hwell
    obtain ⟨⟨hrange, hnumbers⟩, -⟩ := hwell
    refine ⟨?_, ?_, fun f hf => ?_⟩
    · have hmap := map_of_mapM (a := fun d => d.number.toNat) (b := Field.number)
        (fun _ _ hf => (field?_cases hf).2.1) hfields
      have hcomp : (fun d : FieldDecl => d.number.toNat) = Int.toNat ∘ FieldDecl.number := rfl
      rw [hmap, hcomp, ← List.map_map]
      -- Numbers are positive, so they stay distinct as natural numbers.
      refine List.Nodup.map_on (fun i hi j hj hij => ?_) hnumbers
      obtain ⟨d, hd, rfl⟩ := List.mem_map.mp hi
      obtain ⟨d', hd', rfl⟩ := List.mem_map.mp hj
      have hpos := (hrange d hd).1.1
      have hpos' := (hrange d' hd').1.1
      omega
    · rw [map_of_mapM (fun _ _ hf => (field?_cases hf).1) hfields]
      exact hnames
    · obtain ⟨d, -, hd⟩ := mem_of_mapM hfields f hf
      exact linked_of_field? hl hp hd
  · simp at h

/-! ### Pools -/

/-- What one file adds to a pool. -/
theorem Pool.addFile?_cases {files : List FileDecl} {symbols : List Symbol.Entry}
    {types : List (String × MessageDecl)} {enums : List (String × EnumDecl)} {p p' : Pool}
    {f : FileDecl} (h : addFile? files symbols types enums p f = some p') :
    p'.enums = p.enums ++ f.enumTypes.map (fun e => ⟨e.1, e.2.values⟩)
      ∧ (∀ t ∈ p'.messages, t ∈ p.messages
          ∨ ∃ l : Linking, l.enums = enums ∧ ∃ e ∈ f.types, l.message? e.1 e.2 = some t)
      ∧ ∀ e ∈ f.enumTypes, e.2.values ≠ [] := by
  unfold addFile? at h
  obtain ⟨older, -, h⟩ := Option.bind_eq_some_iff.mp h
  obtain ⟨messages, hmessages, h⟩ := Option.bind_eq_some_iff.mp h
  obtain ⟨services, -, h⟩ := Option.bind_eq_some_iff.mp h
  split at h
  · next hwell =>
    obtain rfl := Option.some.inj h
    refine ⟨rfl, fun t ht => ?_, fun e he hvalues => ?_⟩
    · rcases List.mem_append.mp ht with ht | ht
      · exact Or.inl ht
      · obtain ⟨e, he, hlink⟩ := mem_of_mapM hmessages t ht
        exact Or.inr ⟨_, rfl, e, he, hlink⟩
    · have := List.all_eq_true.mp hwell e he
      simp [EnumDecl.wellFormed, hvalues] at this
  · simp at h

/-- What a run over files adds to a pool. -/
theorem Pool.foldlM_addFile?_cases {files : List FileDecl} {symbols : List Symbol.Entry}
    {types : List (String × MessageDecl)} {enums : List (String × EnumDecl)}
    {fs : List FileDecl} {p p' : Pool}
    (h : fs.foldlM (addFile? files symbols types enums) p = some p') :
    p'.enums = p.enums ++ (fs.flatMap FileDecl.enumTypes).map (fun e => ⟨e.1, e.2.values⟩)
      ∧ (∀ t ∈ p'.messages, t ∈ p.messages ∨ ∃ f ∈ fs, ∃ l : Linking, l.enums = enums
          ∧ ∃ e ∈ f.types, l.message? e.1 e.2 = some t)
      ∧ ∀ f ∈ fs, ∀ e ∈ f.enumTypes, e.2.values ≠ [] := by
  induction fs generalizing p with
  | nil =>
    obtain rfl : p = p' := Option.some.inj h
    exact ⟨by simp, fun t ht => Or.inl ht, nofun⟩
  | cons f fs ih =>
    rw [List.foldlM_cons] at h
    obtain ⟨p₁, hfirst, hrest⟩ := Option.bind_eq_some_iff.mp h
    obtain ⟨henums, hmessages, hvalues⟩ := addFile?_cases hfirst
    obtain ⟨henums', hmessages', hvalues'⟩ := ih hrest
    refine ⟨?_, fun t ht => ?_, List.forall_mem_cons.mpr ⟨hvalues, hvalues'⟩⟩
    · rw [henums', henums, List.flatMap_cons, List.map_append, List.append_assoc]
    · rcases hmessages' t ht with ht | ⟨f', hf', hlink⟩
      · rcases hmessages t ht with ht | hlink
        · exact Or.inl ht
        · exact Or.inr ⟨f, List.mem_cons_self, hlink⟩
      · exact Or.inr ⟨f', List.mem_cons_of_mem _ hf', hlink⟩

/-- A file that depends on nothing is loaded alone. -/
theorem FileDecl.arrange_singleton {f : FileDecl} (h : f.dependencies = []) :
    arrange [f] = [f] := by
  have hfind : Dictionary.get? f.name [(f.name, f)] = some f := by
    rw [Dictionary.get?_cons, if_pos rfl]
  have hwork : arrange [f] = loadOrder [(f.name, f)] [] [.enter f.name] := rfl
  rw [hwork, loadOrder, dif_neg List.not_mem_nil]
  split
  · next hnone =>
    rw [hfind] at hnone
    simp at hnone
  · next g hg =>
    rw [hfind] at hg
    obtain rfl := Option.some.inj hg
    rw [h, List.map_nil, List.nil_append, loadOrder, loadOrder]

/-- A pool that links has the guarantees. -/
theorem Pool.linked_of_link? {files : List FileDecl} {p : Pool} (h : link? files = some p) :
    p.Linked := by
  simp only [link?, ofArranged?] at h
  split at h
  · next hnames =>
    obtain ⟨henums, hmessages, hvalues⟩ := foldlM_addFile?_cases h
    have hl : Nameable ((FileDecl.arrange files).flatMap FileDecl.enumTypes) := by
      intro e he
      obtain ⟨f, hf, hef⟩ := List.mem_flatMap.mp he
      exact ⟨hvalues f hf e hef, FileDecl.nodup_values hnames.1 hf hef⟩
    intro t ht
    rcases hmessages t ht with ht | ⟨f, hf, l, hlinking, e, he, hlink⟩
    · simp at ht
    · rw [← hlinking] at hl henums
      exact Linking.linked_of_message? hl henums (FileDecl.nodup_fields hnames.1 hf he) hlink
  · simp at h

end Switchboard.Proto
