import Switchboard.Proto.Declaration
import Switchboard.Text.Ascii

/-!
# From declarations to types

Declared files become a pool of types when their names are distinct, every name
they refer to is declared in a file they can see, and every declaration keeps the
rules of its kind.

## Main definitions

* `Symbol`, `FileDecl.symbols` — the full names that a file declares.
* `Scope.resolve?` — what a name means where it stands.
* `MessageDecl.wellFormed`, `EnumDecl.wellFormed` — the rules of a declaration.
* `Pool.link?` — the pool of a list of files.
-/

namespace Switchboard.Proto

open Text.Ascii

/-! ### Full names -/

/-- The full name of what is declared as `name` within `scope`. -/
def qualify (scope name : String) : String :=
  if scope = "" then name else scope ++ "." ++ name

/-- The parts of a name between its points. -/
def nameParts (name : String) : List String :=
  if name = "" then [] else (name.toList.splitOn '.').map String.ofList

/-- The name of a list of parts. -/
def joinParts (parts : List String) : String := ".".intercalate parts

/-- The scopes around a place, the innermost first. -/
def enclosing (scope : String) : List String :=
  let parts := nameParts scope
  (List.range (parts.length + 1)).reverse.map fun n => joinParts (parts.take n)

/-- What a full name stands for. -/
inductive Symbol where
  /-- A package, or the front of one. -/
  | package
  /-- A message type. -/
  | message
  /-- An enum. -/
  | enumeration
  /-- A service. -/
  | service
  /-- A field, a oneof, an enum value or a method. -/
  | member
  deriving DecidableEq, Repr, Inhabited

/-- A full name, what it stands for, and the file that declares it. -/
structure Symbol.Entry where
  /-- The full name. -/
  name : String
  /-- What it stands for. -/
  symbol : Symbol
  /-- The name of the file. -/
  file : String
  deriving DecidableEq, Repr, Inhabited

/-- The full names that an enum declares; its values stand beside it. -/
def EnumDecl.symbols (scope : String) (e : EnumDecl) : List (String × Symbol) :=
  (qualify scope e.name, .enumeration)
    :: e.values.map fun v => (qualify scope v.1, .member)

/-- The full names that a service declares. -/
def ServiceDecl.symbols (scope : String) (s : ServiceDecl) : List (String × Symbol) :=
  let full := qualify scope s.name
  (full, .service) :: s.methods.map fun m => (qualify full m.name, .member)

mutual

/-- The full names that a message type declares. -/
def MessageDecl.symbols (scope : String) : MessageDecl → List (String × Symbol)
  | .mk name fields messages enums oneofs _ =>
    let full := qualify scope name
    (full, .message)
      :: fields.map (fun f => (qualify full f.name, .member))
      ++ oneofs.map (fun o => (qualify full o, .member))
      ++ messageSymbols full messages
      ++ enums.flatMap (EnumDecl.symbols full)

/-- The full names that a list of message types declares. -/
def messageSymbols (scope : String) : List MessageDecl → List (String × Symbol)
  | [] => []
  | m :: ms => m.symbols scope ++ messageSymbols scope ms

end

mutual

/-- A message type and the types declared within it, with their full names. -/
def MessageDecl.all (scope : String) : MessageDecl → List (String × MessageDecl)
  | .mk name fields messages enums oneofs mapEntry =>
    let full := qualify scope name
    (full, .mk name fields messages enums oneofs mapEntry) :: allMessages full messages

/-- The message types of a list and the types declared within them, with their
full names. -/
def allMessages (scope : String) : List MessageDecl → List (String × MessageDecl)
  | [] => []
  | m :: ms => m.all scope ++ allMessages scope ms

end

mutual

/-- The enums declared within a message type, with their full names. -/
def MessageDecl.allEnums (scope : String) : MessageDecl → List (String × EnumDecl)
  | .mk name _ messages enums _ _ =>
    let full := qualify scope name
    enums.map (fun e => (qualify full e.name, e)) ++ allEnums full messages

/-- The enums declared within a list of message types, with their full names. -/
def allEnums (scope : String) : List MessageDecl → List (String × EnumDecl)
  | [] => []
  | m :: ms => m.allEnums scope ++ allEnums scope ms

end

namespace FileDecl

/-- The message types of a file, with their full names. -/
def types (f : FileDecl) : List (String × MessageDecl) := allMessages f.package f.messages

/-- The enums of a file, with their full names. -/
def enumTypes (f : FileDecl) : List (String × EnumDecl) :=
  f.enums.map (fun e => (qualify f.package e.name, e)) ++ allEnums f.package f.messages

/-- The full names that a file declares. -/
def symbols (f : FileDecl) : List Symbol.Entry :=
  let package := ((enclosing f.package).filter (· ≠ "")).map fun n => (n, Symbol.package)
  (package ++ messageSymbols f.package f.messages
    ++ f.enums.flatMap (EnumDecl.symbols f.package)
    ++ f.services.flatMap (ServiceDecl.symbols f.package)).map
      fun s => ⟨s.1, s.2, f.name⟩

/-! ### What a file can see -/

/-- The dependencies that a file passes on to its dependents. -/
def passed (f : FileDecl) : List String :=
  f.passedOn.filterMap fun i => if i < 0 then none else f.dependencies[i.toNat]?

/-- The files that are reached from the given names over dependencies that are
passed on; `rounds` bounds the number of steps. -/
def reached (files : List FileDecl) : (rounds : Nat) → List String → List String
  | 0, names => names
  | rounds + 1, names =>
    let more := (files.filter (·.name ∈ names)).flatMap passed
    reached files rounds (names ++ more.filter (· ∉ names)).eraseDups

/-- The files whose names a file may refer to: itself, its dependencies, and what
these pass on. -/
def visible (files : List FileDecl) (f : FileDecl) : List String :=
  f.name :: reached files files.length f.dependencies

end FileDecl

/-- No full name is declared twice, packages apart, and none is both a package
and something else. -/
def distinctNames : List Symbol.Entry → Bool
  | [] => true
  | s :: rest =>
    (rest.all fun t => s.name ≠ t.name || (s.symbol = .package && t.symbol = .package))
      && distinctNames rest

/-! ### What a name means -/

/-- The names that can be seen from a file. -/
structure Scope where
  /-- All full names that some loaded file declares and that can be seen. -/
  symbols : List Symbol.Entry

namespace Scope

/-- What a full name stands for. -/
def find? (s : Scope) (full : String) : Option Symbol :=
  (s.symbols.find? (·.name = full)).map Symbol.Entry.symbol

/-- A full name of an enum or a message type. -/
def type? (s : Scope) (full : String) : Option (String × Symbol) :=
  match s.find? full with
  | some .message => some (full, .message)
  | some .enumeration => some (full, .enumeration)
  | _ => none

/-- Whether a full name stands for something that names can be declared in. -/
def isOuter (s : Scope) (full : String) : Bool :=
  match s.find? full with
  | some .package | some .message | some .enumeration | some .service => true
  | _ => false

/-- The enum or message type that a name means within `place`.  A name that
starts with a point is a full name.  Of another name the first part is looked for
in the scopes around the place, from the innermost on. -/
def resolve? (s : Scope) (place name : String) : Option (String × Symbol) :=
  match name.toList with
  | '.' :: full => s.type? (String.ofList full)
  | _ =>
    match nameParts name with
    | [] => none
    | [_] => (enclosing place).findSome? fun outer => s.type? (qualify outer name)
    | first :: _ =>
      match (enclosing place).find? fun outer => s.isOuter (qualify outer first) with
      | some outer => s.type? (qualify outer name)
      | none => none

/-- The message type that a name means within `place`. -/
def message? (s : Scope) (place name : String) : Option String :=
  match s.resolve? place name with
  | some (full, .message) => some full
  | _ => none

/-- What one value of a declared field is. -/
def fieldType? (s : Scope) (place : String) (f : FieldDecl) : Option FieldType :=
  match f.type, f.typeName with
  | some (.scalar k), _ => some (.scalar k)
  | some .message, some name => (s.message? place name).map .message
  | some .group, some name => (s.message? place name).map .group
  | some .enumeration, some name =>
    match s.resolve? place name with
    | some (full, .enumeration) => some (.enumeration full)
    | _ => none
  | none, some name =>
    match s.resolve? place name with
    | some (full, .enumeration) => some (.enumeration full)
    | some (full, .message) => some (.message full)
    | _ => none
  | _, none => none

end Scope

/-! ### The rules of declarations -/

/-- The greatest number of a field. -/
def maxFieldNumber : Int := 2 ^ 29 - 1

/-- The form of a field name in which two fields of a message type must not agree
in the newer version of the language. -/
def plainName (name : String) : String :=
  lower (String.ofList (name.toList.filter (· ≠ '_')))

/-- The rules of a message type: numbers in range and distinct, oneofs that exist,
and names that differ by more than their underscores and letter case. -/
def MessageDecl.wellFormed (older : Bool) (m : MessageDecl) : Bool :=
  (m.fields.all fun f =>
    1 ≤ f.number && f.number ≤ maxFieldNumber
      && match f.oneof with
        | none => true
        | some i => 0 ≤ i && i < m.oneofCount)
    && (m.fields.map FieldDecl.number).Nodup
    && (older || (m.fields.map fun f => plainName f.name).Nodup)

/-- The rules of an enum: it has a value, the first is zero in the newer version
of the language, and numbers are distinct unless that is waived. -/
def EnumDecl.wellFormed (older : Bool) (e : EnumDecl) : Bool :=
  match e.values with
  | [] => false
  | v :: _ => (older || v.2 = 0) && (e.allowAlias || (e.values.map Prod.snd).Nodup)

/-! ### Linking -/

/-- The default of a field: the declared one, or the one of its type. -/
def defaultOf? (enums : List (String × EnumDecl)) (type : FieldType)
    (declared : Option String) : Option Datum :=
  match type, declared with
  | .scalar k, none => some k.zero
  | .scalar k, some s => k.ofDefault? s
  | .enumeration name, declared =>
    (enums.lookup name).bind fun e =>
      let values : EnumType := ⟨name, e.values⟩
      match declared with
      | none => some (.int values.first)
      | some s => (values.number? s).map .int
  | .message _, none | .group _, none => some (.message [])
  | .message _, some _ | .group _, some _ => none

/-- The name for JSON of a field that declares none: without its underscores, the
letter after each in upper case. -/
def camelCase : List Char → List Char
  | [] => []
  | '_' :: cs => raise cs
  | c :: cs => c :: camelCase cs
where
  /-- The name after an underscore. -/
  raise : List Char → List Char
    | [] => []
    | '_' :: cs => raise cs
    | c :: cs => upperChar c :: camelCase cs

/-- All that the types of one file are linked with. -/
structure Linking where
  /-- The names that can be seen from the file. -/
  scope : Scope
  /-- The message types of all files, by their full names. -/
  types : List (String × MessageDecl)
  /-- The enums of all files, by their full names. -/
  enums : List (String × EnumDecl)
  /-- Whether the file is in the older version of the language. -/
  older : Bool

namespace Linking

/-- Whether several values of a type may be written as one record. -/
def packable : FieldType → Bool
  | .scalar k => k.packable
  | .enumeration _ => true
  | _ => false

/-- Whether values of a type are messages. -/
def isMessage : FieldType → Bool
  | .message _ | .group _ => true
  | _ => false

/-- The kind of key and the field of the values, where a type is the type of the
entries of a map. -/
def pairOf? (l : Linking) : FieldType → Option (Scalar × FieldType)
  | .message name =>
    match l.types.lookup name with
    | some m =>
      if m.mapEntry then
        match m.fields.find? (·.number = 1), m.fields.find? (·.number = 2) with
        | some k, some v =>
          match l.scope.fieldType? name k, l.scope.fieldType? name v with
          | some (.scalar key), some value => some (key, value)
          | _, _ => none
        | _, _ => none
      else none
    | none => none
  | _ => none

/-- The field of a declaration within the message type with the full name
`place`. -/
def field? (l : Linking) (place : String) (f : FieldDecl) : Option Field := do
  let type ← l.scope.fieldType? place f
  let base : Field :=
    { name := f.name
      jsonName := f.jsonName.getD (String.ofList (camelCase f.name.toList))
      number := f.number.toNat
      type := type
      shape := .single
      oneof := f.oneof.map Int.toNat
      explicit := f.marked || f.oneof.isSome
      packed := false
      default := ← defaultOf? l.enums type f.default }
  if f.label = .repeated then
    match l.pairOf? type with
    | some (key, value) =>
      return { base with
        shape := .map key, type := value, default := ← defaultOf? l.enums value none }
    | none =>
      return { base with
        shape := .list, packed := packable type && f.packed.getD (!l.older) }
  else return { base with explicit := base.explicit || isMessage type || l.older }

/-- The message type of a declaration. -/
def message? (l : Linking) (full : String) (m : MessageDecl) : Option MessageType :=
  if m.wellFormed l.older then
    (m.fields.mapM (l.field? full)).map fun fields => ⟨full, fields⟩
  else none

/-- The method of a declaration within the service with the full name `place`. -/
def method? (l : Linking) (place : String) (m : MethodDecl) : Option Method := do
  return ⟨m.name, ← l.scope.message? place m.input, ← l.scope.message? place m.output,
    m.clientStreaming, m.serverStreaming⟩

/-- The service of a declaration. -/
def service? (l : Linking) (scope : String) (s : ServiceDecl) : Option Service :=
  let full := qualify scope s.name
  (s.methods.mapM (l.method? full)).map fun methods => ⟨full, methods⟩

end Linking

/-- Whether a file is in the older version of the language, if it is in one of
the two. -/
def FileDecl.older? (f : FileDecl) : Option Bool :=
  match f.version with
  | none | some "proto2" => some true
  | some "proto3" => some false
  | some _ => none

namespace Pool

/-- The pool with the types of one file more. -/
def addFile? (files : List FileDecl) (symbols : List Symbol.Entry)
    (types : List (String × MessageDecl)) (enums : List (String × EnumDecl))
    (p : Pool) (f : FileDecl) : Option Pool := do
  let older ← f.older?
  let seen := f.visible files
  let l : Linking := ⟨⟨symbols.filter (·.file ∈ seen)⟩, types, enums, older⟩
  let messages ← f.types.mapM fun (full, m) => l.message? full m
  let services ← f.services.mapM (l.service? f.package)
  if f.enumTypes.all fun e => e.2.wellFormed older then
    return ⟨p.files ++ [f.name], p.messages ++ messages,
      p.enums ++ f.enumTypes.map (fun e => ⟨e.1, e.2.values⟩), p.services ++ services⟩
  else none

/-- The pool of a list of files in their order of loading. -/
def ofArranged? (files : List FileDecl) : Option Pool :=
  let symbols := files.flatMap FileDecl.symbols
  let given := files.map FileDecl.name
  if distinctNames symbols ∧ ∀ f ∈ files, ∀ d ∈ f.dependencies, d ∈ given then
    files.foldlM
      (addFile? files symbols (files.flatMap FileDecl.types)
        (files.flatMap FileDecl.enumTypes))
      ⟨[], [], [], []⟩
  else none

/-- The pool of a list of files in any order. -/
def link? (files : List FileDecl) : Option Pool := ofArranged? (FileDecl.arrange files)

end Pool

end Switchboard.Proto
