import Switchboard.Dictionary
import Switchboard.Proto.Schema

/-!
# Declarations of types

What a file declares before its names are resolved, and the order in which files
are loaded: a file after the files it depends on.

Extensions, which proto2 knows, are left out: neither the fields that a file adds to the
message types of others nor the ranges that a message type keeps for them are declared
here, so that no field of a message is an extension.

## Main definitions

* `FieldDecl`, `MessageDecl`, `EnumDecl`, `ServiceDecl`, `FileDecl` — declarations.
* `FileDecl.missing` — the files that are depended on but not given.
* `FileDecl.arrange` — the given files in the order of loading.
-/

namespace Switchboard.Proto

/-- What a field is declared to hold. -/
inductive DeclaredType where
  /-- A scalar. -/
  | scalar (s : Scalar)
  /-- A message between the marks of a group. -/
  | group
  /-- A message. -/
  | message
  /-- A value of an enum. -/
  | enumeration
  deriving DecidableEq, Repr, Inhabited

/-- The label of a field. -/
inductive Label where
  /-- At most one value. -/
  | optional
  /-- Exactly one value. -/
  | required
  /-- Any number of values. -/
  | repeated
  deriving DecidableEq, Repr, Inhabited

/-- A field as it is declared. -/
structure FieldDecl where
  /-- The name. -/
  name : String
  /-- The number. -/
  number : Int
  /-- The kind of value; without one the name of the type decides. -/
  type : Option DeclaredType
  /-- The name of the enum or message type. -/
  typeName : Option String := none
  /-- The label. -/
  label : Label := .optional
  /-- The name for JSON, if one is given. -/
  jsonName : Option String := none
  /-- The position of the oneof that the field belongs to. -/
  oneof : Option Int := none
  /-- Whether the field is marked `optional` where no label is needed. -/
  marked : Bool := false
  /-- The text of the declared default. -/
  default : Option String := none
  /-- Whether several scalars are written as one record, if that is declared. -/
  packed : Option Bool := none
  deriving Repr, Inhabited

/-- An enum as it is declared. -/
structure EnumDecl where
  /-- The name. -/
  name : String
  /-- The names of the values and their numbers. -/
  values : List (String × Int)
  /-- Whether two values may have one number. -/
  allowAlias : Bool := false
  deriving Repr, Inhabited

/-- A message type as it is declared, without ranges for extensions. -/
inductive MessageDecl where
  /-- A message type with its fields, the types declared within it, the names of
  its oneofs, and whether it is the type of the entries of a map. -/
  | mk (name : String) (fields : List FieldDecl) (messages : List MessageDecl)
    (enums : List EnumDecl) (oneofs : List String) (mapEntry : Bool)
  deriving Repr, Inhabited

namespace MessageDecl

/-- The name. -/
def name : MessageDecl → String
  | .mk name .. => name

/-- The fields. -/
def fields : MessageDecl → List FieldDecl
  | .mk _ fields .. => fields

/-- Whether it is the type of the entries of a map. -/
def mapEntry : MessageDecl → Bool
  | .mk _ _ _ _ _ mapEntry => mapEntry

/-- The number of oneofs. -/
def oneofCount : MessageDecl → Nat
  | .mk _ _ _ _ oneofs _ => oneofs.length

end MessageDecl

/-- A method as it is declared. -/
structure MethodDecl where
  /-- The name. -/
  name : String
  /-- The name of the type of requests. -/
  input : String
  /-- The name of the type of responses. -/
  output : String
  /-- Whether the client sends any number of requests. -/
  clientStreaming : Bool := false
  /-- Whether the server sends any number of responses. -/
  serverStreaming : Bool := false
  deriving Repr, Inhabited

/-- A service as it is declared. -/
structure ServiceDecl where
  /-- The name. -/
  name : String
  /-- The methods. -/
  methods : List MethodDecl
  deriving Repr, Inhabited

/-- What a file declares, apart from extensions. -/
structure FileDecl where
  /-- The name of the file. -/
  name : String
  /-- The package of the declared types, empty for none. -/
  package : String := ""
  /-- The names of the files it depends on. -/
  dependencies : List String := []
  /-- The positions of the dependencies that are passed on to its dependents. -/
  passedOn : List Int := []
  /-- The version of the declaration language. -/
  version : Option String := none
  /-- The message types. -/
  messages : List MessageDecl := []
  /-- The enums. -/
  enums : List EnumDecl := []
  /-- The services. -/
  services : List ServiceDecl := []
  deriving Repr, Inhabited

namespace FileDecl

/-! ### Files by name -/

/-- The given files by their names; of two files with one name the later is
taken. -/
def byName (files : List FileDecl) : Dictionary FileDecl :=
  Dictionary.ofList (files.map fun f => (f.name, f))

/-- The files that are depended on but not given, in the order of their names. -/
def missing (files : Dictionary FileDecl) : List String :=
  let names := files.flatMap fun e => e.2.dependencies
  Dictionary.keys (Dictionary.ofList
    ((names.filter fun n => !Dictionary.contains n files).map fun n => (n, ())))

/-! ### The order of loading -/

/-- What is left to do: look at a file and at what it depends on, or load a file
whose dependencies have been looked at. -/
inductive Work where
  /-- Look at the file with this name. -/
  | enter (name : String)
  /-- Load this file. -/
  | load (file : FileDecl)

/-- The number of given files that have not been looked at. -/
def unseen (files : Dictionary FileDecl) (seen : List String) : Nat :=
  (files.filter fun e => e.1 ∉ seen).length

theorem mem_of_get? {files : Dictionary FileDecl} {name : String} {f : FileDecl}
    (h : Dictionary.get? name files = some f) : (name, f) ∈ files := by
  induction files with
  | nil => simp at h
  | cons e rest ih =>
    obtain ⟨k, v⟩ := e
    rw [Dictionary.get?_cons] at h
    split at h
    · cases h; subst_vars; simp
    · exact List.mem_cons_of_mem _ (ih h)

/-- Looking at a given file that was not seen leaves fewer unseen files. -/
theorem unseen_cons_lt {files : Dictionary FileDecl} {seen : List String} {name : String}
    {f : FileDecl} (h : Dictionary.get? name files = some f) (hn : name ∉ seen) :
    unseen files (name :: seen) < unseen files seen := by
  unfold unseen
  have hsub : files.filter (fun e => e.1 ∉ name :: seen)
      = (files.filter fun e => e.1 ∉ seen).filter fun e => e.1 ≠ name := by
    rw [List.filter_filter]
    congr 1
    funext e
    simp [List.mem_cons]
  rw [hsub]
  have hmem : (name, f) ∈ files.filter fun e => e.1 ∉ seen := by
    rw [List.mem_filter]
    exact ⟨mem_of_get? h, by simpa using hn⟩
  exact List.length_filter_lt_length_iff_exists.2 ⟨(name, f), hmem, by simp⟩

/-- The files in the order in which the work loads them.  A file that has been
seen is not looked at again, and a file that is not given is passed over. -/
def loadOrder (files : Dictionary FileDecl) (seen : List String) : List Work → List FileDecl
  | [] => []
  | .load f :: rest => f :: loadOrder files seen rest
  | .enter name :: rest =>
    if hn : name ∈ seen then loadOrder files seen rest
    else
      match h : Dictionary.get? name files with
      | none => loadOrder files seen rest
      | some f =>
        have := unseen_cons_lt h hn
        loadOrder files (name :: seen) (f.dependencies.map .enter ++ .load f :: rest)
termination_by work => (unseen files seen, work.length)

/-- The given files in the order of loading: by name, but each after the files it
depends on. -/
def arrange (files : List FileDecl) : List FileDecl :=
  let files := byName files
  loadOrder files [] (files.keys.map .enter)

end FileDecl

end Switchboard.Proto
