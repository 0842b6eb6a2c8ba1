import Switchboard.Proto.Scalar

/-!
# Message types

The types that messages are read and written by: fields with their numbers and
names, enums, and the services whose methods take and give messages.  Types refer
to each other by their full names.

## Main definitions

* `FieldType`, `Shape` — what a field holds, and how much of it.
* `Field`, `MessageType`, `EnumType`, `Service` — declared types.
* `Pool` — all types that are known, found by their full names.
* `Field.carries` — whether a value counts as present.
* `Message.set` — a message with a content in one of its fields.
-/

namespace Switchboard.Proto

/-- What one value of a field is. -/
inductive FieldType where
  /-- A scalar. -/
  | scalar (s : Scalar)
  /-- A value of the named enum. -/
  | enumeration (name : String)
  /-- A message of the named type. -/
  | message (name : String)
  /-- A message of the named type between the marks of a group. -/
  | group (name : String)
  deriving DecidableEq, Repr, Inhabited

/-- How many values a field holds. -/
inductive Shape where
  /-- At most one. -/
  | single
  /-- Any number, in order. -/
  | list
  /-- One for each key of the given kind. -/
  | map (key : Scalar)
  deriving DecidableEq, Repr, Inhabited

/-- A field of a message type. -/
structure Field where
  /-- The name under which it is declared. -/
  name : String
  /-- The name that JSON texts use. -/
  jsonName : String
  /-- The number that stands for it in an encoded message. -/
  number : Nat
  /-- What one value is; for a map, what a value under a key is. -/
  type : FieldType
  /-- How many values it holds. -/
  shape : Shape
  /-- The position of its oneof among the oneofs of the message type. -/
  oneof : Option Nat
  /-- Whether a value that equals the default is told apart from no value. -/
  explicit : Bool
  /-- Whether several scalars are written as one record. -/
  packed : Bool
  /-- The value where there is none; an empty message for a message. -/
  default : Datum
  deriving Inhabited

/-- A message type. -/
structure MessageType where
  /-- The full name. -/
  name : String
  /-- The fields, as declared. -/
  fields : List Field
  deriving Inhabited

/-- An enum: the names of some numbers. -/
structure EnumType where
  /-- The full name. -/
  name : String
  /-- The names and their numbers, as declared. -/
  values : List (String × Int)
  deriving Inhabited

/-- A method of a service. -/
structure Method where
  /-- The name within the service. -/
  name : String
  /-- The full name of the type of requests. -/
  input : String
  /-- The full name of the type of responses. -/
  output : String
  /-- Whether the client sends any number of requests. -/
  clientStreaming : Bool
  /-- Whether the server sends any number of responses. -/
  serverStreaming : Bool
  deriving Repr, Inhabited

/-- A service. -/
structure Service where
  /-- The full name. -/
  name : String
  /-- The methods, as declared. -/
  methods : List Method
  deriving Repr, Inhabited

/-- All types that are known. -/
structure Pool where
  /-- The names of the files they come from, in the order of loading. -/
  files : List String
  /-- The message types. -/
  messages : List MessageType
  /-- The enums. -/
  enums : List EnumType
  /-- The services. -/
  services : List Service
  deriving Inhabited

/-! ### Look-up -/

namespace MessageType

/-- The field with a number. -/
def field? (t : MessageType) (number : Nat) : Option Field :=
  t.fields.find? (·.number = number)

/-- The field that a name in a JSON text stands for: first the names for JSON,
then the declared names.  Of two fields with one name for JSON the later is
meant. -/
def named? (t : MessageType) (name : String) : Option Field :=
  match t.fields.reverse.find? (·.jsonName = name) with
  | some f => some f
  | none => t.fields.find? (·.name = name)

/-- The fields of a oneof. -/
def oneofFields (t : MessageType) (oneof : Nat) : List Field :=
  t.fields.filter (·.oneof = some oneof)

end MessageType

namespace EnumType

/-- The number of a name. -/
def number? (e : EnumType) (name : String) : Option Int :=
  (e.values.find? (·.1 = name)).map Prod.snd

/-- The name of a number. -/
def name? (e : EnumType) (number : Int) : Option String :=
  (e.values.find? (·.2 = number)).map Prod.fst

/-- The number of the value that is declared first. -/
def first (e : EnumType) : Int :=
  match e.values with
  | [] => 0
  | v :: _ => v.2

end EnumType

/-- The method with a name. -/
def Service.method? (s : Service) (name : String) : Option Method :=
  s.methods.find? (·.name = name)

namespace Pool

/-- The message type with a full name. -/
def message? (p : Pool) (name : String) : Option MessageType :=
  p.messages.find? (·.name = name)

/-- The enum with a full name. -/
def enum? (p : Pool) (name : String) : Option EnumType :=
  p.enums.find? (·.name = name)

/-- The service with a full name. -/
def service? (p : Pool) (name : String) : Option Service :=
  p.services.find? (·.name = name)

end Pool

/-! ### Presence -/

/-- Whether a value counts as present: it differs from the default, or presence
is told apart anyway. -/
def Field.carries (f : Field) (d : Datum) : Bool := f.explicit || !d.same f.default

/-- Whether a message holds a content: one that the field has anyway is not
held. -/
def Field.holds (f : Field) : Content → Bool
  | .one d => f.explicit || !d.identical f.default
  | .list ds => !ds.isEmpty
  | .map es => !es.isEmpty
  | .unknown ps => !ps.isEmpty

namespace Message

/-- The message with a content in a field. -/
def hold (f : Field) (c : Content) (m : Message) : Message :=
  if f.holds c then m.put f.number c else m.drop f.number

/-- The message without the other fields of a field's oneof. -/
def clearOthers (t : MessageType) (f : Field) (m : Message) : Message :=
  match f.oneof with
  | none => m
  | some i =>
    ((t.oneofFields i).filter (·.number ≠ f.number)).foldl (fun m g => m.drop g.number) m

/-- The message with a content in a field and nothing in the other fields of its
oneof. -/
def set (t : MessageType) (f : Field) (c : Content) (m : Message) : Message :=
  (m.clearOthers t f).hold f c

/-- Whether a field of the oneof has a value. -/
def choosesFrom (t : MessageType) (oneof : Nat) (m : Message) : Bool :=
  (t.oneofFields oneof).any fun f => (m.get? f.number).isSome

end Message

end Switchboard.Proto
