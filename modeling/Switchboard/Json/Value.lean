import Switchboard.Dictionary
import Switchboard.Decimal.Double

/-!
# JSON values

The dynamic values that calls carry: request and response bodies, parameters,
results.  Integers of sixty-four bits are kept apart from doubles, and an object
is a dictionary, so its members come in the order of their names.

## Main definitions

* `Number` — an integer or a double.
* `Value` — the six kinds of JSON value.
* `Value.IntegersOnly`, `Value.Ordered`, `Value.depth` — what makes a value one
  that its written form gives back.
-/

namespace Switchboard.Json

/-- The least integer that a number may hold. -/
def minInteger : Int := -(2 ^ 63)

/-- The greatest integer that a number may hold. -/
def maxInteger : Int := 2 ^ 64 - 1

/-- A number: an integer between `minInteger` and `maxInteger`, or a finite
double. -/
inductive Number where
  /-- An integer, written without point and exponent. -/
  | int (i : Int)
  /-- A double, written with a point or an exponent. -/
  | double (x : Double)
  deriving DecidableEq, Repr, Inhabited

/-- A JSON value. -/
inductive Value where
  /-- The absent value. -/
  | null
  /-- A truth value. -/
  | bool (b : Bool)
  /-- A number. -/
  | number (n : Number)
  /-- A text. -/
  | string (s : String)
  /-- A list of values. -/
  | array (xs : List Value)
  /-- A dictionary of values. -/
  | object (members : List (String × Value))
  deriving Repr, Inhabited

namespace Value

/-- The value of an integer. -/
def int (i : Int) : Value := .number (.int i)

/-- The value of a natural number. -/
def nat (n : Nat) : Value := .number (.int n)

/-- The value of a finite double; an infinity or a NaN has none but null. -/
def ofDouble (x : Double) : Value :=
  if x.isFinite then .number (.double x) else .null

/-- A text, or null where there is none. -/
def ofString? (s : Option String) : Value :=
  match s with
  | some s => .string s
  | none => .null

/-- The object of a list of members; a later member replaces an earlier one of
the same name. -/
def ofMembers (ms : List (String × Value)) : Value :=
  .object (Dictionary.ofList ms)

/-- The member of an object under the given name. -/
def member? (k : String) : Value → Option Value
  | .object ms => Dictionary.get? k ms
  | _ => none

/-- The text of a string value. -/
def string? : Value → Option String
  | .string s => some s
  | _ => none

/-- The integer of a number written as one. -/
def int? : Value → Option Int
  | .number (.int i) => some i
  | _ => none

/-- The elements of an array. -/
def array? : Value → Option (List Value)
  | .array xs => some xs
  | _ => none

/-- The members of an object. -/
def object? : Value → Option (Dictionary Value)
  | .object ms => some ms
  | _ => none

/-- The word for the kind of a value that messages use. -/
def kind : Value → String
  | .null => "null"
  | .bool _ => "bool"
  | .number _ => "number"
  | .string _ => "string"
  | .array _ => "array"
  | .object _ => "object"

mutual

/-- Every number in the value is an integer in range. -/
def IntegersOnly : Value → Prop
  | .null | .bool _ | .string _ => True
  | .number (.int i) => minInteger ≤ i ∧ i ≤ maxInteger
  | .number (.double _) => False
  | .array xs => IntegersOnlyAll xs
  | .object ms => IntegersOnlyMembers ms

/-- Every number in a list of values is an integer in range. -/
def IntegersOnlyAll : List Value → Prop
  | [] => True
  | x :: xs => x.IntegersOnly ∧ IntegersOnlyAll xs

/-- Every number in the values of a list of members is an integer in range. -/
def IntegersOnlyMembers : List (String × Value) → Prop
  | [] => True
  | (_, v) :: ms => v.IntegersOnly ∧ IntegersOnlyMembers ms

end

mutual

/-- Every object in the value lists its members in the order of their names. -/
def Ordered : Value → Prop
  | .null | .bool _ | .number _ | .string _ => True
  | .array xs => OrderedAll xs
  | .object ms => Dictionary.Ordered ms ∧ OrderedMembers ms

/-- Every object in a list of values is ordered. -/
def OrderedAll : List Value → Prop
  | [] => True
  | x :: xs => x.Ordered ∧ OrderedAll xs

/-- Every object in the values of a list of members is ordered. -/
def OrderedMembers : List (String × Value) → Prop
  | [] => True
  | (_, v) :: ms => v.Ordered ∧ OrderedMembers ms

end

mutual

/-- The number of arrays and objects around the innermost value. -/
def depth : Value → Nat
  | .null | .bool _ | .number _ | .string _ => 0
  | .array xs => depthAll xs + 1
  | .object ms => depthMembers ms + 1

/-- The greatest depth in a list of values. -/
def depthAll : List Value → Nat
  | [] => 0
  | x :: xs => max x.depth (depthAll xs)

/-- The greatest depth among the values of a list of members. -/
def depthMembers : List (String × Value) → Nat
  | [] => 0
  | (_, v) :: ms => max v.depth (depthMembers ms)

end

end Value

end Switchboard.Json
