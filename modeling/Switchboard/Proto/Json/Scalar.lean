import Switchboard.Json.Document
import Switchboard.Proto.Encoding
import Switchboard.Text.Base64

/-!
# Scalars in JSON

How the scalars of a message stand in JSON: integers of 64 bits as texts, byte
strings in Base64, the numbers that JSON has no literal for as words.  Reading is
more generous than writing: numbers may stand as texts, and texts may be in either
Base64 alphabet.

## Main definitions

* `Scalar.read?` — the scalar that a document stands for.
* `Scalar.write` — the JSON value of a scalar.
* `EnumType.read?`, `EnumType.write` — the same for the values of an enum.
-/

namespace Switchboard

/-- The integer that a double is, if it has no fraction. -/
def Double.integer? (x : Double) : Option Int :=
  if x.isFinite then
    let m := if x.exponentField = 0 then x.fractionField else x.fractionField + 2 ^ 52
    let q : Int := (if x.exponentField = 0 then 1 else (x.exponentField : Int)) - 1075
    let below := 2 ^ (-q).toNat
    if m % below = 0 then
      let size : Int := (m / below * 2 ^ q.toNat : Nat)
      some (if x.isNegative then -size else size)
    else none
  else none

namespace Proto

open Json

/-! ### Reading -/

/-- The integer of a number.  A double without a fraction counts as an integer;
at the upper end of 64 bits it may be rounded up to the next power of two, which
counts as the greatest integer. -/
def integerOfNumber? (low high : Int) : Number → Option Int
  | .int i => if low ≤ i ∧ i ≤ high then some i else none
  | .double x =>
    match x.integer? with
    | some i =>
      let ceiling := if high < 2 ^ 53 then high else high + 1
      if low ≤ i ∧ i ≤ ceiling then some (min i high) else none
    | none => none

/-- The double of a number. -/
def doubleOfNumber : Number → Double
  | .int i => .ofInt i
  | .double x => x

/-- The single of a number, if it is no greater than the greatest finite one. -/
def singleOfNumber? : Number → Option Single
  | .int i => some (.ofInt i)
  | .double x =>
    if x.toFloat.abs ≤ Single.greatest.toFloat then some (.ofDouble x) else none

/-- The text between the padding and its length, if no more padding stands at the
end than fills the last group of four. -/
def unpadded? (cs : List Char) : Option (List Char) :=
  let text := Text.Base64.unpadded cs
  let padding := cs.length - text.length
  if padding = 0 ∨ (text.length % 4 ≠ 0 ∧ padding ≤ 4 - text.length % 4) then some text
  else none

/-- The bytes that a text stands for in one of the two alphabets. -/
def bytesOfText? (s : String) : Option Bytes :=
  (unpadded? s.toList).bind fun cs =>
    match Text.Base64.decode? Text.Base64.standard cs with
    | some bs => some bs
    | none => Text.Base64.decode? Text.Base64.urlSafe cs

/-- The scalar that a document stands for. -/
def Scalar.read? (k : Scalar) (d : Document) : Option Datum :=
  match k, d with
  | .bool, .bool b => some (.bool b)
  | .string, .string (some s) => some (.string s)
  | .bytes, .string (some s) => (bytesOfText? s).map .bytes
  | .double, .number (some n) => some (.double (doubleOfNumber n))
  | .double, .string (some s) => (Double.ofText? s).map .double
  | .float, .number (some n) => (singleOfNumber? n).map .single
  | .float, .string (some s) => (Single.ofText? s).map .single
  | k, .number (some n) =>
    k.bounds?.bind fun (low, high) => (integerOfNumber? low high n).map .int
  | k, .string (some s) =>
    k.bounds?.bind fun (low, high) => (integerOf? low high s).map .int
  | _, _ => none

/-- The enum in which JSON's `null` is a value. -/
def nullEnum : String := "google.protobuf.NullValue"

/-- The number of the enum value that a document names, or the number itself. -/
def EnumType.read? (e : EnumType) : Document → Option Datum
  | .string (some s) => (e.number? s).map .int
  | .number (some (.int i)) =>
    if -(2 ^ 31) ≤ i ∧ i < 2 ^ 31 then some (.int i) else none
  | .null => if e.name = nullEnum then some (.int 0) else none
  | _ => none

/-! ### Writing -/

/-- The JSON value of a number with a point. -/
def writeDouble (x : Double) : Value :=
  if x.isFinite then .number (.double x)
  else if x.isNaN then .string "NaN"
  else if x.isNegative then .string "-Infinity"
  else .string "Infinity"

/-- Whether integers of a kind stand as texts. -/
def Scalar.isWide : Scalar → Bool
  | .int64 | .uint64 | .sint64 | .fixed64 | .sfixed64 => true
  | _ => false

/-- The JSON value of a scalar. -/
def Scalar.write (k : Scalar) : Datum → Value
  | .bool b => .bool b
  | .int i => if k.isWide then .string (String.ofList (Number.renderInt i)) else .int i
  | .single x => writeDouble x.toDouble
  | .double x => writeDouble x
  | .string s => .string s
  | .bytes bs => .string (Text.Base64.encode bs)
  | .message _ => .null

/-- The JSON value of an enum value: its name, or its number where it has none. -/
def EnumType.write (e : EnumType) : Datum → Value
  | .int i =>
    if e.name = nullEnum then .null
    else
      match e.name? i with
      | some s => .string s
      | none => .int i
  | _ => .null

end Proto

end Switchboard
