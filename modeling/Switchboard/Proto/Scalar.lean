import Switchboard.Decimal.Literal
import Switchboard.Proto.Message
import Switchboard.Text.Hex

/-!
# Scalars

The kinds of single value that are neither enum nor message, with their ranges,
their defaults and what two of their values have to do with each other.

## Main definitions

* `Scalar` — the kinds.
* `Scalar.bounds?`, `Scalar.zero` — the range and the default of a kind.
* `Scalar.ofDefault?` — the value that a declared default spells.
* `Datum.same`, `Datum.identical` — equal in value, equal bit for bit.
-/

namespace Switchboard.Proto

/-- The kinds of single value that are neither enum nor message. -/
inductive Scalar where
  /-- A number of double precision. -/
  | double
  /-- A number of single precision. -/
  | float
  /-- A signed number of 64 bits in groups of seven. -/
  | int64
  /-- An unsigned number of 64 bits in groups of seven. -/
  | uint64
  /-- A signed number of 32 bits in groups of seven. -/
  | int32
  /-- An unsigned number of 64 bits in eight bytes. -/
  | fixed64
  /-- An unsigned number of 32 bits in four bytes. -/
  | fixed32
  /-- A truth value. -/
  | bool
  /-- A text. -/
  | string
  /-- A byte string. -/
  | bytes
  /-- An unsigned number of 32 bits in groups of seven. -/
  | uint32
  /-- A signed number of 32 bits in four bytes. -/
  | sfixed32
  /-- A signed number of 64 bits in eight bytes. -/
  | sfixed64
  /-- A signed number of 32 bits, small in absolute value. -/
  | sint32
  /-- A signed number of 64 bits, small in absolute value. -/
  | sint64
  deriving DecidableEq, Repr, Inhabited

/-! ### Equality -/

/-- Whether two scalars count as the same value: numbers with a point by their
value, so that the two zeros are the same and a NaN differs from itself. -/
def Datum.same : Datum → Datum → Bool
  | .bool a, .bool b => a = b
  | .int a, .int b => a = b
  | .single x, .single y => x.equals y
  | .double x, .double y => x.equals y
  | .string a, .string b => a = b
  | .bytes a, .bytes b => a = b
  | _, _ => false

/-- Whether two scalars are equal bit for bit. -/
def Datum.identical : Datum → Datum → Bool
  | .bool a, .bool b => a = b
  | .int a, .int b => a = b
  | .single x, .single y => x = y
  | .double x, .double y => x = y
  | .string a, .string b => a = b
  | .bytes a, .bytes b => a = b
  | _, _ => false

/-! ### Texts of values -/

/-- The integer that a text spells: a sign and digits, within the bounds. -/
def integerOf? (low high : Int) (s : String) : Option Int :=
  match Literal.exponent? s.toList with
  | some i =>
    -- A minus sign is not read where no negative number is in range.
    if low ≤ i ∧ i ≤ high ∧ (low < 0 ∨ s.toList.head? ≠ some '-') then some i else none
  | none => none

/-- The bytes that an escaped text stands for. -/
def unescaped? : List Char → Option Bytes
  | [] => some []
  | '\\' :: 'x' :: a :: b :: cs =>
    match Text.Hex.value? a, Text.Hex.value? b with
    | some x, some y => (unescaped? cs).map (UInt8.ofNat (16 * x + y) :: ·)
    | _, _ => none
  | '\\' :: a :: b :: c :: cs =>
    if [a, b, c].all fun d => '0' ≤ d && d ≤ '7' then
      (unescaped? cs).map
        (UInt8.ofNat (64 * (a.toNat - 48) + 8 * (b.toNat - 48) + (c.toNat - 48)) :: ·)
    else (simple? a).bind fun x => (unescaped? (b :: c :: cs)).map (x :: ·)
  | '\\' :: a :: cs => (simple? a).bind fun x => (unescaped? cs).map (x :: ·)
  | ['\\'] => none
  | c :: cs => (unescaped? cs).map (Text.Utf8.encodeChars [c] ++ ·)
where
  /-- The byte of an escape of one letter. -/
  simple? (c : Char) : Option UInt8 :=
    ([('n', 10), ('r', 13), ('t', 9), ('a', 7), ('b', 8), ('f', 12), ('v', 11),
      ('\\', 92), ('\'', 39), ('"', 34), ('?', 63)].lookup c : Option UInt8)

namespace Scalar

/-- The least and the greatest number of an integer kind. -/
def bounds? : Scalar → Option (Int × Int)
  | .int32 | .sint32 | .sfixed32 => some (-(2 ^ 31), 2 ^ 31 - 1)
  | .int64 | .sint64 | .sfixed64 => some (-(2 ^ 63), 2 ^ 63 - 1)
  | .uint32 | .fixed32 => some (0, 2 ^ 32 - 1)
  | .uint64 | .fixed64 => some (0, 2 ^ 64 - 1)
  | _ => none

/-- The value where there is none. -/
def zero : Scalar → Datum
  | .double => .double .zero
  | .float => .single .zero
  | .bool => .bool false
  | .string => .string ""
  | .bytes => .bytes []
  | _ => .int 0

/-- The value that a declared default spells. -/
def ofDefault? (k : Scalar) (s : String) : Option Datum :=
  match k with
  | .double => (Double.ofText? s).map .double
  | .float => (Single.ofText? s).map .single
  | .bool => if s = "true" then some (.bool true)
             else if s = "false" then some (.bool false) else none
  | .string => some (.string s)
  | .bytes => (unescaped? s.toList).map .bytes
  | k => k.bounds?.bind fun (low, high) => (integerOf? low high s).map .int

/-- Whether several values may be written as one record. -/
def packable : Scalar → Bool
  | .string | .bytes => false
  | _ => true

end Scalar

end Switchboard.Proto
