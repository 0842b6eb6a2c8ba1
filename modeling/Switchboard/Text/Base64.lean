import Switchboard.Text.Ascii
import Switchboard.Text.Utf8

/-!
# Base64

Three bytes stand as four characters of six bits each; the last group may hold
one or two bytes.

## Main definitions

* `standard`, `urlSafe` — the two alphabets.
* `bytesOf?` — the bytes of a list of six-bit values.
* `decode?` — the bytes that characters of an alphabet stand for.
* `encode` — the characters of a byte string, padded to whole groups.
-/

namespace Switchboard.Text.Base64

/-- The value of a letter or a digit. -/
def common? (c : Char) : Option Nat :=
  if 'A' ≤ c ∧ c ≤ 'Z' then some (c.toNat - 65)
  else if 'a' ≤ c ∧ c ≤ 'z' then some (c.toNat - 71)
  else if '0' ≤ c ∧ c ≤ '9' then some (c.toNat + 4)
  else none

/-- The standard alphabet. -/
def standard (c : Char) : Option Nat :=
  if c = '+' then some 62 else if c = '/' then some 63 else common? c

/-- The alphabet that may stand in URLs. -/
def urlSafe (c : Char) : Option Nat :=
  if c = '-' then some 62 else if c = '_' then some 63 else common? c

/-- The bytes of a list of six-bit values; bits beyond the last whole byte are
dropped, and a single value at the end is an error. -/
def bytesOf? : List Nat → Option Bytes
  | [] => some []
  | [_] => none
  | [a, b] => some [UInt8.ofNat (4 * a + b / 16)]
  | [a, b, c] => some [UInt8.ofNat (4 * a + b / 16), UInt8.ofNat (16 * b + c / 4)]
  | a :: b :: c :: d :: rest =>
    (bytesOf? rest).map fun bs =>
      UInt8.ofNat (4 * a + b / 16) :: UInt8.ofNat (16 * b + c / 4)
        :: UInt8.ofNat (64 * c + d) :: bs

/-- The characters without the padding at the back. -/
def unpadded (cs : List Char) : List Char :=
  (cs.reverse.dropWhile (· = '=')).reverse

/-- The bytes that characters of an alphabet stand for. -/
def decode? (alphabet : Char → Option Nat) (cs : List Char) : Option Bytes := do
  bytesOf? (← cs.mapM alphabet)

/-- The character of a six-bit value in the standard alphabet. -/
def charOf (n : Nat) : Char :=
  if n < 26 then Char.ofNat (n + 65)
  else if n < 52 then Char.ofNat (n + 71)
  else if n < 62 then Char.ofNat (n - 4)
  else if n = 62 then '+' else '/'

/-- The characters of a byte string, padded to whole groups of four. -/
def encodeChars : Bytes → List Char
  | [] => []
  | [a] => [charOf (a.toNat / 4), charOf (a.toNat % 4 * 16), '=', '=']
  | [a, b] =>
    [charOf (a.toNat / 4), charOf (a.toNat % 4 * 16 + b.toNat / 16),
     charOf (b.toNat % 16 * 4), '=']
  | a :: b :: c :: rest =>
    charOf (a.toNat / 4) :: charOf (a.toNat % 4 * 16 + b.toNat / 16)
      :: charOf (b.toNat % 16 * 4 + c.toNat / 64) :: charOf (c.toNat % 64)
      :: encodeChars rest

/-- The characters of a byte string, as a text. -/
def encode (bs : Bytes) : String := String.ofList (encodeChars bs)

end Switchboard.Text.Base64
