import Switchboard.Text.Utf8

/-!
# Hexadecimal digits

Two digits per byte, the upper half first.  Writing is in lower case; reading
takes either case.

## Main definitions

* `digit n` — the lower-case digit of a number below sixteen.
* `value? c` — the number a digit stands for.
* `encode bs`, `decode? cs` — the digits of a byte string and back.
-/

namespace Switchboard.Text.Hex

/-- The lower-case digit of `n`, for `n < 16`. -/
def digit (n : Nat) : Char :=
  if n < 10 then Char.ofNat (48 + n) else Char.ofNat (87 + n)

/-- The upper-case digit of `n`, for `n < 16`. -/
def upperDigit (n : Nat) : Char :=
  if n < 10 then Char.ofNat (48 + n) else Char.ofNat (55 + n)

/-- The number that a digit of either case stands for. -/
def value? (c : Char) : Option Nat :=
  if '0' ≤ c ∧ c ≤ '9' then some (c.toNat - 48)
  else if 'a' ≤ c ∧ c ≤ 'f' then some (c.toNat - 87)
  else if 'A' ≤ c ∧ c ≤ 'F' then some (c.toNat - 55)
  else none

/-- The two digits of a byte. -/
def encodeByte (b : UInt8) : List Char :=
  [digit (b.toNat / 16), digit (b.toNat % 16)]

/-- The digits of a byte string. -/
def encode (bs : Bytes) : String :=
  String.ofList (bs.flatMap encodeByte)

/-- The bytes that a list of digits stands for. -/
def decode? : List Char → Option Bytes
  | [] => some []
  | hi :: lo :: rest => do
    let h ← value? hi
    let l ← value? lo
    let bs ← decode? rest
    return UInt8.ofNat (16 * h + l) :: bs
  | [_] => none

/-- The digits of a number, most significant first, without leading zeros. -/
def digitsOf (n : Nat) : List Char :=
  Nat.toDigits 16 n

end Switchboard.Text.Hex
