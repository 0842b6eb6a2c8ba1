import Switchboard.Text.Ascii
import Switchboard.Text.Hex

/-!
# Percent encoding

A byte stands as `%` and two hexadecimal digits where it could not stand as
itself.

## Main definitions

* `encodeByte b` — the escape of a byte.
* `encodeChars keep cs` — the characters, with the bytes of those that may not
  stand as themselves escaped.
* `decodeBytes bs` — the bytes, with every escape replaced by its byte.
-/

namespace Switchboard.Text.Percent

/-- The escape of a byte. -/
def encodeByte (b : UInt8) : List Char :=
  ['%', Hex.upperDigit (b.toNat / 16), Hex.upperDigit (b.toNat % 16)]

/-- The characters, with the bytes of those that `keep` does not allow
escaped. -/
def encodeChars (keep : Char → Bool) (cs : List Char) : List Char :=
  cs.flatMap fun c => if keep c then [c] else (String.utf8EncodeChar c).flatMap encodeByte

/-- The value of a byte that is a hexadecimal digit. -/
def digit? (b : UInt8) : Option Nat := Hex.value? (Char.ofNat b.toNat)

/-- The bytes, with every escape replaced by its byte; a percent sign without
two digits stands for itself. -/
def decodeBytes : Bytes → Bytes
  | 0x25 :: a :: b :: rest =>
    match digit? a, digit? b with
    | some x, some y => UInt8.ofNat (16 * x + y) :: decodeBytes rest
    | _, _ => 0x25 :: decodeBytes (a :: b :: rest)
  | b :: rest => b :: decodeBytes rest
  | [] => []

@[simp] theorem encodeChars_nil (keep : Char → Bool) : encodeChars keep [] = [] := rfl

@[simp] theorem encodeChars_append (keep : Char → Bool) (cs ds : List Char) :
    encodeChars keep (cs ++ ds) = encodeChars keep cs ++ encodeChars keep ds := by
  simp [encodeChars]

end Switchboard.Text.Percent
