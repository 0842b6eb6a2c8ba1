import Switchboard.Decimal.Binary
import Switchboard.Text.Ascii

/-!
# Decimal literals

The usual written form of a floating-point number: a sign, digits around a
point, an exponent; or one of the words for infinity and NaN, in any letter
case.

## Main definitions

* `Literal` — what a text says.
* `Literal.ofChars?` — reads a text.
* `Literal.bits` — the nearest number of a binary format.
-/

namespace Switchboard

open Text.Ascii

/-- A number as it is written, without its sign. -/
inductive Literal.Size where
  /-- The word `nan`. -/
  | nan
  /-- The word `inf` or `infinity`. -/
  | infinity
  /-- The number `digits · 10 ^ exponent`. -/
  | decimal (digits : Nat) (exponent : Int)
  deriving DecidableEq, Repr, Inhabited

/-- A number as it is written. -/
structure Literal where
  /-- Whether a minus sign stands in front. -/
  negative : Bool
  /-- What follows the sign. -/
  size : Literal.Size
  deriving DecidableEq, Repr, Inhabited

namespace Literal

/-- The sign in front of a text, and what follows it. -/
def sign : List Char → Bool × List Char
  | '-' :: cs => (true, cs)
  | '+' :: cs => (false, cs)
  | cs => (false, cs)

/-- The integer that a sign and digits spell. -/
def exponent? (cs : List Char) : Option Int :=
  let (negative, ds) := sign cs
  if ds ≠ [] ∧ ds.all isDigit then
    some (if negative then -(numberOf ds : Int) else numberOf ds)
  else none

/-- What may follow the digits: nothing, or an exponent. -/
def scale? : List Char → Option Int
  | [] => some 0
  | c :: cs => if c = 'e' ∨ c = 'E' then exponent? cs else none

/-- Digits, at most one point among or around them, and an exponent. -/
def decimal? (cs : List Char) : Option Size :=
  let whole := cs.takeWhile isDigit
  match cs.dropWhile isDigit with
  | '.' :: rest =>
    let fraction := rest.takeWhile isDigit
    if whole = [] ∧ fraction = [] then none
    else
      (scale? (rest.dropWhile isDigit)).map fun e =>
        .decimal (numberOf (whole ++ fraction)) (e - fraction.length)
  | rest =>
    if whole = [] then none else (scale? rest).map (.decimal (numberOf whole))

/-- What follows the sign. -/
def size? (cs : List Char) : Option Size :=
  let word := lower (String.ofList cs)
  if word = "nan" then some .nan
  else if word = "inf" ∨ word = "infinity" then some .infinity
  else decimal? cs

/-- The number that a text spells. -/
def ofChars? (cs : List Char) : Option Literal :=
  let (negative, rest) := sign cs
  (size? rest).map (⟨negative, ·⟩)

/-- The bits of the nearest number in a format. -/
def bits (f : BinaryFormat) (l : Literal) : Nat :=
  let size :=
    match l.size with
    | .nan => f.nan
    | .infinity => f.infinity
    | .decimal n e => f.ofDecimal n e
  if l.negative then f.signBit + size else size

end Literal

/-- The double that a text spells. -/
def Double.ofText? (s : String) : Option Double :=
  (Literal.ofChars? s.toList).map fun l => ⟨UInt64.ofNat (l.bits .binary64)⟩

/-- The single that a text spells. -/
def Single.ofText? (s : String) : Option Single :=
  (Literal.ofChars? s.toList).map fun l => ⟨UInt32.ofNat (l.bits .binary32)⟩

end Switchboard
