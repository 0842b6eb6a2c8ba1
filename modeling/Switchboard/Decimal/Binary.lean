import Switchboard.Decimal.Double

/-!
# Nearest binary numbers

The number of a binary format that is nearest to a fraction, computed in exact
arithmetic: an exact tie goes to the even neighbour, and a fraction too large
for the format goes to infinity.

## Main definitions

* `BinaryFormat` — the widths of a format's exponent and fraction.
* `BinaryFormat.nearest f num den` — the bits of the number nearest to
  `num / den`.
* `BinaryFormat.ofDecimal f n e` — the bits of the number nearest to
  `n · 10 ^ e`.
* `Single` — the bits of a number in the binary32 format.
-/

namespace Switchboard

/-- A binary format: a sign, an exponent and a fraction. -/
structure BinaryFormat where
  /-- The width of the exponent. -/
  exponentBits : Nat
  /-- The width of the fraction. -/
  fractionBits : Nat
  /-- The decimal exponent from which every number is infinite. -/
  decimalCeiling : Int
  /-- The decimal exponent below which every number is zero. -/
  decimalFloor : Int

namespace BinaryFormat

/-- The format of doubles. -/
def binary64 : BinaryFormat := ⟨11, 52, 310, -330⟩

/-- The format of singles. -/
def binary32 : BinaryFormat := ⟨8, 23, 40, -50⟩

/-- The bits of infinity. -/
def infinity (f : BinaryFormat) : Nat := (2 ^ f.exponentBits - 1) * 2 ^ f.fractionBits

/-- The bits of the NaN whose fraction has its first bit set only. -/
def nan (f : BinaryFormat) : Nat := f.infinity + 2 ^ (f.fractionBits - 1)

/-- The bit of the sign. -/
def signBit (f : BinaryFormat) : Nat := 2 ^ (f.exponentBits + f.fractionBits)

/-- The exponent of the last place of the least numbers. -/
def leastExponent (f : BinaryFormat) : Int :=
  2 - 2 ^ (f.exponentBits - 1) - f.fractionBits

/-- The exponent `e` with `2 ^ e ≤ num / den < 2 ^ (e + 1)`. -/
def magnitude (num den : Nat) : Int :=
  let e : Int := (Nat.log2 num : Int) - (Nat.log2 den : Int)
  if num * 2 ^ (-e).toNat < den * 2 ^ e.toNat then e - 1 else e

/-- The natural number nearest to `num / den`, an exact tie going to the even
one. -/
def roundedDiv (num den : Nat) : Nat :=
  let m := num / den
  let r := num % den
  if 2 * r < den ∨ (2 * r = den ∧ m % 2 = 0) then m else m + 1

/-- The bits of the nonnegative number nearest to `num / den`.  The bits of the
fraction and of the exponent are consecutive, so a carry out of the fraction
counts the exponent up by itself. -/
def nearest (f : BinaryFormat) (num den : Nat) : Nat :=
  if num = 0 then 0
  else
    let q := max (magnitude num den - f.fractionBits) f.leastExponent
    let m := roundedDiv (num * 2 ^ (-q).toNat) (den * 2 ^ q.toNat)
    min ((q - f.leastExponent).toNat * 2 ^ f.fractionBits + m) f.infinity

/-- The bits of the nonnegative number nearest to `n · 10 ^ e`.  Where the first
digit stands far outside the format's range, no power of ten is computed. -/
def ofDecimal (f : BinaryFormat) (n : Nat) (e : Int) : Nat :=
  if n = 0 then 0
  else
    let top := (Nat.toDigits 10 n).length + e
    if f.decimalCeiling < top then f.infinity
    else if top < f.decimalFloor then 0
    else f.nearest (n * 10 ^ e.toNat) (10 ^ (-e).toNat)

@[simp] theorem nearest_zero (f : BinaryFormat) (den : Nat) : f.nearest 0 den = 0 := rfl

@[simp] theorem ofDecimal_zero (f : BinaryFormat) (e : Int) : f.ofDecimal 0 e = 0 := rfl

end BinaryFormat

/-! ### Singles -/

/-- The bits of a number in the binary32 format. -/
structure Single where
  /-- Sign, eight bits of exponent, twenty-three bits of fraction. -/
  bits : UInt32
  deriving DecidableEq, Repr, Inhabited

namespace Single

/-- The eight bits of the exponent. -/
def exponentField (x : Single) : Nat := x.bits.toNat / 2 ^ 23 % 2 ^ 8

/-- The twenty-three bits of the fraction. -/
def fractionField (x : Single) : Nat := x.bits.toNat % 2 ^ 23

/-- The number is a NaN. -/
def isNaN (x : Single) : Bool := x.exponentField = 255 && x.fractionField ≠ 0

/-- The number is one of the two zeros. -/
def isZero (x : Single) : Bool := x.exponentField = 0 && x.fractionField = 0

/-- The numbers are equal in value: the two zeros equal each other, and a NaN equals
nothing. -/
def equals (x y : Single) : Bool := !x.isNaN && (x = y || (x.isZero && y.isZero))

/-- The same number as a double. -/
def toDouble (x : Single) : Double := .ofFloat (Float32.ofBits x.bits).toFloat

/-- The single nearest to a double. -/
def ofDouble (x : Double) : Single := ⟨x.toFloat.toFloat32.toBits⟩

/-- The single nearest to an integer. -/
def ofInt (i : Int) : Single :=
  let size := BinaryFormat.binary32.nearest i.natAbs 1
  ⟨UInt32.ofNat (if i < 0 then BinaryFormat.binary32.signBit + size else size)⟩

/-- The zero without a sign. -/
def zero : Single := ⟨0⟩

/-- The greatest finite single, as a double. -/
def greatest : Double := toDouble ⟨0x7F7FFFFF⟩

end Single

end Switchboard
