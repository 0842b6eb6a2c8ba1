import Switchboard.Power

/-!
# Double-precision numbers

A double is kept as its sixty-four bits, so that equality is decidable and
tells the two zeros apart; arithmetic goes through `Float`.

## Main definitions

* `Double` — the bits of a number in the binary64 format.
* `Double.isFinite`, `Double.isNegative`, `Double.isZero` — its classes.
* `Double.equals` — equality in value.
* `Double.scale? n e` — the number `n · 10 ^ e`, computed with one conversion
  and one multiplication or division for each 308 powers of ten.
-/

namespace Switchboard

/-- The bits of a number in the binary64 format. -/
structure Double where
  /-- Sign, eleven bits of exponent, fifty-two bits of fraction. -/
  bits : UInt64
  deriving DecidableEq, Repr, Inhabited

namespace Double

/-- The number as a `Float`. -/
def toFloat (x : Double) : Float := Float.ofBits x.bits

/-- The bits of a `Float`. -/
def ofFloat (x : Float) : Double := ⟨x.toBits⟩

/-- The double nearest to a natural number. -/
def ofNat (n : Nat) : Double := ofFloat (Float.ofNat n)

/-- The double nearest to an integer. -/
def ofInt (i : Int) : Double := ofFloat (Float.ofInt i)

/-- The eleven bits of the exponent. -/
def exponentField (x : Double) : Nat := x.bits.toNat / 2 ^ 52 % 2 ^ 11

/-- The fifty-two bits of the fraction. -/
def fractionField (x : Double) : Nat := x.bits.toNat % 2 ^ 52

/-- The sign bit is set. -/
def isNegative (x : Double) : Bool := x.bits.toNat / 2 ^ 63 = 1

/-- The number is neither infinite nor a NaN. -/
def isFinite (x : Double) : Bool := x.exponentField ≠ 2047

/-- The number is a NaN. -/
def isNaN (x : Double) : Bool := x.exponentField = 2047 && x.fractionField ≠ 0

/-- The number is one of the two zeros. -/
def isZero (x : Double) : Bool := x.exponentField = 0 && x.fractionField = 0

/-- The numbers are equal in value: the two zeros equal each other, and a NaN equals
nothing. -/
def equals (x y : Double) : Bool := !x.isNaN && (x = y || (x.isZero && y.isZero))

/-- The number with its sign turned. -/
def neg (x : Double) : Double := ⟨x.bits ^^^ 0x8000000000000000⟩

/-- The zero without a sign. -/
def zero : Double := ⟨0⟩

/-- The power `10 ^ k`, for `k ≤ 308`. -/
def powerOfTen (k : Nat) : Float := Float.ofScientific 1 false k

/-- Divides by `10 ^ 308` as long as the exponent asks for more than that. -/
def scaleDown (x : Float) (k : Nat) : Float :=
  if x == 0 then x
  else if k ≤ 308 then x / powerOfTen k
  else scaleDown (x / powerOfTen 308) (k - 308)
termination_by k

/-- The number `n · 10 ^ e`, rounded when `n` is converted and again at each
multiplication or division; nothing where it is too large.  A huge negative
exponent gives zero. -/
def scale? (n : Nat) (e : Int) : Option Double :=
  let x := Float.ofNat n
  if x == 0 then some (ofFloat x)
  else if e < 0 then some (ofFloat (scaleDown x (-e).toNat))
  else if e ≤ 308 then
    let y := ofFloat (x * powerOfTen e.toNat)
    if y.isFinite then some y else none
  else none

end Double

end Switchboard
