import Switchboard.Decimal.Double

/-!
# The shortest decimal of a double

Among the decimals that read back as a given double, the ones with the fewest
digits are the shortest; of those the nearest to the double is taken.

A positive double is `m · 2 ^ q`, and the reals that round to it form an
interval around it, with its ends when `m` is even.  For one digit, two digits
and so on, the two neighbours of the double on the grid of decimals with that
many digits are tested against the interval in exact arithmetic.  The first
grid with a hit gives the digits: if any point of a grid lies in the interval,
so does one of the two neighbours.

## Main definitions

* `Interval` — a double and its two ends over one denominator.
* `Decimal` — digits and the position of the point.
* `Double.shortest x` — the shortest decimal of the size of `x`.
-/

namespace Switchboard

/-- The number `0.d₁d₂… · 10 ^ point`, with its digits most significant first. -/
structure Decimal where
  /-- The digits as one natural number. -/
  digits : Nat
  /-- The number of places from the front of the digits to the point. -/
  point : Int
  deriving DecidableEq, Repr, Inhabited

namespace Decimal

/-- A value and the ends of the interval that rounds to it, over one
denominator. -/
structure Interval where
  /-- Numerator of the lower end. -/
  low : Nat
  /-- Numerator of the value. -/
  mid : Nat
  /-- Numerator of the upper end. -/
  high : Nat
  /-- The common denominator. -/
  den : Nat
  /-- Whether the ends belong to the interval. -/
  closed : Bool

/-- The interval of the positive double with the given fields.  The lower end is
nearer when the fraction is zero, because the next smaller double is. -/
def Interval.ofFields (exponent fraction : Nat) : Interval :=
  let m := if exponent = 0 then fraction else fraction + 2 ^ 52
  let q : Int := (if exponent = 0 then 1 else (exponent : Int)) - 1075
  let below := if fraction = 0 ∧ 1 < exponent then 1 else 2
  let up := 2 ^ q.toNat
  { low := (4 * m - below) * up
    mid := 4 * m * up
    high := (4 * m + 2) * up
    den := 4 * 2 ^ (-q).toNat
    closed := m % 2 = 0 }

/-- Whether `d · 10 ^ e` lies in the interval. -/
def Interval.holds (i : Interval) (d : Nat) (e : Int) : Bool :=
  let x := d * 10 ^ e.toNat * i.den
  let s := 10 ^ (-e).toNat
  if i.closed then i.low * s ≤ x && x ≤ i.high * s else i.low * s < x && x < i.high * s

/-- The number of places before the point of the interval's value, which may be
negative: `10 ^ (p - 1) ≤ value < 10 ^ p`. -/
def Interval.places (i : Interval) : Int :=
  let e₂ : Int := (Nat.log2 i.mid : Int) - (Nat.log2 i.den : Int)
  let p := (e₂ * 30103).fdiv 100000
  -- `p` is the wanted number, one less than it, or two less.
  let small (k : Int) : Bool := i.mid * 10 ^ (-k).toNat < i.den * 10 ^ k.toNat
  if small p then p else if small (p + 1) then p + 1 else p + 2

/-- The decimal with `n` digits, if one lies in the interval: of the two
neighbours of the value on that grid the nearer, an exact tie going to the even
one. -/
def Interval.withDigits (i : Interval) (p : Int) (n : Nat) : Option Nat :=
  let e := p - n
  let num := i.mid * 10 ^ (-e).toNat
  let den := i.den * 10 ^ e.toNat
  let d := num / den
  let r := num % den
  let up := if 2 * r = den then d % 2 = 1 else den < 2 * r
  match i.holds d e, i.holds (d + 1) e with
  | true, true => some (if up then d + 1 else d)
  | true, false => some d
  | false, true => some (d + 1)
  | false, false => none

/-- The first grid with a decimal in the interval, among `n` digits and up to
`fuel` more; seventeen digits always suffice. -/
def Interval.search (i : Interval) (p : Int) (n : Nat) : Nat → Nat × Nat
  | 0 => ((i.withDigits p n).getD 0, n)
  | fuel + 1 =>
    match i.withDigits p n with
    | some d => (d, n)
    | none => i.search p (n + 1) fuel

/-- The decimal without zeros at the end of its digits. -/
def dropZeros (d : Nat) : Nat :=
  if d = 0 then 0 else if d % 10 = 0 then dropZeros (d / 10) else d
termination_by d

end Decimal

open Decimal in
/-- The shortest decimal that reads back as the size of a finite double other
than zero. -/
def Double.shortest (x : Double) : Decimal :=
  let i := Interval.ofFields x.exponentField x.fractionField
  let p := i.places
  let (d, n) := i.search p 1 16
  -- Rounding up may have carried into a new place.
  { digits := dropZeros d, point := if 10 ^ n ≤ d then p + 1 else p }

end Switchboard
