import Switchboard.Json.Value
import Switchboard.Decimal.Shortest
import Switchboard.Text.Ascii

/-!
# Numbers in JSON text

A number without point and exponent is an integer if it fits sixty-four bits;
every other number is a double.  A double is written with the fewest digits that
read back, positionally where its point stands within sixteen places, and with
an exponent otherwise.

## Main definitions

* `Number.ofParts` — the number of a literal's digits and exponent.
* `Number.render` — the text of a number.
-/

namespace Switchboard.Json

namespace Number

/-! ### Reading -/

/-- Takes up digits as long as the significand stays below `2 ^ 64`; gives the
significand and the number of digits left over. -/
def absorb (significand : Nat) : List Char → Nat × Nat
  | [] => (significand, 0)
  | c :: cs =>
    let next := 10 * significand + (c.toNat - 48)
    if next < 2 ^ 64 then absorb next cs else (significand, cs.length + 1)

/-- The signed double of a scaled significand. -/
def signed (negative : Bool) (significand : Nat) (exponent : Int) : Option Number :=
  (Double.scale? significand exponent).map fun x =>
    .double (if negative then x.neg else x)

/-- The number of a literal with the given sign, digits before the point, digits
after the point and exponent; nothing where it is too large.  Digits beyond the
first that would take the significand to `2 ^ 64` only count as places. -/
def ofParts (negative : Bool) (whole : List Char) (fraction : Option (List Char))
    (exponent : Option Int) : Option Number :=
  let (significand, left) := absorb 0 whole
  match fraction, exponent with
  | none, none =>
    if left ≠ 0 then signed negative significand left
    else if negative = false then some (.int significand)
    else if significand = 0 ∨ 2 ^ 63 < significand then signed true significand 0
    else some (.int (-significand))
  | fraction, exponent =>
    let digits := fraction.getD []
    let (significand, unread) := absorb significand digits
    signed negative significand
      ((left : Int) - ((digits.length - unread : Nat) : Int) + exponent.getD 0)

/-! ### Writing -/

/-- The decimal digits of a natural number. -/
def digitsOf (n : Nat) : List Char := Nat.toDigits 10 n

/-- The text of an integer. -/
def renderInt (i : Int) : List Char :=
  if i < 0 then '-' :: digitsOf i.natAbs else digitsOf i.natAbs

/-- The text of an exponent, which always has its sign. -/
def renderExponent (e : Int) : List Char :=
  (if e < 0 then '-' else '+') :: digitsOf e.natAbs

/-- A decimal is written positionally when its point stands from five places in
front of its first digit to sixteen places after it. -/
def renderDecimal (d : Decimal) : List Char :=
  let ds := digitsOf d.digits
  let n : Int := ds.length
  if n ≤ d.point ∧ d.point ≤ 16 then
    ds ++ List.replicate (d.point - n).toNat '0' ++ ['.', '0']
  else if 0 < d.point ∧ d.point ≤ 16 then
    ds.take d.point.toNat ++ '.' :: ds.drop d.point.toNat
  else if -5 < d.point ∧ d.point ≤ 0 then
    '0' :: '.' :: List.replicate (-d.point).toNat '0' ++ ds
  else
    let mantissa :=
      match ds with
      | [] => []
      | [c] => [c]
      | c :: cs => c :: '.' :: cs
    mantissa ++ 'e' :: renderExponent (d.point - 1)

/-- The text of a finite double. -/
def renderDouble (x : Double) : List Char :=
  let size := if x.isZero then ['0', '.', '0'] else renderDecimal x.shortest
  if x.isNegative then '-' :: size else size

/-- The text of a number. -/
def render : Number → List Char
  | .int i => renderInt i
  | .double x => renderDouble x

@[simp] theorem render_int (i : Int) : render (.int i) = renderInt i := rfl

@[simp] theorem render_double (x : Double) : render (.double x) = renderDouble x := rfl

end Number

end Switchboard.Json
