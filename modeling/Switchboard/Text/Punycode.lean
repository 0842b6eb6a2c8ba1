import Switchboard.Text.Ascii

/-!
# Punycode

A name with characters beyond ASCII, written in ASCII alone: its ASCII
characters, a hyphen, and for every other character a number, which says how far
it is from the one before, in code and in place.  The numbers have base 36 and no
marks between them: a digit below the threshold of its place is the last of its
number, and the thresholds follow the size of the numbers so far.

## Main definitions

* `adapt` — the bias of the thresholds after a number.
* `State.step` — what one more digit does.
* `decode?` — the characters that a name stands for.
-/

namespace Switchboard.Text.Punycode

/-! ### Thresholds -/

/-- The value of a digit: the letters come first. -/
def digit? (c : Char) : Option Nat :=
  let c := Ascii.lowerChar c
  if 'a' ≤ c ∧ c ≤ 'z' then some (c.toNat - 97)
  else if '0' ≤ c ∧ c ≤ '9' then some (c.toNat - 22)
  else none

/-- The least digit after which a number goes on; `place` is 36 for the first
digit and grows by 36. -/
def threshold (bias place : Nat) : Nat := max 1 (min 26 (place - bias))

/-- The bias for numbers of a size: about 36 for each further digit. -/
def biasOf (size : Nat) : Nat :=
  if 455 < size then 36 + biasOf (size / 35) else 36 * size / (size + 38)
termination_by size
decreasing_by exact Nat.div_lt_self (by omega) (by omega)

/-- The bias after a number, for a text of `count` characters.  The first number
also says where the characters begin and is much greater than the others. -/
def adapt (first : Bool) (n count : Nat) : Nat :=
  let size := if first then n / 700 else n / 2
  biasOf (size + size / count)

/-! ### Reading -/

/-- What is known after some digits. -/
structure State where
  /-- The characters so far. -/
  chars : List Char
  /-- The code of the latest character that a number gave. -/
  code : Nat := 128
  /-- The place after that character. -/
  next : Nat := 0
  /-- The bias of the thresholds. -/
  bias : Nat := 72
  /-- What the digits of the present number are worth so far. -/
  value : Nat := 0
  /-- What the next digit counts. -/
  weight : Nat := 1
  /-- The place of the next digit. -/
  place : Nat := 36
  deriving DecidableEq, Repr, Inhabited

namespace State

/-- The character at the end of a number goes where the number says. -/
def insert? (s : State) (n : Nat) : Option State :=
  let count := s.chars.length + 1
  let i := s.next + n
  let code := s.code + i / count
  let spot := i % count
  if code.isValidChar then
    some {
      chars := s.chars.take spot ++ Char.ofNat code :: s.chars.drop spot
      code
      next := spot + 1
      bias := adapt (s.next = 0) n count }
  else none

/-- What one more digit does. -/
def step (s : State) (c : Char) : Option State := do
  let d ← digit? c
  let value := s.value + d * s.weight
  let t := threshold s.bias s.place
  if d < t then s.insert? value
  else some { s with value, weight := s.weight * (36 - t), place := s.place + 36 }

end State

/-- The characters that a name stands for. -/
def decode? (cs : List Char) : Option (List Char) := do
  let digits := (cs.reverse.takeWhile (· ≠ '-')).reverse
  let s ← digits.foldlM State.step { chars := cs.take (cs.length - digits.length - 1) }
  -- the last number has an end
  if s.place = 36 then some s.chars else none

end Switchboard.Text.Punycode
