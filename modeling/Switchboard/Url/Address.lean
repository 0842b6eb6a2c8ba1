import Switchboard.Power
import Switchboard.Text.Ascii
import Switchboard.Text.Hex

/-!
# Network addresses in URLs

An address of version 4 is one to four numbers between dots, each decimal, octal
or hexadecimal.  An address of version 6 is eight groups of hexadecimal digits
between colons, of which one run of zeros may be left out.

## Main definitions

* `v4? cs` — the address of version 4 that a text spells.
* `v6? cs` — the groups of the address of version 6 that a text spells.
* `endsInNumber cs` — the text has to be an address of version 4.
-/

namespace Switchboard.Url.Address

/-- The pieces between the characters equal to `sep`. -/
def splitAt (sep : Char) : List Char → List (List Char)
  | [] => [[]]
  | c :: cs =>
    if c = sep then [] :: splitAt sep cs
    else
      match splitAt sep cs with
      | [] => [[c]]
      | p :: ps => (c :: p) :: ps

/-! ### Version 4 -/

/-- The value of a digit in a base of at most sixteen. -/
def digit? (base : Nat) (c : Char) : Option Nat :=
  (Text.Hex.value? c).filter fun d => d < base

/-- The number that digits spell in a base; no digits spell zero. -/
def number? (base : Nat) (cs : List Char) : Option Nat :=
  cs.foldlM (fun n c => do return base * n + (← digit? base c)) 0

/-- One number of an address: hexadecimal after `0x`, octal after another
leading zero, decimal otherwise. -/
def part? : List Char → Option Nat
  | [] => none
  | '0' :: 'x' :: ds => number? 16 ds
  | '0' :: 'X' :: ds => number? 16 ds
  | '0' :: d :: ds => number? 8 (d :: ds)
  | ds => number? 10 ds

/-- The pieces of a name without the empty one after a final dot. -/
def labels (cs : List Char) : List (List Char) :=
  let ps := splitAt '.' cs
  if ps.getLast? = some [] then ps.dropLast else ps

/-- Whether the last label of a name is a number, so that the name has to be an
address. -/
def endsInNumber (cs : List Char) : Bool :=
  match (labels cs).getLast? with
  | none => false
  | some [] => false
  | some l => l.all Text.Ascii.isDigit || (part? l).isSome

/-- The address of version 4 that a text spells: the last number fills the bytes
that the others leave. -/
def v4? (cs : List Char) : Option Nat := do
  let ps := labels cs
  if 4 < ps.length then none
  let ns ← ps.mapM part?
  let last ← ns.getLast?
  let front := ns.dropLast
  if front.any (255 < ·) || 256 ^ (4 - front.length) ≤ last then none
  else some (front.zipIdx.foldl (fun a p => a + p.1 * 256 ^ (3 - p.2)) last)

/-! ### Version 6 -/

/-- A group of one to four hexadecimal digits. -/
def group? (cs : List Char) : Option Nat :=
  if cs = [] ∨ 4 < cs.length then none else number? 16 cs

/-- A decimal number below 256 without a leading zero. -/
def byte? (cs : List Char) : Option Nat :=
  match cs with
  | [] => none
  | ['0'] => some 0
  | '0' :: _ => none
  | cs => (number? 10 cs).filter (· < 256)

/-- The two groups of an address of version 4 in dotted decimal form. -/
def embedded? (cs : List Char) : Option (List Nat) := do
  match ← (splitAt '.' cs).mapM byte? with
  | [a, b, c, d] => some [256 * a + b, 256 * c + d]
  | _ => none

/-- The groups between colons; the last may be an address of version 4. -/
def groups? (cs : List Char) : Option (List Nat) := do
  let ps := splitAt ':' cs
  let last ← ps.getLast?
  let front ← ps.dropLast.mapM group?
  if last.contains '.' then return front ++ (← embedded? last)
  else return front ++ [← group? last]

/-- What stands before and after the first double colon. -/
def splitRun : List Char → Option (List Char × List Char)
  | ':' :: ':' :: rest => some ([], rest)
  | c :: rest => (splitRun rest).map fun r => (c :: r.1, r.2)
  | [] => none

/-- The groups between colons, where nothing stands for no groups. -/
def side? (cs : List Char) : Option (List Nat) :=
  if cs = [] then some [] else groups? cs

/-- The eight groups of the address of version 6 that a text spells. -/
def v6? (cs : List Char) : Option (List Nat) := do
  match splitRun cs with
  | none =>
    let gs ← groups? cs
    if gs.length = 8 then some gs else none
  | some (front, back) =>
    if front.contains '.' then none
    let a ← side? front
    let b ← side? back
    if a.length + b.length < 8 then
      some (a ++ List.replicate (8 - a.length - b.length) 0 ++ b)
    else none

end Switchboard.Url.Address
