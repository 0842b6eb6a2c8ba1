import Switchboard.Decimal.Literal
import Switchboard.Json.Document
import Switchboard.Toml.DateTime

/-!
# Values in TOML that are not quoted

A word for a truth value, a number, or a date and time.  As a document, a date
and time is an object whose only member holds its text.

## Main definitions

* `integer?`, `float?` — the numbers.
* `scalar?` — the document of an unquoted value.
-/

namespace Switchboard.Toml

open Switchboard.Text.Ascii Switchboard.Json

/-! ### Digits -/

/-- The digits of a text in which single underscores may stand between digits. -/
def plainDigits? (isDigit : Char → Bool) : List Char → Option (List Char)
  | [] => none
  | [c] => if isDigit c then some [c] else none
  | c :: '_' :: rest => if isDigit c then (plainDigits? isDigit rest).map (c :: ·) else none
  | c :: d :: rest =>
    if isDigit c then (plainDigits? isDigit (d :: rest)).map (c :: ·) else none

/-- The digits of a number that has no needless zero in front. -/
def wholeDigits? (cs : List Char) : Option (List Char) := do
  let ds ← plainDigits? isDigit cs
  if ds.head? = some '0' ∧ ds.length ≠ 1 then none else some ds

/-- The number that digits of the given base spell. -/
def numberIn? (base : Nat) (cs : List Char) : Option Nat := do
  let isDigit := fun c => (Switchboard.Text.Hex.value? c).any (· < base)
  let ns ← (← plainDigits? isDigit cs).mapM Switchboard.Text.Hex.value?
  return ns.foldl (fun n d => base * n + d) 0

/-! ### Integers -/

/-- The integer that a text spells: in another base than ten it has no sign. -/
def integer? : List Char → Option Int
  | '0' :: 'x' :: cs => (numberIn? 16 cs).map Int.ofNat
  | '0' :: 'o' :: cs => (numberIn? 8 cs).map Int.ofNat
  | '0' :: 'b' :: cs => (numberIn? 2 cs).map Int.ofNat
  | cs =>
    let (negative, cs) := Literal.sign cs
    (wholeDigits? cs).map fun ds =>
      if negative then -(numberOf ds : Int) else numberOf ds

/-! ### Floating-point numbers -/

/-- A character that may stand in a run of digits. -/
def isRun (c : Char) : Bool := isDigit c || c = '_'

/-- The digits after a point, if a point is there, and what follows them. -/
def fractionDigits? : List Char → Option (List Char × List Char)
  | '.' :: rest =>
    (plainDigits? isDigit (rest.takeWhile isRun)).map fun ds => (ds, rest.dropWhile isRun)
  | cs => some ([], cs)

/-- The number after the letter of an exponent, if the letter is there. -/
def exponentOf? : List Char → Option Int
  | [] => some 0
  | c :: cs =>
    if c = 'e' ∨ c = 'E' then
      let (negative, cs) := Literal.sign cs
      (plainDigits? isDigit cs).map fun ds =>
        if negative then -(numberOf ds : Int) else numberOf ds
    else none

/-- The size of the number that digits with a point or an exponent spell. -/
def floatSize? (cs : List Char) : Option Literal.Size := do
  if cs = "inf".toList then return .infinity
  if cs = "nan".toList then return .nan
  let whole ← wholeDigits? (cs.takeWhile isRun)
  let (fraction, rest) ← fractionDigits? (cs.dropWhile isRun)
  let exponent ← exponentOf? rest
  return .decimal (numberOf (whole ++ fraction)) (exponent - fraction.length)

/-- The floating-point number that a text spells. -/
def float? (cs : List Char) : Option Literal :=
  let (negative, cs) := Literal.sign cs
  (floatSize? cs).map (⟨negative, ·⟩)

/-! ### Documents -/

/-- The document of an integer, which has to fit one hundred and twenty-eight
bits with or without a sign. -/
def ofInteger? (i : Int) : Option Document :=
  if -(2 ^ 127) ≤ i ∧ i < 2 ^ 128 then some (.number (some (.int i))) else none

/-- The document of a floating-point number: infinity and NaN have no value
there, and nothing else may be as large as that. -/
def ofFloat? (l : Literal) : Option Document :=
  match l.size with
  | .nan | .infinity => some (.number none)
  | .decimal .. =>
    let x : Double := ⟨UInt64.ofNat (l.bits .binary64)⟩
    if x.isFinite then some (.number (some (.double x))) else none

/-- The name of the member that holds the text of a date and time. -/
def dateTimeName : String := "$__toml_private_datetime"

/-- The document of an unquoted value. -/
def scalar? (cs : List Char) : Option Document :=
  if cs = "true".toList then some (.bool true)
  else if cs = "false".toList then some (.bool false)
  else if DateTime.IsDateTime cs then
    some (.object [(some dateTimeName, .string (some (String.ofList cs)))])
  else
    match integer? cs with
    | some i => ofInteger? i
    | none => (float? cs).bind ofFloat?

end Switchboard.Toml
