import Switchboard.Calendar

/-!
# Dates and times in TOML

A date, a time, or both with an offset from the world's time; seconds may be
left out.

## Main definitions

* `date?`, `time?`, `offset?` — what follows such a part at the front of a text.
* `IsDateTime cs` — the text is a date, a time or both.
-/

namespace Switchboard.Toml.DateTime

open Switchboard.Text.Ascii

/-- What follows a date. -/
def date? (cs : List Char) : Option (List Char) := (Date.scan? cs).map Prod.snd

/-- What follows the fraction of a second, if one is there. -/
def fraction? : List Char → Option (List Char)
  | '.' :: rest => if (rest.takeWhile isDigit).isEmpty then none else some (rest.dropWhile isDigit)
  | cs => some cs

/-- What follows the seconds, if they are there; a minute may have sixty-one. -/
def second? : List Char → Option (List Char)
  | ':' :: rest => do
    let (second, rest) ← Date.digits? 2 rest
    if second ≤ 60 then fraction? rest else none
  | cs => some cs

/-- What follows a time. -/
def time? (cs : List Char) : Option (List Char) := do
  second? (← clock? cs).2

/-- What follows an offset, if one is there. -/
def offset? : List Char → Option (List Char)
  | 'Z' :: rest | 'z' :: rest => some rest
  | '+' :: rest | '-' :: rest => (clock? rest).map Prod.snd
  | cs => some cs

/-- What follows what may come after a date: the end, or a time. -/
def afterDate? : List Char → Option (List Char)
  | 'T' :: rest | 't' :: rest | ' ' :: rest => do offset? (← time? rest)
  | cs => some cs

/-- The text is a date, a time or both. -/
def IsDateTime (cs : List Char) : Prop :=
  (date? cs).bind afterDate? = some [] ∨ time? cs = some []

instance (cs : List Char) : Decidable (IsDateTime cs) :=
  inferInstanceAs (Decidable (_ ∨ _))

end Switchboard.Toml.DateTime
