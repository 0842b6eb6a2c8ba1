import Switchboard.Text.Ascii

/-!
# The calendar

Dates of the Gregorian calendar, carried back to the year 1, and the number of
days between them.

## Main definitions

* `Date` — a year, a month and a day.
* `Date.IsValid` — the date is in the calendar.
* `Date.dayNumber`, `Date.ofDayNumber` — days counted from the first of January of
  the year 1.
* `Date.scan?`, `clock?` — readers of dates and of hours and minutes.
-/

namespace Switchboard

open Text.Ascii

/-- A year, a month and a day. -/
structure Date where
  /-- The year. -/
  year : Nat
  /-- The month, from 1. -/
  month : Nat
  /-- The day, from 1. -/
  day : Nat
  deriving DecidableEq, Repr, Inhabited

namespace Date

/-- A year with an extra day. -/
def isLeapYear (year : Nat) : Bool :=
  year % 4 = 0 && (year % 100 ≠ 0 || year % 400 = 0)

/-- The numbers of days in the months of a year. -/
def monthLengths (year : Nat) : List Nat :=
  [31, if isLeapYear year then 29 else 28, 31, 30, 31, 30, 31, 31, 30, 31, 30, 31]

/-- The number of days in a month. -/
def daysIn (year month : Nat) : Nat := (monthLengths year).getD (month - 1) 0

/-- The date is in the calendar. -/
def IsValid (d : Date) : Prop :=
  1 ≤ d.month ∧ d.month ≤ 12 ∧ 1 ≤ d.day ∧ d.day ≤ daysIn d.year d.month

instance (d : Date) : Decidable d.IsValid := inferInstanceAs (Decidable (_ ∧ _))

/-! ### Counting days -/

/-- The days before the first of January of a year. -/
def daysBeforeYear (year : Nat) : Nat :=
  365 * (year - 1) + (year - 1) / 4 - (year - 1) / 100 + (year - 1) / 400

/-- The days before a date, from the first of January of the year 1 on. -/
def dayNumber (d : Date) : Nat :=
  daysBeforeYear d.year + ((monthLengths d.year).take (d.month - 1)).foldl (· + ·) 0 + (d.day - 1)

/-- The month and the day after so many days, given the lengths of the months from
`month` on. -/
def inMonths (month : Nat) : List Nat → Nat → Nat × Nat
  | [], days => (month, days + 1)
  | n :: ns, days => if days < n then (month, days + 1) else inMonths (month + 1) ns (days - n)

/-- The date after so many days.  Four centuries have as many days as any other
four; in them, the last century and in that the last year of four may have a day
more than the others. -/
def ofDayNumber (n : Nat) : Date :=
  let era := n / 146097
  let inEra := n % 146097
  let century := min (inEra / 36524) 3
  let inCentury := inEra - 36524 * century
  let four := inCentury / 1461
  let inFour := inCentury % 1461
  let one := min (inFour / 365) 3
  let year := 400 * era + 100 * century + 4 * four + one + 1
  let (month, day) := inMonths 1 (monthLengths year) (inFour - 365 * one)
  ⟨year, month, day⟩

/-! ### Reading -/

/-- The number that exactly `n` digits at the front spell, and what follows. -/
def digits? (n : Nat) (cs : List Char) : Option (Nat × List Char) :=
  let ds := cs.takeWhile isDigit
  if ds.length = n then some (numberOf ds, cs.dropWhile isDigit) else none

/-- What follows the character `c` at the front. -/
def after? (c : Char) : List Char → Option (List Char)
  | d :: rest => if d = c then some rest else none
  | [] => none

/-- The date at the front, with dashes in it, and what follows. -/
def scan? (cs : List Char) : Option (Date × List Char) := do
  let (year, rest) ← digits? 4 cs
  let (month, rest) ← digits? 2 (← after? '-' rest)
  let (day, rest) ← digits? 2 (← after? '-' rest)
  let d : Date := ⟨year, month, day⟩
  if d.IsValid then some (d, rest) else none

end Date

/-- The minutes of a day that an hour and a minute at the front spell, and what
follows. -/
def clock? (cs : List Char) : Option (Nat × List Char) := do
  let (hour, rest) ← Date.digits? 2 cs
  let (minute, rest) ← Date.digits? 2 (← Date.after? ':' rest)
  if hour ≤ 23 ∧ minute ≤ 59 then some (60 * hour + minute, rest) else none

end Switchboard
