import Switchboard.Calendar
import Switchboard.Json.Number

/-!
# Moments, durations and paths as texts

The texts that stand in JSON for a moment in the world's time, for a duration in
seconds, and for the path of a field.

## Main definitions

* `Moment` — seconds and nanoseconds.
* `Moment.ofTimestamp?`, `Moment.timestamp?` — a date and a time of day.
* `Moment.ofDuration?`, `Moment.duration?` — a number of seconds.
* `pathOfText?`, `textOfPath?` — a path of field names.
-/

namespace Switchboard.Proto

open Text.Ascii

/-- Seconds and nanoseconds, counted from 1970 or from no moment at all. -/
structure Moment where
  /-- Whole seconds. -/
  seconds : Int
  /-- Nanoseconds besides. -/
  nanos : Int
  deriving DecidableEq, Repr, Inhabited

namespace Moment

/-! ### Digits -/

/-- The digits of a number with zeros in front, at least `width` of them. -/
def padded (width n : Nat) : List Char :=
  let ds := Json.Number.digitsOf n
  List.replicate (width - ds.length) '0' ++ ds

/-- A fraction of a second with three, six or nine digits, or none at all. -/
def fractionText (nanos : Nat) : List Char :=
  if nanos = 0 then []
  else if nanos % 1000000 = 0 then '.' :: padded 3 (nanos / 1000000)
  else if nanos % 1000 = 0 then '.' :: padded 6 (nanos / 1000)
  else '.' :: padded 9 nanos

/-- The nanoseconds of a fraction, if one is there, and what follows it. -/
def fraction? : List Char → Option (Nat × List Char)
  | '.' :: rest =>
    let ds := rest.takeWhile isDigit
    if ds ≠ [] ∧ ds.length ≤ 9 then
      some (numberOf ds * 10 ^ (9 - ds.length), rest.dropWhile isDigit)
    else none
  | cs => some (0, cs)

/-! ### Moments -/

/-- The days from the year 1 to 1970. -/
def epochDay : Int := 719162

/-- A moment of the years 1 to 9999. -/
def isTimestamp (m : Moment) : Bool :=
  -62135596800 ≤ m.seconds && m.seconds ≤ 253402300799 && 0 ≤ m.nanos && m.nanos ≤ 999999999

/-- The seconds by which an offset is ahead of the world's time, at the end of a
text; an offset of nothing is not written with a minus sign. -/
def offset? : List Char → Option Int
  | ['Z'] => some 0
  | '+' :: rest => do
    let (minutes, rest) ← clock? rest
    if rest = [] then some (60 * minutes) else none
  | '-' :: rest => do
    let (minutes, rest) ← clock? rest
    if rest = [] ∧ minutes ≠ 0 then some (-(60 * minutes : Nat)) else none
  | _ => none

/-- The moment that a date and a time of day spell. -/
def ofTimestamp? (cs : List Char) : Option Moment := do
  let (date, rest) ← Date.scan? cs
  let (minutes, rest) ← clock? (← Date.after? 'T' rest)
  let (second, rest) ← Date.digits? 2 (← Date.after? ':' rest)
  let (nanos, rest) ← fraction? rest
  let offset ← offset? rest
  let days : Int := date.dayNumber - epochDay
  let m : Moment := ⟨86400 * days + 60 * minutes + second - offset, nanos⟩
  if second ≤ 59 ∧ 1 ≤ date.year ∧ m.isTimestamp then some m else none

/-- The date and the time of day of a moment. -/
def timestamp? (m : Moment) : Option String :=
  if m.isTimestamp then
    let date := Date.ofDayNumber (m.seconds.fdiv 86400 + epochDay).toNat
    let second := (m.seconds.fmod 86400).toNat
    some (String.ofList (padded 4 date.year ++ '-' :: padded 2 date.month ++ '-' ::
      padded 2 date.day ++ 'T' :: padded 2 (second / 3600) ++ ':' ::
      padded 2 (second / 60 % 60) ++ ':' :: padded 2 (second % 60) ++
      fractionText m.nanos.toNat ++ ['Z']))
  else none

/-! ### Durations -/

/-- A duration of at most ten thousand years, in which seconds and nanoseconds have
the same sign. -/
def isDuration (m : Moment) : Bool :=
  m.seconds.natAbs ≤ 315576000000 && m.nanos.natAbs ≤ 999999999 && 0 ≤ m.seconds * m.nanos

/-- The duration that a number of seconds spells. -/
def ofDuration? (cs : List Char) : Option Moment := do
  let (negative, cs) :=
    match cs with
    | '-' :: rest => (true, rest)
    | rest => (false, rest)
  let ds := cs.takeWhile isDigit
  let (nanos, rest) ← fraction? (cs.dropWhile isDigit)
  let seconds : Int := numberOf ds
  let m : Moment := if negative then ⟨-seconds, -(nanos : Int)⟩ else ⟨seconds, nanos⟩
  if ds ≠ [] ∧ rest = ['s'] ∧ m.isDuration then some m else none

/-- The number of seconds of a duration. -/
def duration? (m : Moment) : Option String :=
  if m.isDuration then
    let sign := if m.seconds < 0 ∨ m.nanos < 0 then ['-'] else []
    some (String.ofList (sign ++ Json.Number.digitsOf m.seconds.natAbs ++
      fractionText m.nanos.natAbs ++ ['s']))
  else none

end Moment

/-! ### Paths -/

/-- A declared name from a name in which capital letters begin words. -/
def declared? : List Char → Option (List Char)
  | [] => some []
  | c :: cs =>
    if c = '_' then none
    else if 'A' ≤ c ∧ c ≤ 'Z' then (declared? cs).map fun r => '_' :: lowerChar c :: r
    else (declared? cs).map (c :: ·)

/-- A name in which capital letters begin words, from a declared name that can be
told from it. -/
def capitalized? : List Char → Option (List Char)
  | [] => some []
  | '_' :: c :: cs =>
    if 'a' ≤ c ∧ c ≤ 'z' then (capitalized? cs).map (upperChar c :: ·) else none
  | c :: cs =>
    if c = '_' ∨ ('A' ≤ c ∧ c ≤ 'Z') then none else (capitalized? cs).map (c :: ·)

/-- The paths that a text spells, with commas between them. -/
def pathsOfText? (s : String) : Option (List String) :=
  if s = "" then some []
  else (s.splitOn ",").mapM fun path => (declared? path.toList).map String.ofList

/-- The text of paths, with commas between them. -/
def textOfPaths? (paths : List String) : Option String :=
  (paths.mapM fun path => (capitalized? path.toList).map String.ofList).map (",".intercalate ·)

end Switchboard.Proto
