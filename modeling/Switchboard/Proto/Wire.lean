import Switchboard.Power
import Switchboard.Text.Utf8

/-!
# The wire format of messages

An encoded message is a list of records, each a field number and a payload.  A
payload is a number, four or eight bytes, a byte string, or a group of further
records between two marks.

## Main definitions

* `varint`, `readVarint?` — numbers in groups of seven bits, lowest first.
* `zigzag`, `fixed` — signed numbers with small absolute values, and numbers of a
  fixed width.
* `Payload` — what a record holds.
* `Payload.write`, `writeRecords` — the bytes of records.
* `readRecords?` — the records of a byte string.
-/

namespace Switchboard.Proto.Wire

/-! ### Numbers -/

/-- A number in groups of seven bits, lowest first; every byte but the last has
its high bit set. -/
def varint (n : Nat) : Bytes :=
  if n < 128 then [UInt8.ofNat n]
  else UInt8.ofNat (n % 128 + 128) :: varint (n / 128)
termination_by n
decreasing_by omega

/-- The number in at most `places` groups at the front, and what follows it. -/
def readGroups? : Nat → Bytes → Option (Nat × Bytes)
  | 0, _ | _ + 1, [] => none
  | places + 1, b :: bs =>
    if b.toNat < 128 then some (b.toNat, bs)
    else
      match readGroups? places bs with
      | some (n, rest) => some (b.toNat - 128 + 128 * n, rest)
      | none => none

/-- The number of sixty-four bits at the front, and what follows it. -/
def readVarint? (bs : Bytes) : Option (Nat × Bytes) :=
  match readGroups? 10 bs with
  | some (n, rest) => if n < 2 ^ 64 then some (n, rest) else none
  | none => none

/-- The natural number that stands for an integer: twice a nonnegative one, one
less than twice the absolute value of a negative one. -/
def zigzag (i : Int) : Nat :=
  if i < 0 then 2 * i.natAbs - 1 else 2 * i.natAbs

/-- The integer that a natural number stands for. -/
def unzigzag (n : Nat) : Int :=
  if n % 2 = 0 then (n / 2 : Nat) else -((n / 2 : Nat) : Int) - 1

/-- A number in the given count of bytes, lowest first. -/
def fixed : (width : Nat) → Nat → Bytes
  | 0, _ => []
  | width + 1, n => UInt8.ofNat (n % 256) :: fixed width (n / 256)

/-- The number that bytes spell, lowest first. -/
def unfixed : Bytes → Nat
  | [] => 0
  | b :: bs => b.toNat + 256 * unfixed bs

/-! ### Records -/

/-- What a record holds. -/
inductive Payload where
  /-- A number of up to sixty-four bits. -/
  | varint (n : Nat)
  /-- Eight bytes as a number. -/
  | fixed64 (n : Nat)
  /-- A byte string. -/
  | bytes (bs : Bytes)
  /-- The records between the marks of a group. -/
  | group (records : List (Nat × Payload))
  /-- Four bytes as a number. -/
  | fixed32 (n : Nat)
  deriving Repr, Inhabited

/-- The field number and the payload of each record. -/
abbrev Records := List (Nat × Payload)

/-- The key in front of a payload: a field number and a code for the form of the
payload. -/
def key (number code : Nat) : Bytes := varint (8 * number + code)

mutual

/-- The bytes of a record. -/
def Payload.write (number : Nat) : Payload → Bytes
  | .varint n => key number 0 ++ Wire.varint n
  | .fixed64 n => key number 1 ++ fixed 8 n
  | .bytes bs => key number 2 ++ Wire.varint bs.length ++ bs
  | .group rs => key number 3 ++ writeRecords rs ++ key number 4
  | .fixed32 n => key number 5 ++ fixed 4 n

/-- The bytes of a list of records. -/
def writeRecords : List (Nat × Payload) → Bytes
  | [] => []
  | (number, p) :: rs => p.write number ++ writeRecords rs

end

@[simp] theorem writeRecords_nil : writeRecords [] = [] := by simp [writeRecords]

@[simp] theorem writeRecords_cons (number : Nat) (p : Payload) (rs : Records) :
    writeRecords ((number, p) :: rs) = p.write number ++ writeRecords rs := by
  simp [writeRecords]

/-! ### Items

A byte string is first cut into items.  The marks of a group are items of their
own, so items are not nested. -/

/-- What one key and what belongs to it say. -/
inductive Item where
  /-- A record that is no group. -/
  | record (number : Nat) (p : Payload)
  /-- The mark that opens a group. -/
  | openGroup (number : Nat)
  /-- The mark that closes a group. -/
  | closeGroup (number : Nat)

/-- The first bytes of a byte string, if it is that long, and the others. -/
def split? (n : Nat) (bs : Bytes) : Option (Bytes × Bytes) :=
  if n ≤ bs.length then some (bs.take n, bs.drop n) else none

/-- What belongs to a key with the given code. -/
def readItem? (number code : Nat) (bs : Bytes) : Option (Item × Bytes) :=
  match code with
  | 0 => (readVarint? bs).map fun (n, rest) => (.record number (.varint n), rest)
  | 1 => (split? 8 bs).map fun (b, rest) => (.record number (.fixed64 (unfixed b)), rest)
  | 2 =>
    (readVarint? bs).bind fun (n, rest) =>
      (split? n rest).map fun (b, rest) => (.record number (.bytes b), rest)
  | 3 => some (.openGroup number, bs)
  | 4 => some (.closeGroup number, bs)
  | 5 => (split? 4 bs).map fun (b, rest) => (.record number (.fixed32 (unfixed b)), rest)
  | _ => none

/-- The item at the front, and what follows it.  A key is below `2 ^ 32`, and its
field number is not zero. -/
def nextItem? (bs : Bytes) : Option (Item × Bytes) :=
  (readVarint? bs).bind fun (n, rest) =>
    if n < 2 ^ 32 ∧ n / 8 ≠ 0 then readItem? (n / 8) (n % 8) rest else none

theorem length_readGroups {places : Nat} {bs : Bytes} {n : Nat} {rest : Bytes}
    (h : readGroups? places bs = some (n, rest)) : rest.length < bs.length := by
  induction places generalizing bs n rest with
  | zero => simp [readGroups?] at h
  | succ places ih =>
    cases bs with
    | nil => simp [readGroups?] at h
    | cons b bs =>
      simp only [readGroups?] at h
      split at h
      · cases h; simp
      · split at h
        · rename_i _ m r hr
          cases h
          have := ih hr
          simp only [List.length_cons]
          omega
        · cases h

theorem length_readVarint {bs : Bytes} {n : Nat} {rest : Bytes}
    (h : readVarint? bs = some (n, rest)) : rest.length < bs.length := by
  simp only [readVarint?] at h
  split at h
  · rename_i hr
    split at h
    · cases h; exact length_readGroups hr
    · cases h
  · cases h

theorem length_split {n : Nat} {bs front rest : Bytes} (h : split? n bs = some (front, rest)) :
    rest.length ≤ bs.length := by
  simp only [split?] at h
  split at h
  · cases h; simp
  · cases h

theorem length_readItem {number code : Nat} {bs : Bytes} {i : Item} {rest : Bytes}
    (h : readItem? number code bs = some (i, rest)) : rest.length ≤ bs.length := by
  unfold readItem? at h
  split at h
  · obtain ⟨⟨n, r⟩, hr, he⟩ := Option.map_eq_some_iff.1 h
    cases he
    exact Nat.le_of_lt (length_readVarint hr)
  · obtain ⟨⟨b, r⟩, hr, he⟩ := Option.map_eq_some_iff.1 h
    cases he
    exact length_split hr
  · obtain ⟨⟨n, r⟩, hr, he⟩ := Option.bind_eq_some_iff.1 h
    obtain ⟨⟨b, s⟩, hs, he⟩ := Option.map_eq_some_iff.1 he
    cases he
    exact Nat.le_trans (length_split hs) (Nat.le_of_lt (length_readVarint hr))
  · cases h; exact Nat.le_refl _
  · cases h; exact Nat.le_refl _
  · obtain ⟨⟨b, r⟩, hr, he⟩ := Option.map_eq_some_iff.1 h
    cases he
    exact length_split hr
  · cases h

/-- An item takes at least one byte. -/
theorem length_nextItem {bs : Bytes} {i : Item} {rest : Bytes}
    (h : nextItem? bs = some (i, rest)) : rest.length < bs.length := by
  obtain ⟨⟨n, r⟩, hr, he⟩ := Option.bind_eq_some_iff.1 h
  dsimp only at he
  split at he
  · exact Nat.lt_of_le_of_lt (length_readItem he) (length_readVarint hr)
  · cases he

/-- The items of a byte string. -/
def items? : Bytes → Option (List Item)
  | [] => some []
  | b :: bs =>
    match _h : nextItem? (b :: bs) with
    | some (i, rest) => (items? rest).map (i :: ·)
    | none => none
termination_by bs => bs.length
decreasing_by exact length_nextItem _h

/-! ### From items to records -/

/-- A group that is not closed yet: the records before it in reverse, and its
number. -/
structure Frame where
  /-- The records in front of the group, last first. -/
  before : Records
  /-- The number on the marks of the group. -/
  number : Nat

/-- What has been read: the records of the innermost group, last first, and the
groups around them. -/
structure State where
  /-- The records so far, last first. -/
  records : Records
  /-- The groups around, the innermost first. -/
  outer : List Frame

/-- The state after an item; groups are nested no deeper than `limit`. -/
def step (limit : Nat) (s : State) : Item → Option State
  | .record number p => some { s with records := (number, p) :: s.records }
  | .openGroup number =>
    if s.outer.length < limit then some ⟨[], ⟨s.records, number⟩ :: s.outer⟩ else none
  | .closeGroup number =>
    match s.outer with
    | frame :: outer =>
      if frame.number = number then
        some ⟨(number, .group s.records.reverse) :: frame.before, outer⟩
      else none
    | [] => none

/-- The records of a byte string whose groups are nested no deeper than
`limit`. -/
def readRecords? (limit : Nat) (bs : Bytes) : Option Records :=
  match (items? bs).bind (·.foldlM (step limit) ⟨[], []⟩) with
  | some ⟨records, []⟩ => some records.reverse
  | _ => none

/-- The numbers of which a byte string consists. -/
def readVarints? : Bytes → Option (List Nat)
  | [] => some []
  | b :: bs =>
    match _h : readVarint? (b :: bs) with
    | some (n, rest) => (readVarints? rest).map (n :: ·)
    | none => none
termination_by bs => bs.length
decreasing_by exact length_readVarint _h

/-- The numbers of the given width of which a byte string consists. -/
def readFixed? (width : Nat) : Bytes → Option (List Nat)
  | [] => some []
  | b :: bs =>
    if 0 < width ∧ width ≤ bs.length + 1 then
      (readFixed? width ((b :: bs).drop width)).map
        (unfixed ((b :: bs).take width) :: ·)
    else none
termination_by bs => bs.length
decreasing_by
  simp only [List.length_drop, List.length_cons]
  omega

end Switchboard.Proto.Wire
