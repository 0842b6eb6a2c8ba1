/-!
# UTF-8

Bytes to characters and back.  One scanner decides what stands at the front of
a byte string; the strict reader refuses where the lossy one writes a
replacement character.

## Main definitions

* `scan b bs` — the character that starts with the byte `b`, or nothing, and
  what follows it.
* `decode? bs` — the characters of a well-formed byte string.
* `decodeLossy bs` — the characters, with one U+FFFD for each maximal part that
  could not be the start of a character.
* `encode s` — the bytes of a text.
-/

namespace Switchboard

/-- A byte string: the body of a message, the content of a file. -/
abbrev Bytes := List UInt8

namespace Text.Utf8

/-- A continuation byte has the form `10xxxxxx`. -/
def isTail (b : UInt8) : Bool := 0x80 ≤ b && b ≤ 0xBF

/-- The six payload bits of a continuation byte. -/
def payload (b : UInt8) : Nat := b.toNat % 64

/-- The range of the second byte after a first byte of a three- or four-byte
form: narrower where the full range would hold overlong forms, surrogates or
numbers above U+10FFFF. -/
def secondRange (b : UInt8) : UInt8 × UInt8 :=
  if b = 0xE0 then (0xA0, 0xBF)
  else if b = 0xED then (0x80, 0x9F)
  else if b = 0xF0 then (0x90, 0xBF)
  else if b = 0xF4 then (0x80, 0x8F)
  else (0x80, 0xBF)

/-- Whether `c` may follow the first byte `b` of a three- or four-byte form. -/
def isSecond (b c : UInt8) : Bool :=
  (secondRange b).1 ≤ c && c ≤ (secondRange b).2

/-- The rest of a three-byte form that starts with `b`. -/
def scanThree (b : UInt8) : Bytes → Option Char × Bytes
  | c :: d :: rest =>
    if isSecond b c then
      if isTail d then
        (some (Char.ofNat (b.toNat % 16 * 4096 + payload c * 64 + payload d)), rest)
      else (none, d :: rest)
    else (none, c :: d :: rest)
  | [c] => if isSecond b c then (none, []) else (none, [c])
  | [] => (none, [])

/-- The rest of a four-byte form that starts with `b`. -/
def scanFour (b : UInt8) : Bytes → Option Char × Bytes
  | c :: d :: e :: rest =>
    if isSecond b c then
      if isTail d then
        if isTail e then
          (some (Char.ofNat (b.toNat % 8 * 262144 + payload c * 4096 + payload d * 64
            + payload e)), rest)
        else (none, e :: rest)
      else (none, d :: e :: rest)
    else (none, c :: d :: e :: rest)
  | [c, d] =>
    if isSecond b c then if isTail d then (none, []) else (none, [d]) else (none, [c, d])
  | [c] => if isSecond b c then (none, []) else (none, [c])
  | [] => (none, [])

/-- The character that starts with the byte `b` and the bytes after it; where
there is none, the bytes after the longest part that began like one. -/
def scan (b : UInt8) (bs : Bytes) : Option Char × Bytes :=
  if b < 0x80 then (some (Char.ofNat b.toNat), bs)
  else if 0xC2 ≤ b && b ≤ 0xDF then
    match bs with
    | c :: rest =>
      if isTail c then (some (Char.ofNat (b.toNat % 32 * 64 + payload c)), rest)
      else (none, c :: rest)
    | [] => (none, [])
  else if 0xE0 ≤ b && b ≤ 0xEF then scanThree b bs
  else if 0xF0 ≤ b && b ≤ 0xF4 then scanFour b bs
  else (none, bs)

theorem length_scanThree_le (b : UInt8) (bs : Bytes) :
    (scanThree b bs).2.length ≤ bs.length := by
  unfold scanThree
  repeat' split
  all_goals simp
  all_goals omega

theorem length_scanFour_le (b : UInt8) (bs : Bytes) :
    (scanFour b bs).2.length ≤ bs.length := by
  unfold scanFour
  repeat' split
  all_goals simp
  all_goals omega

/-- What follows a scanned character is no longer than what followed its first
byte, so every reader that scans on ends. -/
theorem length_scan_le (b : UInt8) (bs : Bytes) : (scan b bs).2.length ≤ bs.length := by
  unfold scan
  split
  · simp
  split
  · split
    · split <;> simp
    · simp
  split
  · exact length_scanThree_le b bs
  split
  · exact length_scanFour_le b bs
  · simp

/-! ### Readers -/

/-- The characters of a well-formed byte string. -/
def decodeChars? : Bytes → Option (List Char)
  | [] => some []
  | b :: bs =>
    have := length_scan_le b bs
    match (scan b bs).1 with
    | some c => (decodeChars? (scan b bs).2).map (c :: ·)
    | none => none
termination_by bs => bs.length
decreasing_by simp; omega

/-- The replacement character U+FFFD. -/
def replacement : Char := '\uFFFD'

/-- The characters of any byte string, with one replacement character for each
maximal part that could not be the start of a character. -/
def decodeCharsLossy : Bytes → List Char
  | [] => []
  | b :: bs =>
    have := length_scan_le b bs
    ((scan b bs).1.getD replacement) :: decodeCharsLossy (scan b bs).2
termination_by bs => bs.length
decreasing_by simp; omega

/-- The text of a well-formed byte string. -/
def decode? (bs : Bytes) : Option String :=
  (decodeChars? bs).map String.ofList

/-- The text of any byte string. -/
def decodeLossy (bs : Bytes) : String :=
  String.ofList (decodeCharsLossy bs)

/-! ### Writer -/

/-- The bytes of a list of characters. -/
def encodeChars (cs : List Char) : Bytes :=
  cs.flatMap String.utf8EncodeChar

/-- The bytes of a text. -/
def encode (s : String) : Bytes :=
  encodeChars s.toList

@[simp] theorem encodeChars_nil : encodeChars [] = [] := rfl

@[simp] theorem encodeChars_cons (c : Char) (cs : List Char) :
    encodeChars (c :: cs) = String.utf8EncodeChar c ++ encodeChars cs := rfl

@[simp] theorem encodeChars_append (cs ds : List Char) :
    encodeChars (cs ++ ds) = encodeChars cs ++ encodeChars ds := by
  simp [encodeChars]

end Text.Utf8

end Switchboard
