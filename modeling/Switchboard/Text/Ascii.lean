/-!
# ASCII letters

Case is folded for the letters `A` to `Z` alone: header names, protocol names
and file extensions are compared this way, whatever other letters they hold.

## Main definitions

* `lower s`, `upper s` — the text with its ASCII letters in one case.
* `SameLetters a b` — the two texts agree up to the case of ASCII letters.
-/

namespace Switchboard.Text.Ascii

/-- The lower case of an ASCII letter; any other character is kept. -/
def lowerChar (c : Char) : Char :=
  if 'A' ≤ c ∧ c ≤ 'Z' then Char.ofNat (c.toNat + 32) else c

/-- The upper case of an ASCII letter; any other character is kept. -/
def upperChar (c : Char) : Char :=
  if 'a' ≤ c ∧ c ≤ 'z' then Char.ofNat (c.toNat - 32) else c

/-- The text with its ASCII letters in lower case. -/
def lower (s : String) : String :=
  String.ofList (s.toList.map lowerChar)

/-- The text with its ASCII letters in upper case. -/
def upper (s : String) : String :=
  String.ofList (s.toList.map upperChar)

/-- The texts agree up to the case of ASCII letters. -/
def SameLetters (a b : String) : Prop :=
  a.toList.map lowerChar = b.toList.map lowerChar

instance (a b : String) : Decidable (SameLetters a b) :=
  inferInstanceAs (Decidable (_ = _))

/-- An ASCII decimal digit. -/
def isDigit (c : Char) : Bool := '0' ≤ c && c ≤ '9'

/-- An ASCII letter. -/
def isLetter (c : Char) : Bool :=
  ('a' ≤ c && c ≤ 'z') || ('A' ≤ c && c ≤ 'Z')

/-- An ASCII letter or decimal digit. -/
def isAlphanumeric (c : Char) : Bool := isLetter c || isDigit c

/-- The number that a list of decimal digits stands for. -/
def numberOf (cs : List Char) : Nat :=
  cs.foldl (fun n c => 10 * n + (c.toNat - 48)) 0

@[simp] theorem SameLetters.refl (a : String) : SameLetters a a := rfl

theorem SameLetters.symm {a b : String} (h : SameLetters a b) : SameLetters b a :=
  Eq.symm h

theorem SameLetters.trans {a b c : String} (h : SameLetters a b) (k : SameLetters b c) :
    SameLetters a c :=
  Eq.trans h k

end Switchboard.Text.Ascii
