import Switchboard.Text.Percent
import Switchboard.Text.Punycode
import Switchboard.Url.Address

/-!
# Hosts in URLs

The host of a URL is a name or a network address.  The names of schemes that the
web knows are folded to lower case and checked; the names of other schemes are
only checked.

## Main definitions

* `Host` — a name or an address.
* `Host.ofSpecial?`, `Host.ofOther?` — the host that a text spells.
* `Host.render` — the text of a host.
-/

namespace Switchboard.Url

/-- The host of a URL. -/
inductive Host where
  /-- A name. -/
  | name (cs : List Char)
  /-- An address of version 4. -/
  | v4 (address : Nat)
  /-- An address of version 6. -/
  | v6 (groups : List Nat)
  deriving DecidableEq, Repr, Inhabited

namespace Host

/-! ### Names -/

/-- A control character of ASCII. -/
def isControl (c : Char) : Bool := c.toNat < 0x20 || c.toNat = 0x7F

/-- The characters that no host may hold. -/
def forbidden : List Char :=
  [' ', '#', '/', ':', '<', '>', '?', '@', '[', '\\', ']', '^', '|']

/-- A mark that joins the characters beside it, or keeps them apart. -/
def isJoiner (c : Char) : Bool := c.toNat = 0x200C || c.toNat = 0x200D

/-- A character that the name of a special host may not hold. -/
def isForbidden (c : Char) : Bool :=
  isControl c || c = '%' || c = Text.Utf8.replacement || isJoiner c || forbidden.contains c

/-- The form in which a character of a name counts: full-width forms as their
ASCII counterparts, other full stops as dots, blanks as the space, and marks
that cannot be seen not at all. -/
def fold (c : Char) : List Char :=
  let n := c.toNat
  if 0xFF01 ≤ n ∧ n ≤ 0xFF5E then [Text.Ascii.lowerChar (Char.ofNat (n - 0xFEE0))]
  else if n = 0x3002 ∨ n = 0xFF61 then ['.']
  else if n = 0xA0 ∨ n = 0x3000 ∨ (0x2000 ≤ n ∧ n ≤ 0x200A) then [' ']
  else if n = 0xAD ∨ n = 0x200B ∨ n = 0x2060 ∨ n = 0xFEFF then []
  else [Text.Ascii.lowerChar c]

/-- Whether a character beyond ASCII may stand behind an ASCII form of a name:
it has to be one that counts as itself. -/
def isPlain (c : Char) : Bool :=
  0x9F < c.toNat && fold c = [c] && !isForbidden c

/-- A part of a name between dots.  One that begins like the ASCII form of
another has to be such a form. -/
def isLabel (cs : List Char) : Bool :=
  match cs with
  | 'x' :: 'n' :: '-' :: '-' :: form =>
    match Text.Punycode.decode? form with
    | some cs =>
      cs.any (0x80 ≤ ·.toNat) && cs.all fun c => c.toNat < 0x80 || isPlain c
    | none => false
  | _ => true

/-- The host of a special scheme that a text without brackets spells. -/
def ofName? (cs : List Char) : Option Host :=
  let bytes := Text.Percent.decodeBytes (Text.Utf8.encodeChars cs)
  let folded := (Text.Utf8.decodeCharsLossy bytes).flatMap fold
  if folded = [] ∨ folded.any isForbidden ∨ (Address.splitAt '.' folded).all isLabel = false then
    none
  else if Address.endsInNumber folded then (Address.v4? folded).map .v4
  else some (.name folded)

/-- What stands between brackets. -/
def inside? (cs : List Char) : Option (List Char) :=
  match cs.reverse with
  | ']' :: inner => some inner.reverse
  | _ => none

/-- The host that a text spells, where `plain` reads one without brackets. -/
def ofChars? (plain : List Char → Option Host) : List Char → Option Host
  | '[' :: cs => do return .v6 (← Address.v6? (← inside? cs))
  | cs => plain cs

/-- The host of a scheme that the web knows. -/
def ofSpecial? (cs : List Char) : Option Host := ofChars? ofName? cs

/-- The host of any other scheme. -/
def ofOther? (cs : List Char) : Option Host :=
  ofChars? (fun cs =>
    if cs.any fun c => c.toNat = 0 || forbidden.contains c then none
    else some (.name (Text.Percent.encodeChars (fun c => !isControl c && c.toNat < 0x7F) cs)))
    cs

/-! ### Texts -/

/-- The digits of a group. -/
def renderGroup (n : Nat) : List Char := Text.Hex.digitsOf n

/-- The text of a host. -/
def render : Host → List Char
  | .name cs => cs
  | .v4 a =>
    ['.'].intercalate ([3, 2, 1, 0].map fun i => Nat.toDigits 10 (a / 256 ^ i % 256))
  | .v6 gs => '[' :: [':'].intercalate (gs.map renderGroup) ++ [']']

@[simp] theorem render_name (cs : List Char) : render (.name cs) = cs := rfl

end Host

end Switchboard.Url
