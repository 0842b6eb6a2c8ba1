import Switchboard.Text.Hex
import Switchboard.Text.Unseen

/-!
# Quoted texts

A text between quotes, as messages for people show it: what could not be seen or
would end the quotation is escaped.

## Main definitions

* `shown c` — how a character stands between quotes.
* `quoted s` — the text between quotes.
-/

namespace Switchboard.Text

/-- The escape that names a character by its number. -/
def numbered (c : Char) : List Char :=
  '\\' :: 'u' :: Char.ofNat 123 :: (Hex.digitsOf c.toNat ++ [Char.ofNat 125])

/-- How a character stands between quotes. -/
def shown (c : Char) : List Char :=
  match c with
  | '"' => ['\\', '"']
  | '\\' => ['\\', '\\']
  | '\n' => ['\\', 'n']
  | '\r' => ['\\', 'r']
  | '\t' => ['\\', 't']
  | '\x00' => ['\\', '0']
  | c => if isUnseen c then numbered c else [c]

/-- The text between quotes. -/
def quoted (s : String) : String :=
  String.ofList ('"' :: s.toList.flatMap shown ++ ['"'])

end Switchboard.Text
