import Switchboard.Json.Number
import Switchboard.Text.Hex

/-!
# Writing JSON

Compact text: no blank between tokens, members in the order of their names,
characters outside ASCII as they are.

## Main definitions

* `escape c` — how a character stands inside a quoted text.
* `Value.render v` — the compact text of a value.
-/

namespace Switchboard.Json

/-- How a character stands inside a quoted text: a quote, a backslash and the
control characters are escaped, in their short form where there is one. -/
def escape (c : Char) : List Char :=
  match c with
  | '"' => ['\\', '"']
  | '\\' => ['\\', '\\']
  | '\x08' => ['\\', 'b']
  | '\x0C' => ['\\', 'f']
  | '\n' => ['\\', 'n']
  | '\r' => ['\\', 'r']
  | '\t' => ['\\', 't']
  | c =>
    if c.toNat < 0x20 then
      ['\\', 'u', '0', '0', Text.Hex.digit (c.toNat / 16), Text.Hex.digit (c.toNat % 16)]
    else [c]

/-- A text between quotes. -/
def quote (s : String) : List Char :=
  '"' :: s.toList.flatMap escape ++ ['"']

namespace Value

mutual

/-- The characters of the compact text of a value. -/
def renderChars : Value → List Char
  | .null => ['n', 'u', 'l', 'l']
  | .bool true => ['t', 'r', 'u', 'e']
  | .bool false => ['f', 'a', 'l', 's', 'e']
  | .number n => n.render
  | .string s => quote s
  | .array [] => ['[', ']']
  | .array (x :: xs) => '[' :: x.renderChars ++ renderElements xs
  | .object [] => ['{', '}']
  | .object ((k, v) :: ms) => '{' :: quote k ++ ':' :: v.renderChars ++ renderMembers ms

/-- The elements of an array after its first, and the closing bracket. -/
def renderElements : List Value → List Char
  | [] => [']']
  | x :: xs => ',' :: x.renderChars ++ renderElements xs

/-- The members of an object after its first, and the closing brace. -/
def renderMembers : List (String × Value) → List Char
  | [] => ['}']
  | (k, v) :: ms => ',' :: quote k ++ ':' :: v.renderChars ++ renderMembers ms

end

/-- The compact text of a value. -/
def render (v : Value) : String := String.ofList v.renderChars

/-- The bytes of the compact text of a value. -/
def renderBytes (v : Value) : Bytes := Text.Utf8.encodeChars v.renderChars

end Value

end Switchboard.Json
