import Switchboard.Json.Printer

/-!
# Writing JSON for people

Every element and every member stands on a line of its own, two blanks further in
than the brackets around it; an empty array or object stays on one line.

## Main definitions

* `Value.indentedChars depth v` — the text of a value inside `depth` brackets.
* `Value.renderIndented v` — the text of a whole value.
-/

namespace Switchboard.Json

/-- The end of a line and the blanks of the next one, inside `depth` brackets. -/
def lineBreak (depth : Nat) : List Char := '\n' :: List.replicate (2 * depth) ' '

namespace Value

mutual

/-- The text of a value inside `depth` brackets. -/
def indentedChars (depth : Nat) : Value → List Char
  | .null => ['n', 'u', 'l', 'l']
  | .bool true => ['t', 'r', 'u', 'e']
  | .bool false => ['f', 'a', 'l', 's', 'e']
  | .number n => n.render
  | .string s => quote s
  | .array [] => ['[', ']']
  | .array (x :: xs) =>
    '[' :: lineBreak (depth + 1) ++ x.indentedChars (depth + 1) ++ indentedElements depth xs
  | .object [] => ['{', '}']
  | .object ((k, v) :: ms) =>
    '{' :: lineBreak (depth + 1) ++ quote k ++ ':' :: ' ' :: v.indentedChars (depth + 1)
      ++ indentedMembers depth ms

/-- The elements of an array after its first, and the closing bracket. -/
def indentedElements (depth : Nat) : List Value → List Char
  | [] => lineBreak depth ++ [']']
  | x :: xs =>
    ',' :: lineBreak (depth + 1) ++ x.indentedChars (depth + 1) ++ indentedElements depth xs

/-- The members of an object after its first, and the closing brace. -/
def indentedMembers (depth : Nat) : List (String × Value) → List Char
  | [] => lineBreak depth ++ ['}']
  | (k, v) :: ms =>
    ',' :: lineBreak (depth + 1) ++ quote k ++ ':' :: ' ' :: v.indentedChars (depth + 1)
      ++ indentedMembers depth ms

end

/-- The text of a whole value. -/
def renderIndented (v : Value) : String := String.ofList (v.indentedChars 0)

end Value

end Switchboard.Json
