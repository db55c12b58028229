import Parley.Json.Value
import Parley.Number.Shortest
import Parley.Text.Hex

/-! # Writing JSON values

  There are two forms. The **compact** form has no blanks at all; the **pretty**
  form puts every item and field on a line of its own, indented by two blanks a
  level, with a blank after the colon, and leaves empty arrays and objects
  closed on one line.

  In strings a quote, a backslash and the control characters are escaped, and
  nothing else is.
-/

namespace Parley.Json

/-! ### Scalars -/

/-- Numbers are written plainly when their decimal exponent is from -5 to 15. -/
def numberLayout : Layout := { lowestPlain := -5, highestPlain := 15 }

/-- The text of a number. -/
def Number.chars : Number → List Char
  | .integer n => n.1.repr.toList
  | .real x => (x.1.shortest numberLayout).toList

/-- One character inside a string. -/
def escape (c : Char) : List Char :=
  if c = '"' then ['\\', '"']
  else if c = '\\' then ['\\', '\\']
  else if c = Char.ofNat 8 then ['\\', 'b']
  else if c = Char.ofNat 9 then ['\\', 't']
  else if c = Char.ofNat 10 then ['\\', 'n']
  else if c = Char.ofNat 12 then ['\\', 'f']
  else if c = Char.ofNat 13 then ['\\', 'r']
  else if c.toNat < 0x20 then
    ['\\', 'u', '0', '0', Text.hexDigit (c.toNat / 16), Text.hexDigit (c.toNat % 16)]
  else [c]

/-- A string in quotes. -/
def quoted (s : String) : List Char := '"' :: s.toList.flatMap escape ++ ['"']

/-- The text of a truth value. -/
def boolChars (b : Bool) : List Char := if b then "true".toList else "false".toList

/-! ### The compact form -/

mutual

/-- The compact form of a value. -/
def compactChars : Json → List Char
  | .null => "null".toList
  | .bool b => boolChars b
  | .number n => n.chars
  | .string s => quoted s
  | .array [] => ['[', ']']
  | .array (v :: vs) => '[' :: compactChars v ++ compactItems vs
  | .object [] => ['{', '}']
  | .object ((k, v) :: fs) => '{' :: quoted k ++ ':' :: compactChars v ++ compactFields fs

/-- The items after the first, and the closing bracket. -/
def compactItems : List Json → List Char
  | [] => [']']
  | v :: vs => ',' :: compactChars v ++ compactItems vs

/-- The fields after the first, and the closing brace. -/
def compactFields : List (String × Json) → List Char
  | [] => ['}']
  | (k, v) :: fs => ',' :: quoted k ++ ':' :: compactChars v ++ compactFields fs

end

/-- The compact text of a value. -/
def compact (v : Json) : String := String.ofList (compactChars v)

/-! ### The pretty form -/

/-- A new line at a level of indentation. -/
def newLine (level : Nat) : List Char := '\n' :: List.replicate (2 * level) ' '

mutual

/-- The pretty form of a value at a level of indentation. -/
def prettyChars (level : Nat) : Json → List Char
  | .null => "null".toList
  | .bool b => boolChars b
  | .number n => n.chars
  | .string s => quoted s
  | .array [] => ['[', ']']
  | .array (v :: vs) =>
    '[' :: newLine (level + 1) ++ prettyChars (level + 1) v ++ prettyItems level vs
  | .object [] => ['{', '}']
  | .object ((k, v) :: fs) =>
    '{' :: newLine (level + 1) ++ quoted k ++ ':' :: ' ' :: prettyChars (level + 1) v ++
      prettyFields level fs

/-- The items after the first, and the closing bracket. -/
def prettyItems (level : Nat) : List Json → List Char
  | [] => newLine level ++ [']']
  | v :: vs => ',' :: newLine (level + 1) ++ prettyChars (level + 1) v ++ prettyItems level vs

/-- The fields after the first, and the closing brace. -/
def prettyFields (level : Nat) : List (String × Json) → List Char
  | [] => newLine level ++ ['}']
  | (k, v) :: fs =>
    ',' :: newLine (level + 1) ++ quoted k ++ ':' :: ' ' :: prettyChars (level + 1) v ++
      prettyFields level fs

end

/-- The pretty text of a value. -/
def pretty (v : Json) : String := String.ofList (prettyChars 0 v)

end Parley.Json
