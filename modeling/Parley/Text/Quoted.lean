import Parley.Text.Hidden

/-! # Quoted text

  A path in a message stands in double quotes, and whatever would not show as
  itself is escaped: double quotes and backslashes, a few controls by a letter, and
  every other hidden character as its code point in braces.
-/

namespace Parley.Text

/-! ### Quoting -/

/-- A character as its code point. -/
def codePoint (c : Char) : List Char :=
  '\\' :: 'u' :: '\x7b' :: Nat.toDigits 16 c.toNat ++ ['\x7d']

/-- A character inside quotes. -/
def quotedChar (c : Char) : List Char :=
  if c = '\x00' then ['\\', '0']
  else if c = '\t' then ['\\', 't']
  else if c = '\r' then ['\\', 'r']
  else if c = '\n' then ['\\', 'n']
  else if c = '"' ∨ c = '\\' then ['\\', c]
  else if isHidden c then codePoint c
  else [c]

/-- A text in quotes. -/
def quoted (s : String) : String := String.ofList ('"' :: s.toList.flatMap quotedChar ++ ['"'])

end Parley.Text
