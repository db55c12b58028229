import Parley.Number.Digits

/-! # Integers as text

  An integer is read from an optional sign and at least one decimal digit, and
  nothing else: no blanks, no separators, any number of leading zeros. A `-` is
  no sign of an unsigned integer, not even before zero. Reading into a machine
  word then asks only whether the number lies in the word's range.

  **Writing** gives the canonical text: no leading zeros, a `-` exactly when the
  number is negative.
-/

namespace Parley.Text

/-! ### Reading -/

/-- The digit that a character stands for. -/
def digit (c : Char) : Nat := c.toNat - '0'.toNat

/-- The digits of a text; nothing for no digits, or if some character is no
    digit. -/
def digits? (cs : List Char) : Option (List Nat) :=
  if cs ≠ [] ∧ cs.all Char.isDigit then some (cs.map digit) else none

/-- The number that decimal digits denote. -/
def natural? (cs : List Char) : Option Nat := (digits? cs).map ofDigits

/-- Reads an integer with an optional sign. -/
def signed? (s : String) : Option Int :=
  match s.toList with
  | '-' :: cs => (natural? cs).map fun n => -(n : Int)
  | '+' :: cs => (natural? cs).map fun n => (n : Int)
  | cs => (natural? cs).map fun n => (n : Int)

/-- Reads an integer that may carry a `+` and nothing below zero. -/
def unsigned? (s : String) : Option Nat :=
  match s.toList with
  | '+' :: cs => natural? cs
  | cs => natural? cs

/-- A signed 32-bit integer, if the text denotes one. -/
def int32? (s : String) : Option Int32 :=
  (signed? s).bind fun n =>
    if Int32.minValue.toInt ≤ n ∧ n ≤ Int32.maxValue.toInt then some (Int32.ofInt n) else none

/-- An unsigned 32-bit integer, if the text denotes one. -/
def uint32? (s : String) : Option UInt32 :=
  (unsigned? s).bind fun n => if n < UInt32.size then some (UInt32.ofNat n) else none

/-- A signed 64-bit integer, if the text denotes one. -/
def int64? (s : String) : Option Int64 :=
  (signed? s).bind fun n =>
    if Int64.minValue.toInt ≤ n ∧ n ≤ Int64.maxValue.toInt then some (Int64.ofInt n) else none

/-- An unsigned 64-bit integer, if the text denotes one. -/
def uint64? (s : String) : Option UInt64 :=
  (unsigned? s).bind fun n => if n < UInt64.size then some (UInt64.ofNat n) else none

/-! ### Writing -/

/-- The canonical decimal text of an integer. -/
def decimal (n : Int) : String := n.repr

end Parley.Text
