import Parley.Text.Utf8

/-! # Hexadecimal digits

  Bytes are shown as pairs of lowercase hexadecimal digits and read in either
  case.
-/

namespace Parley.Text

/-- The lowercase digit of a value below sixteen. -/
def hexDigit (n : Nat) : Char :=
  if n < 10 then Char.ofNat (48 + n) else Char.ofNat (87 + n)

/-- The value of a hexadecimal digit in either case. -/
def hexValue? (c : Char) : Option Nat :=
  if '0' ≤ c ∧ c ≤ '9' then some (c.toNat - 48)
  else if 'a' ≤ c ∧ c ≤ 'f' then some (c.toNat - 87)
  else if 'A' ≤ c ∧ c ≤ 'F' then some (c.toNat - 55)
  else none

/-- Two digits per byte, the high half first. -/
def hex (bs : Bytes) : String :=
  String.ofList (bs.flatMap fun b => [hexDigit (b.toNat / 16), hexDigit (b.toNat % 16)])

/-- The bytes that pairs of digits denote. -/
def hexBytes? : List Char → Option Bytes
  | [] => some []
  | a :: b :: rest => do
    let high ← hexValue? a
    let low ← hexValue? b
    let bytes ← hexBytes? rest
    some (UInt8.ofNat (high * 16 + low) :: bytes)
  | [_] => none

end Parley.Text
