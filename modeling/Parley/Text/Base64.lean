import Parley.Text.Utf8

/-! # Base64

  Bytes as text in the standard alphabet: three bytes are four characters of six
  bits each, and a last group of one or two bytes is padded with `=` to four
  characters.

  **Reading is canonical.** The text must have whole groups, `=` may stand only
  at the end of the last one, and the bits that a short group leaves unused must
  be zero; so every sequence of bytes has exactly one written form.
-/

namespace Parley.Base64

/-! ### The alphabet -/

/-- The character of a six-bit value. -/
def letter (n : Nat) : Char :=
  if n < 26 then Char.ofNat (65 + n)
  else if n < 52 then Char.ofNat (71 + n)
  else if n < 62 then Char.ofNat (n - 4)
  else if n = 62 then '+'
  else '/'

/-- The six-bit value of a character of the alphabet. -/
def value? (c : Char) : Option Nat :=
  let n := c.toNat
  if 65 ≤ n ∧ n ≤ 90 then some (n - 65)
  else if 97 ≤ n ∧ n ≤ 122 then some (n - 71)
  else if 48 ≤ n ∧ n ≤ 57 then some (n + 4)
  else if c = '+' then some 62
  else if c = '/' then some 63
  else none

/-! ### Writing -/

/-- The characters of some bytes, group by group. -/
def encodeChars : Bytes → List Char
  | [] => []
  | [a] =>
    let n := a.toNat
    [letter (n / 4), letter (n % 4 * 16), '=', '=']
  | [a, b] =>
    let n := a.toNat * 256 + b.toNat
    [letter (n / 1024), letter (n / 16 % 64), letter (n % 16 * 4), '=']
  | a :: b :: c :: rest =>
    let n := a.toNat * 65536 + b.toNat * 256 + c.toNat
    letter (n / 262144) :: letter (n / 4096 % 64) :: letter (n / 64 % 64) :: letter (n % 64) ::
      encodeChars rest

/-- The text of some bytes. -/
def encode (bs : Bytes) : String := String.ofList (encodeChars bs)

/-! ### Reading -/

/-- The bytes of whole groups of characters. -/
def decodeChars : List Char → Option Bytes
  | [] => some []
  | [a, b, '=', '='] => do
    let n := (← value? a) * 64 + (← value? b)
    if n % 16 = 0 then some [UInt8.ofNat (n / 16)] else none
  | [a, b, c, '='] => do
    let n := (← value? a) * 4096 + (← value? b) * 64 + (← value? c)
    if n % 4 = 0 then some [UInt8.ofNat (n / 1024), UInt8.ofNat (n / 4)] else none
  | a :: b :: c :: d :: rest => do
    let n := (← value? a) * 262144 + (← value? b) * 4096 + (← value? c) * 64 + (← value? d)
    let tail ← decodeChars rest
    some (UInt8.ofNat (n / 65536) :: UInt8.ofNat (n / 256) :: UInt8.ofNat n :: tail)
  | _ => none

/-- The bytes of a text, if it is the written form of some. -/
def decode? (s : String) : Option Bytes := decodeChars s.toList

end Parley.Base64
