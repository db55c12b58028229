import Parley.Number.Binary
import Parley.Text.Integer

/-! # Decimals read as floating point

  A decimal is a sign, digits with at most one point among or around them (at
  least one digit in all), and perhaps an exponent: `e` or `E`, a sign, at least
  one digit. Besides these the words `inf`, `infinity` and `nan` are read, in any
  case and with a sign.

  The number read is the one **nearest to the decimal**, a tie going to the even
  pattern. An exponent is far outside every format when it reaches `2 ^ 16`; it
  takes in no more digits then.
-/

namespace Parley

/-- What a text denotes before it is rounded. -/
inductive Decimal where
  /-- No number. -/
  | nan
  /-- Infinity. -/
  | infinite (negative : Bool)
  /-- The number `± digits · 10 ^ exponent`. -/
  | number (negative : Bool) (digits : Nat) (exponent : Int)
deriving DecidableEq, Repr

namespace Decimal

/-! ### The grammar -/

/-- Where an exponent takes in no more digits. -/
def exponentReach : Nat := 65536

/-- The exponent that digits denote. -/
def ofExponentDigits (digits : List Nat) : Nat :=
  digits.foldl (fun e digit => if e < exponentReach then 10 * e + digit else e) 0

/-- Reads the digits of an exponent. -/
def magnitude? (cs : List Char) : Option Nat := (Text.digits? cs).map ofExponentDigits

/-- Reads what may follow the digits: nothing, or an exponent. -/
def exponent? : List Char → Option Int
  | [] => some 0
  | c :: cs =>
    if c = 'e' ∨ c = 'E' then
      match cs with
      | '-' :: ds => (magnitude? ds).map fun n => -(n : Int)
      | '+' :: ds => (magnitude? ds).map fun n => (n : Int)
      | ds => (magnitude? ds).map fun n => (n : Int)
    else none

/-- Reads an unsigned number. -/
def number? (negative : Bool) (cs : List Char) : Option Decimal :=
  let whole := cs.takeWhile Char.isDigit
  let rest := cs.dropWhile Char.isDigit
  let (fraction, rest) :=
    match rest with
    | '.' :: ds => (ds.takeWhile Char.isDigit, ds.dropWhile Char.isDigit)
    | ds => ([], ds)
  if whole = [] ∧ fraction = [] then none
  else
    (exponent? rest).map fun e =>
      .number negative (ofDigits ((whole ++ fraction).map Text.digit)) (e - fraction.length)

/-- Reads a word in any case. -/
def word? (negative : Bool) (cs : List Char) : Option Decimal :=
  let word := cs.map Char.toLower
  if word = "inf".toList ∨ word = "infinity".toList then some (.infinite negative)
  else if word = "nan".toList then some .nan
  else none

/-- Reads a decimal without its sign. -/
def unsigned? (negative : Bool) (cs : List Char) : Option Decimal :=
  (number? negative cs).or (word? negative cs)

/-- Reads a decimal. -/
def read? (s : String) : Option Decimal :=
  match s.toList with
  | '-' :: cs => unsigned? true cs
  | '+' :: cs => unsigned? false cs
  | cs => unsigned? false cs

/-! ### Rounding -/

/-- The pattern of a format nearest to the decimal. -/
def round (f : Format) : Decimal → Nat
  | .nan => f.infinity + Nat.pow 2 (f.fractionBits - 1)
  | .infinite negative => (if negative then f.signBit else 0) + f.infinity
  | .number negative digits exponent =>
    if 0 ≤ exponent then f.round negative (digits * Nat.pow 10 exponent.toNat) 1
    else f.round negative digits (Nat.pow 10 (-exponent).toNat)

end Decimal

/-- The 32-bit number nearest to the decimal that a text denotes. -/
def Single.read? (s : String) : Option Single :=
  (Decimal.read? s).map fun d => ⟨UInt32.ofNat (d.round Format.single)⟩

/-- The 64-bit number nearest to the decimal that a text denotes. -/
def Double.read? (s : String) : Option Double :=
  (Decimal.read? s).map fun d => ⟨UInt64.ofNat (d.round Format.double)⟩

end Parley
