import Parley.Number.Binary

/-! # Four decimal places

  Floating-point stuffs are written with exactly four decimal places. The exact
  value is rounded to the nearest such decimal, **a tie going to the even last
  digit**; the sign is kept even when all digits are zero. Values that are no
  numbers are `inf`, `-inf` and `NaN`.
-/

namespace Parley

namespace Datum

/-- The decimal digits of a number below ten thousand, padded to four. -/
def fourDigits (n : Nat) : List Char :=
  [n / 1000, n / 100, n / 10, n].map fun d => Char.ofNat (48 + d % 10)

/-- A number with four decimal places. -/
def fixed : Datum → String
  | .nan => "NaN"
  | .infinite negative => if negative then "-inf" else "inf"
  | .finite negative m e =>
    let n :=
      if 0 ≤ e then m * Nat.pow 2 e.toNat * 10000
      else Format.nearest (m * 10000) (Nat.pow 2 (-e).toNat)
    let digits := Nat.toDigits 10 (n / 10000) ++ '.' :: fourDigits (n % 10000)
    String.ofList (if negative then '-' :: digits else digits)

end Datum

/-- A 32-bit number with four decimal places. -/
def Single.fixed (x : Single) : String := x.datum.fixed

/-- A 64-bit number with four decimal places. -/
def Double.fixed (x : Double) : String := x.datum.fixed

end Parley
