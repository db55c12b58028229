/-! # Binary floating point

  A binary format is given by two widths, of the exponent field and of the
  fraction field. A pattern of bits then stands for a number `± m · 2 ^ e`, for
  an infinity, or for no number at all.

  Two functions carry everything else:

  - `Format.decode` says what a pattern stands for.
  - `Format.round` is the pattern nearest to a given fraction, a tie going to
    the even pattern; it reaches infinity when the fraction is too large.

  Both work in exact integers, so sums, products and readings of decimals are
  rounded **once**.
-/

namespace Parley

/-- A binary floating-point format. -/
structure Format where
  /-- Width of the exponent field. -/
  exponentBits : Nat
  /-- Width of the fraction field. -/
  fractionBits : Nat

/-- What a pattern of bits stands for. -/
inductive Datum where
  /-- No number. -/
  | nan
  /-- Infinity. -/
  | infinite (negative : Bool)
  /-- The number `± magnitude · 2 ^ exponent`. -/
  | finite (negative : Bool) (magnitude : Nat) (exponent : Int)
deriving DecidableEq, Repr

namespace Format

/-- The format of 32 bits. -/
def single : Format := { exponentBits := 8, fractionBits := 23 }

/-- The format of 64 bits. -/
def double : Format := { exponentBits := 11, fractionBits := 52 }

/-! ### Reading a pattern -/

/-- The exponent of the least positive number. -/
def lowest (f : Format) : Int := 2 - (Nat.pow 2 (f.exponentBits - 1) : Int) - f.fractionBits

/-- The pattern of positive infinity. -/
def infinity (f : Format) : Nat := (Nat.pow 2 f.exponentBits - 1) * Nat.pow 2 f.fractionBits

/-- The value of the sign bit. -/
def signBit (f : Format) : Nat := Nat.pow 2 (f.exponentBits + f.fractionBits)

/-- What a pattern stands for. -/
def decode (f : Format) (bits : Nat) : Datum :=
  let negative := decide (f.signBit ≤ bits)
  let rest := bits % f.signBit
  let field := rest / Nat.pow 2 f.fractionBits
  let fraction := rest % Nat.pow 2 f.fractionBits
  if f.infinity < rest then .nan
  else if rest = f.infinity then .infinite negative
  else if field = 0 then .finite negative fraction f.lowest
  else .finite negative (Nat.pow 2 f.fractionBits + fraction) (f.lowest + (field - 1))

/-! ### Rounding a fraction -/

/-- The quotient nearest to `a / b`, a tie going to the even one. -/
def nearest (a b : Nat) : Nat :=
  let q := a / b
  let r := a % b
  if 2 * r < b then q
  else if b < 2 * r then q + 1
  else if q % 2 = 0 then q else q + 1

/-- The largest `k` with `2 ^ k ≤ num / den`, both positive. -/
def floorLog (num den : Nat) : Int :=
  let k : Int := (num.log2 : Int) - den.log2
  let reached :=
    if 0 ≤ k then den * Nat.pow 2 k.toNat ≤ num else den ≤ num * Nat.pow 2 (-k).toNat
  if reached then k else k - 1

/-- The pattern nearest to the fraction `± num / den`. -/
def round (f : Format) (negative : Bool) (num den : Nat) : Nat :=
  let sign := if negative then f.signBit else 0
  if num = 0 then sign
  else
    let e := max f.lowest (floorLog num den - f.fractionBits)
    let m :=
      if 0 ≤ e then nearest num (den * Nat.pow 2 e.toNat)
      else nearest (num * Nat.pow 2 (-e).toNat) den
    sign + min f.infinity ((e - f.lowest).toNat * Nat.pow 2 f.fractionBits + m)

/-- The pattern nearest to `± num / den · 2 ^ e`. -/
def roundScaled (f : Format) (negative : Bool) (num den : Nat) (e : Int) : Nat :=
  if 0 ≤ e then f.round negative (num * Nat.pow 2 e.toNat) den
  else f.round negative num (den * Nat.pow 2 (-e).toNat)

end Format

/-! ### The two widths in use -/

/-- A number of 32 bits. -/
structure Single where
  /-- The pattern. -/
  bits : UInt32
deriving DecidableEq, Repr

/-- A number of 64 bits. -/
structure Double where
  /-- The pattern. -/
  bits : UInt64
deriving DecidableEq, Repr

/-- What a 32-bit pattern stands for. -/
def Single.datum (x : Single) : Datum := Format.single.decode x.bits.toNat

namespace Double

/-- What a 64-bit pattern stands for. -/
def datum (x : Double) : Datum := Format.double.decode x.bits.toNat

/-- Whether the pattern stands for a number. -/
def isFinite (x : Double) : Bool :=
  match x.datum with
  | .finite .. => true
  | _ => false

/-- Whether the pattern stands for zero. -/
def isZero (x : Double) : Bool := x.bits.toNat % Format.double.signBit = 0

/-- Positive infinity. -/
def infinity : Double := ⟨UInt64.ofNat Format.double.infinity⟩

/-- The number nearest to an integer. -/
def ofInt (n : Int) : Double := ⟨UInt64.ofNat (Format.double.round (n < 0) n.natAbs 1)⟩

/-- The same number with the opposite sign. -/
def neg (x : Double) : Double := ⟨x.bits ^^^ 0x8000000000000000⟩

/-- The rounded product of two finite numbers; of others the first. -/
def mul (x y : Double) : Double :=
  match x.datum, y.datum with
  | .finite s m e, .finite t n k =>
    ⟨UInt64.ofNat (Format.double.roundScaled (s != t) (m * n) 1 (e + k))⟩
  | _, _ => x

/-- The rounded quotient of two finite numbers, the second not zero; of others
    the first. -/
def div (x y : Double) : Double :=
  match x.datum, y.datum with
  | .finite s m e, .finite t n k =>
    if n = 0 then x else ⟨UInt64.ofNat (Format.double.roundScaled (s != t) m n (e - k))⟩
  | _, _ => x

end Double

end Parley
