import Parley.Json.Value
import Parley.Json.Term
import Parley.Number.Digits

/-! # The number that digits denote

  An integer that fits 64 bits is read exactly. Every other number is read into
  floating point **by one multiplication or division**: its digits are gathered
  into a 64-bit significand, digits that no longer fit are only counted, and the
  significand is multiplied or divided by the power of ten that is left over.
  This is within a few units of the nearest number, and the nearest number
  itself for decimals of up to fifteen digits with a small exponent.

  A number too large for the format is refused; one too small is zero. `-0` is
  the negative zero, which no integer is.
-/

namespace Parley.Json

/-! ### The significand -/

/-- Digits gathered so far. -/
structure Gathered where
  /-- The significand. -/
  significand : Nat
  /-- The power of ten it stands for. -/
  exponent : Int
  /-- Whether a digit has been left out. -/
  full : Bool
deriving DecidableEq, Repr

namespace Gathered

/-- Takes a digit before the point; one that does not fit raises the power. -/
def whole (g : Gathered) (d : Nat) : Gathered :=
  if g.full then { g with exponent := g.exponent + 1 }
  else if g.significand * 10 + d < UInt64.size then
    { g with significand := g.significand * 10 + d }
  else { g with exponent := g.exponent + 1, full := true }

/-- Takes a digit after the point; from the first that does not fit all are left
    out. -/
def fraction (g : Gathered) (d : Nat) : Gathered :=
  if g.full then g
  else if g.significand * 10 + d < UInt64.size then
    { g with significand := g.significand * 10 + d, exponent := g.exponent - 1 }
  else { g with full := true }

end Gathered

/-! ### Scaling -/

/-- The greatest power of ten that the format holds. -/
def greatestPower : Nat := 308

/-- The floating-point number nearest to a power of ten. -/
def powerOfTen (n : Nat) : Double := Double.ofInt (Nat.pow 10 n : Int)

/-- Divides by ten to the `n`, by the greatest power first where `n` is larger. -/
def divideByPower (x : Double) (n : Nat) : Double :=
  if n ≤ greatestPower then x.div (powerOfTen n)
  else if x.isZero then x
  else divideByPower (x.div (powerOfTen greatestPower)) (n - greatestPower)
termination_by n
decreasing_by
  have : 0 < greatestPower := by decide
  omega

/-- A significand times a power of ten; nothing if that is too large. -/
def scale? (significand : Nat) (exponent : Int) : Option Double :=
  let x := Double.ofInt significand
  if exponent < 0 then some (divideByPower x (-exponent).toNat)
  else if exponent ≤ greatestPower then
    let y := x.mul (powerOfTen exponent.toNat)
    if y.isFinite then some y else none
  else if x.isZero then some x else none

namespace Lexeme

/-! ### Numbers -/

/-- The greatest exponent that is multiplied out. -/
def exponentLimit : Nat := 2147483647

/-- The significand and exponent of the digits before and after the point. -/
def gathered (n : Lexeme) : Gathered :=
  let whole := n.whole.foldl Gathered.whole { significand := 0, exponent := 0, full := false }
  (n.fraction.getD []).foldl Gathered.fraction { whole with full := false }

/-- The magnitude as a floating-point number. -/
def magnitude? (n : Lexeme) : Option Double :=
  let g := n.gathered
  match n.exponent with
  | none => scale? g.significand g.exponent
  | some (negative, ds) =>
    let e := ofDigits ds
    if exponentLimit < e then
      if g.significand ≠ 0 ∧ negative = false then none else some (Double.ofInt 0)
    else scale? g.significand (if negative then g.exponent - e else g.exponent + e)

/-- The number as an integer, if it is written as one and fits. -/
def integer? (n : Lexeme) : Option Integer :=
  if n.fraction.isSome ∨ n.exponent.isSome then none
  else
    let m : Int := ofDigits n.whole
    if n.negative then
      if h : 0 < m ∧ m ≤ 9223372036854775808 then some ⟨-m, by omega⟩ else none
    else if h : m < 18446744073709551616 then some ⟨m, by omega⟩ else none

/-- The number that the digits denote; nothing if it is too large. -/
def number? (n : Lexeme) : Option Number :=
  match n.integer? with
  | some i => some (.integer i)
  | none =>
    n.magnitude?.bind fun x =>
      let signed := if n.negative then x.neg else x
      if h : signed.isFinite = true then some (.real ⟨signed, h⟩) else none

end Lexeme

end Parley.Json
