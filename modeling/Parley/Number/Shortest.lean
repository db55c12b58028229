import Parley.Number.Binary

/-! # The fewest digits that read back

  Every number `m · 2 ^ e` is also an exact decimal, because two divides ten.
  So the number, and the ends of the interval of decimals that round to it, are
  whole multiples of one power of ten, and the search for the fewest digits is
  a search in whole numbers: on grids of step `10 ^ j`, from coarse to fine,
  test the two neighbours of the number. The **first grid with a neighbour
  inside the interval** wins, of two such neighbours the nearer, of two equally
  near ones the even.

  The interval holds its ends exactly when `m` is even, because a tie is rounded
  to the even pattern; and below a power of two it is half as wide, because the
  patterns there lie twice as dense.
-/

namespace Parley

namespace Format

/-- A decimal with its digits and the power of ten of the last one. -/
structure Digits where
  /-- The digits, as one number. -/
  value : Nat
  /-- The power of ten of the last digit. -/
  exponent : Int
deriving DecidableEq, Repr

/-- Whether `x` lies in the interval. -/
def within (low high : Nat) (closed : Bool) (x : Nat) : Bool :=
  if closed then low ≤ x ∧ x ≤ high else low < x ∧ x < high

/-- Searches the grids of step `10 ^ j`, `10 ^ (j - 1)`, …, `1` for a decimal in
    the interval around `v`; the answer counts steps of its own grid. -/
def search (low v high : Nat) (closed : Bool) : Nat → Nat × Nat
  | 0 => (v, 0)
  | j + 1 =>
    let step := Nat.pow 10 (j + 1)
    let below := v / step
    let above := below + 1
    let fits := within low high closed
    match fits (below * step), fits (above * step) with
    | true, true =>
      let down := v - below * step
      let up := above * step - v
      if down < up then (below, j + 1)
      else if up < down then (above, j + 1)
      else if below % 2 = 0 then (below, j + 1) else (above, j + 1)
    | true, false => (below, j + 1)
    | false, true => (above, j + 1)
    | false, false => search low v high closed j

/-- The shortest decimal that rounds to the positive number `m · 2 ^ e`. -/
def shortest (f : Format) (m : Nat) (e : Int) : Digits :=
  let gap := if m = Nat.pow 2 f.fractionBits ∧ f.lowest < e then 1 else 2
  let quarter := e - 2
  let factor := if 0 ≤ quarter then Nat.pow 2 quarter.toNat else Nat.pow 5 (-quarter).toNat
  let scale : Int := if 0 ≤ quarter then 0 else quarter
  let v := 4 * m * factor
  let high := (4 * m + 2) * factor
  let (value, j) :=
    search ((4 * m - gap) * factor) v high (m % 2 = 0) (Nat.toDigits 10 high).length
  { value, exponent := scale + j }

end Format

/-! ### Layout -/

/-- How a number is laid out once its digits are chosen. -/
structure Layout where
  /-- The least decimal exponent that is written without one. -/
  lowestPlain : Int
  /-- The greatest decimal exponent that is written without one. -/
  highestPlain : Int

namespace Layout

/-- An exponent with an explicit sign. -/
def exponentPart (e : Int) : List Char :=
  'e' :: (if e < 0 then '-' else '+') :: Nat.toDigits 10 e.natAbs

/-- Lays out digits: plainly with at least one digit on either side of the
    point, or with one digit before the point and an exponent. -/
def chars (layout : Layout) (d : Format.Digits) : List Char :=
  let digits := Nat.toDigits 10 d.value
  let e := d.exponent + digits.length - 1
  if layout.lowestPlain ≤ e ∧ e ≤ layout.highestPlain then
    if 0 ≤ d.exponent then digits ++ List.replicate d.exponent.toNat '0' ++ ['.', '0']
    else if 0 ≤ e then digits.take (e.toNat + 1) ++ '.' :: digits.drop (e.toNat + 1)
    else '0' :: '.' :: List.replicate (-e - 1).toNat '0' ++ digits
  else
    match digits with
    | [c] => c :: exponentPart e
    | c :: rest => c :: '.' :: rest ++ exponentPart e
    | [] => []

end Layout

/-- A finite 64-bit number in the fewest digits that read back. -/
def Double.shortest (layout : Layout) (x : Double) : String :=
  match x.datum with
  | .finite negative m e =>
    let chars := if m = 0 then ['0', '.', '0'] else layout.chars (Format.double.shortest m e)
    String.ofList (if negative then '-' :: chars else chars)
  | .infinite negative => if negative then "-inf" else "inf"
  | .nan => "nan"

end Parley
