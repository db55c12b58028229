/-! # Decimal digits

  The number that decimal digits denote. Digits are gathered in **blocks**: the
  number read so far grows once a block, and not once a digit, so that a long row
  of digits is read in good time.
-/

namespace Parley

/-- A number that is being read: `whole · scale + part`. -/
structure Tally where
  /-- The number before the block under way. -/
  whole : Nat := 0
  /-- The block under way. -/
  part : Nat := 0
  /-- The power of ten that the block under way takes up. -/
  scale : Nat := 1
deriving DecidableEq, Repr

namespace Tally

/-- The power of ten that makes a block full. -/
def fullBlock : Nat := Nat.pow 10 200

/-- The number read so far. -/
def value (t : Tally) : Nat := t.whole * t.scale + t.part

/-- Reads one more digit. -/
def push (t : Tally) (digit : Nat) : Tally :=
  let part := 10 * t.part + digit
  let scale := 10 * t.scale
  if scale < fullBlock then { t with part, scale }
  else { whole := t.whole * scale + part }

/-- One more digit makes ten times as much, and the digit. -/
@[simp] theorem value_push (t : Tally) (digit : Nat) :
    (t.push digit).value = 10 * t.value + digit := by
  have grown : t.whole * (10 * t.scale) = 10 * (t.whole * t.scale) := Nat.mul_left_comm ..
  by_cases h : 10 * t.scale < fullBlock
  · simp only [push, value, h, if_true, grown]
    omega
  · simp only [push, value, h, if_false, grown]
    omega

end Tally

/-- The number that digits denote, the first of them the highest. -/
def ofDigits (digits : List Nat) : Nat := (digits.foldl Tally.push {}).value

/-- The number that digits denote, read digit by digit. -/
theorem ofDigits_eq_foldl (digits : List Nat) :
    ofDigits digits = digits.foldl (fun n digit => 10 * n + digit) 0 := by
  have reads : ∀ (ds : List Nat) (t : Tally),
      (ds.foldl Tally.push t).value = ds.foldl (fun n digit => 10 * n + digit) t.value := by
    intro ds
    induction ds with
    | nil => intro t; rfl
    | cons d ds ih => intro t; simp [ih]
  exact reads digits {}

end Parley
