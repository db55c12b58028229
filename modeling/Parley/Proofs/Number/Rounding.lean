import Mathlib.Algebra.Order.Field.Power
import Mathlib.Data.Rat.Cast.Order
import Mathlib.Tactic.FieldSimp
import Mathlib.Tactic.Linarith
import Mathlib.Tactic.NormNum
import Mathlib.Tactic.Positivity
import Mathlib.Tactic.Ring
import Parley.Number.Binary

/-! # Rounding to a binary format

  A fraction is rounded in whole numbers: its logarithm gives the **last place**, and the fraction
  is then some units of that place, rounded to the nearest integer. Said in rational numbers:

  - `floorLog_spec`: the logarithm is that of the largest power of two not above the fraction.
  - `rounded_closest`: no number that the format holds is nearer to the fraction than the one it
    is rounded to.
  - `decode_round`: the pattern stands for that number, unless the number is too large.

  Patterns are in order: what does not fit into the places of one exponent runs over into the
  next, so the units are added to the exponent field as they are (`decode_units`).
-/

namespace Parley.Format

/-! ## Section 1: The nearest integer -/

/-- `n` is what `q` is rounded to: no integer is nearer, and of two that are as near it is the
    even one. -/
structure Rounds (q : ℚ) (n : Nat) : Prop where
  /-- No more than half a unit lies between them. -/
  half : |q - n| ≤ 1 / 2
  /-- At half a unit the even neighbour is taken. -/
  even : |q - n| = 1 / 2 → n % 2 = 0

theorem rounds_nearest (a : Nat) {b : Nat} (hb : 0 < b) : Rounds (a / b) (nearest a b) := by
  have hb' : (0 : ℚ) < b := by exact_mod_cast hb
  have hdivmod : (a : ℚ) / b = (a / b : Nat) + ((a % b : Nat) : ℚ) / b := by
    have ha : (b : ℚ) * (a / b : Nat) + (a % b : Nat) = a := by exact_mod_cast Nat.div_add_mod a b
    rw [← ha]
    field_simp
  have hlow : 2 * (a % b) < b ↔ ((a % b : Nat) : ℚ) / b < 1 / 2 := by
    rw [div_lt_div_iff₀ hb' two_pos, one_mul, mul_comm]
    exact_mod_cast Iff.rfl
  have hhigh : b < 2 * (a % b) ↔ 1 / 2 < ((a % b : Nat) : ℚ) / b := by
    rw [div_lt_div_iff₀ two_pos hb', one_mul, mul_comm]
    exact_mod_cast Iff.rfl
  have hnonneg : (0 : ℚ) ≤ ((a % b : Nat) : ℚ) / b := by positivity
  have hlt : ((a % b : Nat) : ℚ) / b < 1 := by
    rw [div_lt_one hb']
    exact_mod_cast Nat.mod_lt a hb
  unfold nearest
  dsimp only
  rw [hdivmod]
  simp only [hlow, hhigh]
  generalize a / b = q, ((a % b : Nat) : ℚ) / b = r at hnonneg hlt
  have hdown : |(q : ℚ) + r - q| = r := by rw [add_sub_cancel_left, abs_of_nonneg hnonneg]
  have hup : |(q : ℚ) + r - (q + 1 : Nat)| = 1 - r := by
    rw [Nat.cast_add_one, add_sub_add_left_eq_sub, abs_of_neg (by linarith), neg_sub]
  split_ifs with hbelow habove heven
  · exact ⟨by linarith, fun h => by linarith⟩
  · exact ⟨by linarith, fun h => by linarith⟩
  · exact ⟨by linarith, fun _ => heven⟩
  · exact ⟨by linarith, fun _ => by omega⟩

namespace Rounds

variable {p q : ℚ} {m n : Nat}

/-- An integer is rounded to itself. -/
theorem refl (n : Nat) : Rounds n n := ⟨by norm_num, fun h => by norm_num at h⟩

/-- Different integers are at least one unit apart. -/
theorem one_le_abs_sub (h : m ≠ n) : (1 : ℚ) ≤ |(m : ℚ) - n| := by
  rcases Nat.lt_or_gt_of_ne h with hlt | hgt
  · have hle : (m : ℚ) + 1 ≤ n := by exact_mod_cast hlt
    rw [abs_sub_comm]
    exact le_trans (by linarith) (le_abs_self _)
  · have hle : (n : ℚ) + 1 ≤ m := by exact_mod_cast hgt
    exact le_trans (by linarith) (le_abs_self _)

/-- No integer is nearer. -/
theorem closest (h : Rounds q n) (k : Nat) : |q - n| ≤ |q - k| := by
  by_cases hk : k = n
  · rw [hk]
  · have hapart := one_le_abs_sub hk
    have htriangle := abs_sub_le (k : ℚ) q n
    rw [abs_sub_comm (k : ℚ) q] at htriangle
    linarith [h.half]

/-- **A number is rounded to one integer only.** -/
theorem unique (hm : Rounds q m) (hn : Rounds q n) : m = n := by
  by_contra hne
  have hapart := one_le_abs_sub hne
  have htriangle := abs_sub_le (m : ℚ) q n
  rw [abs_sub_comm (m : ℚ) q] at htriangle
  have hmhalf := hm.half
  have hnhalf := hn.half
  -- both are half a unit away, so both are even and next to one another
  have hmeven := hm.even (by linarith)
  have hneven := hn.even (by linarith)
  have hnext : |(m : ℚ) - n| ≤ 1 := by linarith
  have hnext' : |(m : Int) - n| ≤ 1 := by exact_mod_cast hnext
  rw [abs_le] at hnext'
  omega

/-- What lies no further from the integer is rounded to it as well. -/
theorem of_closer (h : Rounds q n) (hp : |p - n| ≤ |q - n|) : Rounds p n :=
  ⟨hp.trans h.half, fun htie => h.even (le_antisymm h.half (htie ▸ hp))⟩

end Rounds

/-! ## Section 2: Powers of two -/

theorem two_zpow_of_nonneg {e : Int} (h : 0 ≤ e) : (2 : ℚ) ^ e = (Nat.pow 2 e.toNat : Nat) := by
  obtain ⟨n, rfl⟩ := Int.eq_ofNat_of_zero_le h
  rw [zpow_natCast, Int.toNat_natCast]
  exact (Nat.cast_pow 2 n).symm

theorem two_zpow_of_neg {e : Int} (h : ¬0 ≤ e) :
    (2 : ℚ) ^ e = ((Nat.pow 2 (-e).toNat : Nat) : ℚ)⁻¹ := by
  rw [← two_zpow_of_nonneg (by omega), zpow_neg, inv_inv]

theorem two_pow_mul_zpow (n : Nat) (e : Int) : ((2 ^ n : Nat) : ℚ) * 2 ^ e = 2 ^ (n + e) := by
  rw [Nat.cast_pow, Nat.cast_ofNat, ← zpow_natCast, ← zpow_add₀ two_ne_zero]

variable {num den : Nat}

/-- The exponent is reached when the power is. -/
theorem floorLog_reached (num : Nat) (hden : 0 < den) (k : Int) :
    (if 0 ≤ k then den * Nat.pow 2 k.toNat ≤ num else den ≤ num * Nat.pow 2 (-k).toNat) ↔
      (2 : ℚ) ^ k ≤ num / den := by
  have hden' : (0 : ℚ) < den := by exact_mod_cast hden
  rw [le_div_iff₀ hden']
  split_ifs with h
  · rw [two_zpow_of_nonneg h, mul_comm]
    exact_mod_cast Iff.rfl
  · have hpow : (0 : ℚ) < (Nat.pow 2 (-k).toNat : Nat) := by
      exact_mod_cast Nat.two_pow_pos _
    rw [two_zpow_of_neg h, inv_mul_le_iff₀ hpow, mul_comm]
    exact_mod_cast Iff.rfl

/-- **The logarithm is the exponent of the largest power of two** that is not above the
    fraction. -/
theorem floorLog_spec (hnum : 0 < num) (hden : 0 < den) :
    (2 : ℚ) ^ floorLog num den ≤ num / den ∧ (num : ℚ) / den < 2 ^ (floorLog num den + 1) := by
  have hden' : (0 : ℚ) < den := by exact_mod_cast hden
  have hnumlow : (2 : ℚ) ^ num.log2 ≤ num := by exact_mod_cast Nat.log2_self_le hnum.ne'
  have hnumhigh : (num : ℚ) < 2 ^ (num.log2 + 1) := by exact_mod_cast Nat.lt_log2_self
  have hdenlow : (2 : ℚ) ^ den.log2 ≤ den := by exact_mod_cast Nat.log2_self_le hden.ne'
  have hdenhigh : (den : ℚ) < 2 ^ (den.log2 + 1) := by exact_mod_cast Nat.lt_log2_self
  have hlow : (2 : ℚ) ^ ((num.log2 : Int) - den.log2 - 1) ≤ num / den := by
    rw [le_div_iff₀ hden']
    calc (2 : ℚ) ^ ((num.log2 : Int) - den.log2 - 1) * den
        ≤ 2 ^ ((num.log2 : Int) - den.log2 - 1) * 2 ^ (den.log2 + 1) := by gcongr
      _ = 2 ^ num.log2 := by
          rw [← zpow_natCast, ← zpow_natCast, ← zpow_add₀ two_ne_zero]
          congr 1
          push_cast
          ring
      _ ≤ num := hnumlow
  have hhigh : (num : ℚ) / den < 2 ^ ((num.log2 : Int) - den.log2 + 1) := by
    rw [div_lt_iff₀ hden']
    calc (num : ℚ) < 2 ^ (num.log2 + 1) := hnumhigh
      _ = 2 ^ ((num.log2 : Int) - den.log2 + 1) * 2 ^ den.log2 := by
          rw [← zpow_natCast, ← zpow_natCast, ← zpow_add₀ two_ne_zero]
          congr 1
          push_cast
          ring
      _ ≤ 2 ^ ((num.log2 : Int) - den.log2 + 1) * den := by gcongr
  have hreached := floorLog_reached num hden ((num.log2 : Int) - den.log2)
  unfold floorLog
  dsimp only
  by_cases h : (2 : ℚ) ^ ((num.log2 : Int) - den.log2) ≤ num / den
  · rw [if_pos (hreached.2 h)]
    exact ⟨h, hhigh⟩
  · rw [if_neg fun h' => h (hreached.1 h'), sub_add_cancel]
    exact ⟨hlow, not_le.1 h⟩

/-! ## Section 3: The nearest number of a format -/

variable {f : Format}

/-- The numbers that a format could hold if its exponents had no upper end. -/
def Holds (f : Format) (x : ℚ) : Prop :=
  ∃ (m : Nat) (e : Int), m < 2 ^ (f.fractionBits + 1) ∧ f.lowest ≤ e ∧ x = m * 2 ^ e

/-- The exponent of the last place that a fraction is rounded to. -/
def lastPlace (f : Format) (num den : Nat) : Int := max f.lowest (floorLog num den - f.fractionBits)

/-- How many units of the last place a fraction is rounded to. -/
def units (f : Format) (num den : Nat) : Nat :=
  if 0 ≤ f.lastPlace num den then nearest num (den * Nat.pow 2 (f.lastPlace num den).toNat)
  else nearest (num * Nat.pow 2 (-f.lastPlace num den).toNat) den

/-- What a fraction is rounded to. -/
def rounded (f : Format) (num den : Nat) : ℚ := f.units num den * 2 ^ f.lastPlace num den

theorem rounds_units (hden : 0 < den) :
    Rounds (num / den / 2 ^ f.lastPlace num den) (f.units num den) := by
  unfold units
  split_ifs with h
  · rw [two_zpow_of_nonneg h, div_div, ← Nat.cast_mul]
    exact rounds_nearest _ (Nat.mul_pos hden (Nat.two_pow_pos _))
  · rw [two_zpow_of_neg h, div_inv_eq_mul, div_mul_eq_mul_div, ← Nat.cast_mul]
    exact rounds_nearest _ hden

/-- A distance in units of a place. -/
theorem abs_sub_units (x : ℚ) (e : Int) (n : Nat) :
    |x - n * 2 ^ e| = |x / 2 ^ e - n| * 2 ^ e := by
  have hpow : (0 : ℚ) < 2 ^ e := by positivity
  rw [← abs_of_pos hpow, ← abs_mul, abs_of_pos hpow, sub_mul, div_mul_cancel₀ _ hpow.ne']

/-- Above the lowest place the fraction reaches the least number with all its places. -/
theorem two_zpow_le_of_lastPlace (hnum : 0 < num) (hden : 0 < den)
    (h : f.lowest < f.lastPlace num den) :
    (2 : ℚ) ^ (f.fractionBits + f.lastPlace num den) ≤ num / den := by
  have hplace : f.fractionBits + f.lastPlace num den = floorLog num den := by
    unfold lastPlace at h ⊢
    omega
  rw [hplace]
  exact (floorLog_spec hnum hden).1

theorem lt_two_zpow_of_lastPlace (hnum : 0 < num) (hden : 0 < den) :
    (num : ℚ) / den < 2 ^ ((f.fractionBits + 1 : Nat) + f.lastPlace num den) := by
  refine (floorLog_spec hnum hden).2.trans_le (zpow_le_zpow_right₀ one_le_two ?_)
  unfold lastPlace
  push_cast
  omega

theorem rounded_zero (hden : 0 < den) : f.rounded 0 den = 0 := by
  have hrounds : Rounds ((0 : Nat) / den / 2 ^ f.lastPlace 0 den) (f.units 0 den) :=
    rounds_units hden
  rw [Nat.cast_zero, zero_div, zero_div, ← Nat.cast_zero] at hrounds
  unfold rounded
  rw [hrounds.unique (.refl 0), Nat.cast_zero, zero_mul]

/-- No multiple of the last place is nearer to a fraction than what it is rounded to. -/
theorem rounded_closest_grid (f : Format) (num : Nat) (hden : 0 < den) (n : Nat) :
    |(num : ℚ) / den - f.rounded num den| ≤ |(num : ℚ) / den - n * 2 ^ f.lastPlace num den| := by
  have hrounds : Rounds (num / den / 2 ^ f.lastPlace num den) (f.units num den) :=
    rounds_units hden
  unfold rounded
  rw [abs_sub_units, abs_sub_units]
  exact mul_le_mul_of_nonneg_right (hrounds.closest n) (by positivity)

/-- **Nothing that the format holds is nearer** to a fraction than what it is rounded to. -/
theorem rounded_closest (num : Nat) (hden : 0 < den) {x : ℚ} (hx : f.Holds x) :
    |(num : ℚ) / den - f.rounded num den| ≤ |num / den - x| := by
  rcases Nat.eq_zero_or_pos num with rfl | hnum
  · rw [rounded_zero hden, Nat.cast_zero, zero_div, sub_zero, abs_zero]
    exact abs_nonneg _
  obtain ⟨m, e, hm, he, rfl⟩ := hx
  by_cases hplace : f.lastPlace num den ≤ e
  · -- a number of the grid
    obtain ⟨k, rfl⟩ := Int.exists_add_of_le hplace
    have hm : (m : ℚ) * 2 ^ (f.lastPlace num den + k)
        = (m * 2 ^ k : Nat) * 2 ^ f.lastPlace num den := by
      rw [Nat.cast_mul, mul_assoc, two_pow_mul_zpow, add_comm]
    rw [hm]
    exact f.rounded_closest_grid num hden _
  · -- a number below the fraction, and below a number of the grid
    have hbelow : (m : ℚ) * 2 ^ e ≤ 2 ^ (f.fractionBits + f.lastPlace num den) := by
      calc (m : ℚ) * 2 ^ e ≤ (2 ^ (f.fractionBits + 1) : Nat) * 2 ^ e := by
            gcongr
        _ = 2 ^ ((f.fractionBits + 1 : Nat) + e) := two_pow_mul_zpow _ _
        _ ≤ 2 ^ (f.fractionBits + f.lastPlace num den) := by
            refine zpow_le_zpow_right₀ one_le_two ?_
            push_cast
            omega
    have hreached := two_zpow_le_of_lastPlace hnum hden (lt_of_le_of_lt he (not_le.1 hplace))
    have hleast := f.rounded_closest_grid num hden (2 ^ f.fractionBits)
    rw [two_pow_mul_zpow, abs_of_nonneg (sub_nonneg.2 hreached)] at hleast
    refine hleast.trans (le_trans ?_ (le_abs_self _))
    linarith

/-- A number is rounded to at most so many units, one more than the places can hold. -/
theorem units_le (hnum : 0 < num) (hden : 0 < den) :
    f.units num den ≤ 2 ^ (f.fractionBits + 1) := by
  have hrounds : Rounds (num / den / 2 ^ f.lastPlace num den) (f.units num den) :=
    rounds_units hden
  have hlt : (num : ℚ) / den / 2 ^ f.lastPlace num den < (2 ^ (f.fractionBits + 1) : Nat) := by
    rw [div_lt_iff₀ (by positivity), two_pow_mul_zpow]
    exact lt_two_zpow_of_lastPlace hnum hden
  have hhalf := (abs_le.1 hrounds.half).1
  have hle : (f.units num den : ℚ) < (2 ^ (f.fractionBits + 1) : Nat) + 1 := by linarith
  exact Nat.lt_succ_iff.1 (by exact_mod_cast hle)

/-- Above the lowest place the units fill the places. -/
theorem le_units (hnum : 0 < num) (hden : 0 < den) (h : f.lowest < f.lastPlace num den) :
    2 ^ f.fractionBits ≤ f.units num den := by
  have hrounds : Rounds (num / den / 2 ^ f.lastPlace num den) (f.units num den) :=
    rounds_units hden
  have hle : ((2 ^ f.fractionBits : Nat) : ℚ) ≤ num / den / 2 ^ f.lastPlace num den := by
    rw [le_div_iff₀ (by positivity), two_pow_mul_zpow]
    exact two_zpow_le_of_lastPlace hnum hden h
  have hhalf := (abs_le.1 hrounds.half).2
  have hlt : ((2 ^ f.fractionBits : Nat) : ℚ) < f.units num den + 1 := by linarith
  exact Nat.lt_succ_iff.1 (by exact_mod_cast hlt)

/-! ## Section 4: Patterns -/

/-- What all finite numbers of a format lie below. -/
def ceiling (f : Format) : ℚ := 2 ^ 2 ^ (f.exponentBits - 1)

theorem infinity_lt_signBit (f : Format) : f.infinity < f.signBit := by
  have hpos := Nat.two_pow_pos f.exponentBits
  unfold infinity signBit
  rw [Nat.pow_eq, Nat.pow_eq, Nat.pow_eq, Nat.pow_add]
  exact Nat.mul_lt_mul_of_pos_right (by omega) (Nat.two_pow_pos _)

/-- What a pattern below infinity stands for, with either sign. -/
theorem decode_sign (negative : Bool) {pattern : Nat} (hlt : pattern < f.infinity) :
    f.decode ((if negative then f.signBit else 0) + pattern) =
      if pattern / 2 ^ f.fractionBits = 0 then
        .finite negative (pattern % 2 ^ f.fractionBits) f.lowest
      else .finite negative (2 ^ f.fractionBits + pattern % 2 ^ f.fractionBits)
        (f.lowest + ((pattern / 2 ^ f.fractionBits : Nat) - 1)) := by
  have hsign := f.infinity_lt_signBit
  have hrest : ((if negative then f.signBit else 0) + pattern) % f.signBit = pattern := by
    split_ifs
    · rw [Nat.add_mod_left, Nat.mod_eq_of_lt (by omega)]
    · rw [Nat.zero_add, Nat.mod_eq_of_lt (by omega)]
  have hnegative : decide (f.signBit ≤ (if negative then f.signBit else 0) + pattern)
      = negative := by
    cases negative
    · exact decide_eq_false (by simp only [Bool.false_eq_true, if_false]; omega)
    · exact decide_eq_true (by simp only [if_true]; omega)
  unfold decode
  dsimp only
  rw [hrest, hnegative, Nat.pow_eq, if_neg (by omega), if_neg (by omega)]

/-- **The pattern of some units of the `k`-th place stands for as much**, if they fill the places
    or the place is the lowest. -/
theorem decode_units (negative : Bool) {k m : Nat} (hm : m ≤ 2 ^ (f.fractionBits + 1))
    (hk : 0 < k → 2 ^ f.fractionBits ≤ m) (hlt : k * 2 ^ f.fractionBits + m < f.infinity) :
    ∃ m' e, f.decode ((if negative then f.signBit else 0) + (k * 2 ^ f.fractionBits + m)) =
        .finite negative m' e ∧ (m' : ℚ) * 2 ^ e = m * 2 ^ (f.lowest + k) := by
  have hfield : (k * 2 ^ f.fractionBits + m) / 2 ^ f.fractionBits = k + m / 2 ^ f.fractionBits := by
    rw [Nat.add_comm, Nat.add_mul_div_right _ _ (Nat.two_pow_pos _), Nat.add_comm]
  have hfraction : (k * 2 ^ f.fractionBits + m) % 2 ^ f.fractionBits = m % 2 ^ f.fractionBits := by
    rw [Nat.mul_comm, Nat.mul_add_mod]
  rw [decode_sign negative hlt, hfield, hfraction]
  rw [Nat.pow_succ] at hm
  have hdivmod := Nat.div_add_mod m (2 ^ f.fractionBits)
  have hle : m / 2 ^ f.fractionBits ≤ 2 := Nat.div_le_of_le_mul hm
  have hfull : 0 < k → 0 < m / 2 ^ f.fractionBits := fun hpos =>
    Nat.div_pos (hk hpos) (Nat.two_pow_pos _)
  generalize 2 ^ f.fractionBits = full at hm hdivmod hle hfull ⊢
  generalize m / full = q, m % full = r at hdivmod hle hfull ⊢
  obtain rfl | rfl | rfl : q = 0 ∨ q = 1 ∨ q = 2 := by omega
  · -- the places are not filled
    obtain rfl : k = 0 := by omega
    rw [Nat.mul_zero, Nat.zero_add] at hdivmod
    exact ⟨_, _, if_pos rfl, by rw [hdivmod, Nat.cast_zero, add_zero]⟩
  · refine ⟨_, _, if_neg (Nat.succ_ne_zero k), ?_⟩
    rw [Nat.mul_one] at hdivmod
    rw [hdivmod, Nat.cast_add_one, add_sub_cancel_right]
  · -- one unit too many for the places: the next power of two
    refine ⟨_, _, if_neg (Nat.succ_ne_zero _), ?_⟩
    obtain rfl : r = 0 := by omega
    have hplace : f.lowest + ((k + 2 : Nat) - 1 : Int) = f.lowest + k + 1 := by
      push_cast
      ring
    rw [hplace, zpow_add_one₀ two_ne_zero, ← hdivmod, Nat.add_zero, Nat.add_zero, Nat.cast_mul,
      Nat.cast_ofNat, mul_assoc, mul_comm (2 : ℚ)]

/-- The exponent field counts up to twice the ceiling's exponent. -/
theorem infinity_eq (hf : 0 < f.exponentBits) :
    f.infinity = (2 * 2 ^ (f.exponentBits - 1) - 1) * 2 ^ f.fractionBits := by
  unfold infinity
  rw [Nat.pow_eq, Nat.pow_eq, ← Nat.pow_succ', Nat.succ_eq_add_one, Nat.sub_one_add_one hf.ne']

/-- **A pattern that stands for less than the ceiling is finite.** -/
theorem units_lt_infinity (hf : 0 < f.exponentBits) {k m : Nat} (hm : m ≤ 2 ^ (f.fractionBits + 1))
    (hk : 0 < k → 2 ^ f.fractionBits ≤ m) (hlt : (m : ℚ) * 2 ^ (f.lowest + k) < f.ceiling) :
    k * 2 ^ f.fractionBits + m < f.infinity := by
  by_contra hge
  refine absurd hlt (not_lt.2 ?_)
  have hhalf := Nat.two_pow_pos (f.exponentBits - 1)
  have hone := Nat.two_pow_pos f.fractionBits
  rw [infinity_eq hf, not_lt] at hge
  have hfull : 2 ^ f.fractionBits ≤ m := by
    rcases Nat.eq_zero_or_pos k with rfl | hpos
    · exact (Nat.le_mul_of_pos_left _ (by omega)).trans (hge.trans (by omega))
    · exact hk hpos
  -- the units fill `j` places
  obtain ⟨j, hj, hplace⟩ : ∃ j, 2 ^ j ≤ m ∧
      2 * 2 ^ (f.exponentBits - 1) + f.fractionBits ≤ k + j + 2 := by
    rw [Nat.pow_succ] at hm
    rcases Nat.lt_or_ge m (2 ^ f.fractionBits * 2) with hlt | hge'
    · have hfield : (2 * 2 ^ (f.exponentBits - 1) - 1) * 2 ^ f.fractionBits
          < (k + 2) * 2 ^ f.fractionBits := by
        rw [Nat.add_mul]
        omega
      have hfield' := Nat.lt_of_mul_lt_mul_right hfield
      exact ⟨f.fractionBits, hfull, by omega⟩
    · have hfield : (2 * 2 ^ (f.exponentBits - 1) - 1) * 2 ^ f.fractionBits
          ≤ (k + 2) * 2 ^ f.fractionBits := by
        rw [Nat.add_mul]
        omega
      have hfield' := Nat.le_of_mul_le_mul_right hfield hone
      exact ⟨f.fractionBits + 1, hge', by omega⟩
  have hlowest : (2 ^ (f.exponentBits - 1) : Nat) ≤ j + (f.lowest + k) := by
    unfold lowest
    rw [Nat.pow_eq]
    omega
  calc f.ceiling = 2 ^ ((2 ^ (f.exponentBits - 1) : Nat) : Int) := (zpow_natCast _ _).symm
    _ ≤ 2 ^ (j + (f.lowest + k)) := zpow_le_zpow_right₀ one_le_two hlowest
    _ = (2 ^ j : Nat) * 2 ^ (f.lowest + k) := (two_pow_mul_zpow _ _).symm
    _ ≤ m * 2 ^ (f.lowest + k) := by gcongr

/-! ## Section 5: Rounding and decoding -/

/-- **A fraction below the ceiling is rounded to a finite pattern**, which stands for the nearest
    number. -/
theorem decode_round (hf : 0 < f.exponentBits) (negative : Bool) (num : Nat) (hden : 0 < den)
    (hlt : f.rounded num den < f.ceiling) :
    ∃ m e, f.decode (f.round negative num den) = .finite negative m e ∧
      (m : ℚ) * 2 ^ e = f.rounded num den := by
  rcases Nat.eq_zero_or_pos num with rfl | hnum
  · have hpos : 0 * 2 ^ f.fractionBits + 0 < f.infinity := by
      have hhalf := Nat.two_pow_pos (f.exponentBits - 1)
      rw [infinity_eq hf, Nat.zero_mul]
      exact Nat.mul_pos (by omega) (Nat.two_pow_pos _)
    obtain ⟨m, e, hdecode, hvalue⟩ := decode_units negative (Nat.zero_le _) (by omega) hpos
    rw [Nat.zero_mul] at hdecode
    refine ⟨m, e, hdecode, hvalue.trans ?_⟩
    rw [rounded_zero hden, Nat.cast_zero, zero_mul]
  · have hplace : f.lowest + (f.lastPlace num den - f.lowest).toNat = f.lastPlace num den := by
      have hle : f.lowest ≤ f.lastPlace num den := Int.le_max_left _ _
      omega
    have hfull : 0 < (f.lastPlace num den - f.lowest).toNat →
        2 ^ f.fractionBits ≤ f.units num den := fun h => le_units hnum hden (by omega)
    have hunits : f.units num den ≤ 2 ^ (f.fractionBits + 1) := units_le hnum hden
    unfold rounded at hlt ⊢
    rw [← hplace] at hlt ⊢
    have hfinite := units_lt_infinity hf hunits hfull hlt
    have hround : f.round negative num den = (if negative then f.signBit else 0) +
        ((f.lastPlace num den - f.lowest).toNat * 2 ^ f.fractionBits + f.units num den) := by
      rw [← Nat.min_eq_right hfinite.le]
      exact if_neg hnum.ne'
    rw [hround]
    exact decode_units negative hunits hfull hfinite

/-- A pattern takes up the bits of the format. -/
theorem round_lt (f : Format) (negative : Bool) (num den : Nat) :
    f.round negative num den < 2 * f.signBit := by
  have hinfinity := f.infinity_lt_signBit
  unfold round
  dsimp only
  split_ifs <;> omega

/-- The exponent of the greatest numbers. -/
def highest (f : Format) : Int := 2 ^ (f.exponentBits - 1) - 1 - f.fractionBits

/-- What a pattern may stand for: a finite number is some units of a place between the lowest and
    the highest. -/
def Fits (f : Format) : Datum → Prop
  | .finite _ m e => m < 2 ^ (f.fractionBits + 1) ∧ f.lowest ≤ e ∧ e ≤ f.highest
  | _ => True

theorem fits_decode (hf : 1 < f.exponentBits) (bits : Nat) : f.Fits (f.decode bits) := by
  have hone := Nat.two_pow_pos f.fractionBits
  have hhalf : 2 ^ 1 ≤ 2 ^ (f.exponentBits - 1) := Nat.pow_le_pow_right two_pos (by omega)
  have hlowest : f.lowest = 2 - (2 ^ (f.exponentBits - 1) : Nat) - f.fractionBits := rfl
  have hhighest : f.highest = (2 ^ (f.exponentBits - 1) : Nat) - 1 - f.fractionBits := by
    unfold highest
    push_cast
    rfl
  have hfraction := Nat.mod_lt (bits % f.signBit) hone
  unfold decode
  dsimp only
  rw [Nat.pow_eq]
  split_ifs with hnan hinfinite hzero
  · trivial
  · trivial
  · refine ⟨?_, le_rfl, ?_⟩
    · rw [Nat.pow_succ]
      omega
    · omega
  · have hfield : bits % f.signBit / 2 ^ f.fractionBits < 2 * 2 ^ (f.exponentBits - 1) - 1 := by
      rw [Nat.div_lt_iff_lt_mul hone, ← infinity_eq (by omega)]
      omega
    generalize bits % f.signBit / 2 ^ f.fractionBits = field at hfield hzero
    refine ⟨?_, ?_, ?_⟩
    · rw [Nat.pow_succ]
      omega
    · omega
    · omega

/-- What a finite pattern stands for lies a unit of the highest place below the ceiling. -/
theorem add_le_ceiling {m : Nat} {e : Int} (hm : m < 2 ^ (f.fractionBits + 1))
    (he : e ≤ f.highest) : (m : ℚ) * 2 ^ e + 2 ^ f.highest ≤ f.ceiling := by
  have hceiling : f.ceiling = (2 ^ (f.fractionBits + 1) : Nat) * 2 ^ f.highest := by
    rw [two_pow_mul_zpow]
    unfold ceiling highest
    rw [← zpow_natCast]
    congr 1
    push_cast
    ring
  have hm' : (m : ℚ) + 1 ≤ (2 ^ (f.fractionBits + 1) : Nat) := by exact_mod_cast hm
  calc (m : ℚ) * 2 ^ e + 2 ^ f.highest ≤ m * 2 ^ f.highest + 2 ^ f.highest := by
        gcongr
        exact one_le_two
    _ = (m + 1) * 2 ^ f.highest := by ring
    _ ≤ (2 ^ (f.fractionBits + 1) : Nat) * 2 ^ f.highest := by gcongr
    _ = f.ceiling := hceiling.symm

end Parley.Format
