import Mathlib.Data.List.TakeWhile
import Parley.Number.Decimal
import Parley.Number.Fixed
import Parley.Proofs.Number.Rounding

/-! # Four places, read back

  A number is written with four decimal places. The text is no longer the number, but it is read
  back as a number with **the same four places** (`Datum.read?_fixed`): the number that is read is
  the nearest one to the text, so it lies at least as near to it as the number that was written,
  and rounds to the same ten-thousandths. Every 32-bit number is among the 64-bit ones, so that
  holds of both widths.
-/

namespace Parley

/-! ## Section 1: The text -/

namespace Datum

/-- Ten-thousandths with a point. -/
def pointed (n : Nat) : List Char := Nat.toDigits 10 (n / 10000) ++ '.' :: fourDigits (n % 10000)

/-- Ten-thousandths with a point and a sign. -/
def placed (negative : Bool) (n : Nat) : List Char :=
  if negative then '-' :: pointed n else pointed n

/-- How many ten-thousandths a number is rounded to. -/
def places (m : Nat) (e : Int) : Nat :=
  if 0 ≤ e then m * Nat.pow 2 e.toNat * 10000
  else Format.nearest (m * 10000) (Nat.pow 2 (-e).toNat)

theorem fixed_finite (negative : Bool) (m : Nat) (e : Int) :
    (finite negative m e).fixed = String.ofList (placed negative (places m e)) := rfl

theorem rounds_places (m : Nat) (e : Int) :
    Format.Rounds ((m : ℚ) * 2 ^ e * 10000) (places m e) := by
  unfold places
  split_ifs with h
  · rw [Format.two_zpow_of_nonneg h]
    exact_mod_cast Format.Rounds.refl (m * Nat.pow 2 e.toNat * 10000)
  · have hscaled : (m : ℚ) * 2 ^ e * 10000 = (m * 10000 : Nat) / (Nat.pow 2 (-e).toNat : Nat) := by
      rw [Format.two_zpow_of_neg h, Nat.cast_mul, div_eq_mul_inv, mul_right_comm]
      rfl
    rw [hscaled]
    exact Format.rounds_nearest _ (Nat.two_pow_pos _)

/-- The character of a digit. -/
theorem isDigit_digit : ∀ d < 10, (Char.ofNat (48 + d)).isDigit = true ∧
    Text.digit (Char.ofNat (48 + d)) = d := by
  decide

theorem isDigit_of_mem_fourDigits {n : Nat} {c : Char} (h : c ∈ fourDigits n) :
    c.isDigit = true := by
  obtain ⟨d, -, rfl⟩ := List.mem_map.1 h
  exact (isDigit_digit _ (Nat.mod_lt d (by decide))).1

/-- The digits before and after the point denote the ten-thousandths together. -/
theorem ofDigits_placed (n : Nat) : ofDigits
    ((Nat.toDigits 10 (n / 10000) ++ fourDigits (n % 10000)).map Text.digit) = n := by
  have hwhole : ((Nat.toDigits 10 (n / 10000)).map Text.digit).foldl
      (fun n digit => 10 * n + digit) 0 = n / 10000 := by
    rw [List.foldl_map]
    exact Nat.ofDigitChars_ten_toDigits
  have hfour : (fourDigits (n % 10000)).map Text.digit =
      [n % 10000 / 1000 % 10, n % 10000 / 100 % 10, n % 10000 / 10 % 10, n % 10000 % 10] := by
    unfold fourDigits
    rw [List.map_map]
    exact List.map_congr_left fun d _ => (isDigit_digit _ (Nat.mod_lt d (by decide))).2
  rw [ofDigits_eq_foldl, List.map_append, List.foldl_append, hwhole, hfour]
  simp only [List.foldl_cons, List.foldl_nil]
  omega

theorem number?_pointed (negative : Bool) (n : Nat) :
    Decimal.number? negative (pointed n) = some (.number negative n (-4)) := by
  have hwhole : ∀ c ∈ Nat.toDigits 10 (n / 10000), c.isDigit = true := fun c hc =>
    Nat.isDigit_of_mem_toDigits (by decide) (by decide) hc
  have hfour : ∀ c ∈ fourDigits (n % 10000), c.isDigit = true := fun c hc =>
    isDigit_of_mem_fourDigits hc
  have hpoint : ¬Char.isDigit '.' = true := by decide
  unfold Decimal.number? pointed
  dsimp only
  rw [List.takeWhile_append_of_pos hwhole, List.dropWhile_append_of_pos hwhole,
    List.takeWhile_cons_of_neg hpoint, List.dropWhile_cons_of_neg hpoint, List.append_nil]
  have htake : (fourDigits (n % 10000)).takeWhile Char.isDigit = fourDigits (n % 10000) :=
    List.takeWhile_eq_self_iff.2 hfour
  have hdrop : (fourDigits (n % 10000)).dropWhile Char.isDigit = [] :=
    List.dropWhile_eq_nil_iff.2 hfour
  split
  · next ds hds =>
    obtain rfl := (List.cons.inj hds).2
    rw [htake, hdrop, if_neg fun h => Nat.toDigits_ne_nil h.1, ofDigits_placed]
    rfl
  · next hne => exact absurd rfl (hne _)

/-- Ten-thousandths begin with a digit. -/
theorem isDigit_of_pointed {n : Nat} {c : Char} {cs : List Char} (h : pointed n = c :: cs) :
    c.isDigit = true := by
  unfold pointed at h
  cases hdigits : Nat.toDigits 10 (n / 10000) with
  | nil => exact absurd hdigits Nat.toDigits_ne_nil
  | cons d ds =>
    rw [hdigits] at h
    obtain rfl := (List.cons.inj h).1
    exact Nat.isDigit_of_mem_toDigits (by decide) (by decide) (hdigits ▸ List.mem_cons_self)

/-- **The text denotes the ten-thousandths**, exactly. -/
theorem read?_placed (negative : Bool) (n : Nat) :
    Decimal.read? (String.ofList (placed negative n)) = some (.number negative n (-4)) := by
  have hunsigned : Decimal.unsigned? negative (pointed n) = some (.number negative n (-4)) := by
    unfold Decimal.unsigned?
    rw [number?_pointed, Option.some_or]
  unfold Decimal.read? placed
  rw [String.toList_ofList]
  cases negative with
  | true => exact hunsigned
  | false =>
    rw [if_neg Bool.false_ne_true]
    -- a sign is no digit
    split
    · next cs hcs => cases isDigit_of_pointed hcs
    · next cs hcs => cases isDigit_of_pointed hcs
    · exact hunsigned

end Datum

open Datum

/-! ## Section 2: Reading it back -/

/-- Ten-thousandths are rounded as such a fraction. -/
theorem Decimal.round_placed (f : Format) (negative : Bool) (n : Nat) :
    Decimal.round f (.number negative n (-4)) = f.round negative n 10000 := rfl

namespace Format

/-- **Four places of a number of the format are read back as the same four places.** The nearest
    number to the four places is at least as near to them as the number they were taken from. -/
theorem round_places {f : Format} (hf : 0 < f.exponentBits) (negative : Bool) {m : Nat} {e : Int}
    (hheld : f.Holds (m * 2 ^ e)) (hlt : (m : ℚ) * 2 ^ e + 1 ≤ f.ceiling) :
    ∃ m' e', f.decode (Decimal.round f (.number negative (places m e) (-4))) =
      .finite negative m' e' ∧ places m' e' = places m e := by
  have hplaces := rounds_places m e
  have hclosest := f.rounded_closest (places m e) (by decide : 0 < 10000) hheld
  generalize (m : ℚ) * 2 ^ e = x at hplaces hclosest hlt
  generalize places m e = n at hplaces hclosest ⊢
  have hscaled : ∀ y : ℚ, |(n : ℚ) / (10000 : Nat) - y| = |y * 10000 - n| / 10000 := by
    intro y
    have hsub : (n : ℚ) / (10000 : Nat) - y = -((y * 10000 - n) / 10000) := by
      push_cast
      ring
    rw [hsub, abs_neg, abs_div, abs_of_pos (by norm_num : (0 : ℚ) < 10000)]
  rw [hscaled, hscaled, div_le_div_iff_of_pos_right (by norm_num)] at hclosest
  have hbelow : f.rounded n 10000 < f.ceiling := by
    have hhigh := (abs_le.1 (hclosest.trans hplaces.half)).2
    have hlow := (abs_le.1 hplaces.half).1
    linarith
  obtain ⟨m', e', hdecode, hvalue⟩ := f.decode_round hf negative n (by decide) hbelow
  refine ⟨m', e', by rw [Decimal.round_placed]; exact hdecode, ?_⟩
  have hagain := rounds_places m' e'
  rw [hvalue] at hagain
  exact hagain.unique (hplaces.of_closer hclosest)

end Format

theorem Double.datum_ofNat {bits : Nat} (h : bits < UInt64.size) :
    (Double.mk (UInt64.ofNat bits)).datum = Format.double.decode bits := by
  unfold datum
  rw [UInt64.toNat_ofNat_of_lt' h]

/-- Whether a datum is a number. -/
def Datum.isFinite : Datum → Bool
  | .finite .. => true
  | _ => false

/-- **Four places are read back as a 64-bit number with the same four places**; what is no number
    is read back as none. -/
theorem Datum.read?_fixed {d : Datum} (h : Format.double.Fits d) :
    ∃ y, Double.read? d.fixed = some y ∧ y.datum.isFinite = d.isFinite ∧ y.fixed = d.fixed := by
  cases d with
  | nan => exact ⟨_, rfl, by decide +kernel, by decide +kernel⟩
  | infinite negative =>
    cases negative with
    | false => exact ⟨_, rfl, by decide +kernel, by decide +kernel⟩
    | true => exact ⟨_, rfl, by decide +kernel, by decide +kernel⟩
  | finite negative m e =>
    obtain ⟨hm, hlow, hhigh⟩ := h
    have hunit : (1 : ℚ) ≤ 2 ^ Format.double.highest := one_le_zpow₀ one_le_two (by decide)
    have hceiling := Format.add_le_ceiling hm hhigh
    obtain ⟨m', e', hdecode, hplaces⟩ := Format.round_places (by decide) negative
      ⟨m, e, hm, hlow, rfl⟩ (by linarith)
    have hsize : 2 * Format.double.signBit = UInt64.size := by decide
    have hround : Decimal.round Format.double (.number negative (places m e) (-4))
        < UInt64.size := by
      rw [Decimal.round_placed, ← hsize]
      exact Format.double.round_lt negative _ _
    have hdatum := (Double.datum_ofNat hround).trans hdecode
    have hread : Double.read? (finite negative m e).fixed = some
        ⟨UInt64.ofNat (Decimal.round Format.double (.number negative (places m e) (-4)))⟩ := by
      unfold Double.read?
      rw [fixed_finite, read?_placed]
      rfl
    refine ⟨_, hread, ?_, ?_⟩
    · rw [hdatum]
      rfl
    · unfold Double.fixed
      rw [hdatum, fixed_finite, fixed_finite, hplaces]

theorem Double.fits_datum (x : Double) : Format.double.Fits x.datum :=
  Format.fits_decode (by decide) _

theorem Single.fits_datum (x : Single) : Format.double.Fits x.datum := by
  have hfits : Format.single.Fits x.datum := Format.fits_decode (by decide) _
  cases hdatum : x.datum with
  | nan => trivial
  | infinite negative => trivial
  | finite negative m e =>
    rw [hdatum] at hfits
    obtain ⟨hm, hlow, hhigh⟩ := hfits
    have hplaces : 2 ^ (Format.single.fractionBits + 1) ≤ 2 ^ (Format.double.fractionBits + 1) := by
      decide
    have hlowest : Format.double.lowest ≤ Format.single.lowest := by decide
    have hhighest : Format.single.highest ≤ Format.double.highest := by decide
    exact ⟨hm.trans_le hplaces, hlowest.trans hlow, hhigh.trans hhighest⟩

end Parley
