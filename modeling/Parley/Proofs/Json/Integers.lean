import Parley.Json.Magnitude
import Parley.Json.Printer
import Parley.Proofs.Json.Quoted
import Parley.Proofs.Text.ReadBack

/-! # Integers, read back

  An integer is written as its decimal digits, with a `-` in front of what is below zero and
  without a needless zero. It is read back in two ways that share no code: as the **text** of
  a literal, and as a **number** of JSON.
-/

namespace Parley

/-! ## Section 1: Decimal text with a sign -/

namespace Text

/-- What is above zero is written without a zero in front. -/
theorem head?_toDigits {n : Nat} (h : 0 < n) : (Nat.toDigits 10 n).head? ≠ some '0' := by
  induction n using Nat.strongRecOn with
  | ind n ih =>
    by_cases hn : n < 10
    · have hdigit : ∀ n < 10, 0 < n → Nat.digitChar n ≠ '0' := by decide
      rw [Nat.toDigits_of_lt_base hn]
      intro heq
      exact hdigit n hn h (Option.some.inj heq)
    · have hrest := ih (n / 10) (by omega) (by omega)
      rw [Nat.toDigits_of_base_le (by decide) (by omega), List.head?_append]
      cases hdigits : Nat.toDigits 10 (n / 10) with
      | nil => exact absurd hdigits Nat.toDigits_ne_nil
      | cons c cs =>
        rw [hdigits] at hrest
        exact hrest

/-- The characters of an integer. -/
theorem toList_repr (n : Int) :
    n.repr.toList =
      if n < 0 then '-' :: Nat.toDigits 10 n.natAbs else Nat.toDigits 10 n.natAbs := by
  rw [Int.repr_eq_if]
  by_cases hn : n < 0
  · have hsign : "-".toList = ['-'] := rfl
    rw [if_neg (by omega), if_pos hn, String.toList_append, Nat.repr_eq_ofList_toDigits, hsign,
      String.toList_ofList, show (-n).toNat = n.natAbs by omega]
    rfl
  · rw [if_pos (by omega), if_neg hn, Nat.repr_eq_ofList_toDigits, String.toList_ofList,
      show n.toNat = n.natAbs by omega]

/-- **Decimal text denotes the integer that it was written for.** -/
theorem signed?_decimal (n : Int) : signed? (decimal n) = some n := by
  have hlist := toList_repr n
  unfold signed? decimal
  by_cases hn : n < 0
  · rw [if_pos hn] at hlist
    rw [hlist]
    show ((natural? (Nat.toDigits 10 n.natAbs)).bind fun m => some (m : Int)).map
      (fun m => -m) = some n
    rw [natural?_toDigits]
    show some (-(n.natAbs : Int)) = some n
    congr 1
    omega
  · rw [if_neg hn] at hlist
    have hdigit : ∀ c ∈ n.repr.toList, c.isDigit = true := by
      intro c hc
      rw [hlist] at hc
      exact Nat.isDigit_of_mem_toDigits (by decide) (by decide) hc
    -- a sign is no digit
    split
    · next cs hcs => cases hdigit '-' (hcs ▸ List.mem_cons_self)
    · next cs hcs => cases hdigit '+' (hcs ▸ List.mem_cons_self)
    · rw [hlist, natural?_toDigits]
      show some (n.natAbs : Int) = some n
      congr 1
      omega

theorem int64?_decimal {n : Int} (hlow : Int64.minValue.toInt ≤ n)
    (hhigh : n ≤ Int64.maxValue.toInt) : int64? (decimal n) = some (Int64.ofInt n) := by
  unfold int64?
  rw [signed?_decimal, Option.bind_some, if_pos ⟨hlow, hhigh⟩]

end Text

/-! ## Section 2: Numbers of JSON -/

namespace Json

open Ascii

namespace Term

/-- What follows does not go on with a number. -/
def EndsNumber (rest : Bytes) : Prop :=
  ∀ b ∈ rest.head?, digit? b = none ∧ b ≠ 0x2E ∧ b ≠ 0x65 ∧ b ≠ 0x45

/-- The byte of a digit. -/
theorem exists_byte_of_isDigit {c : Char} (h : c.isDigit = true) : ∃ b : UInt8,
    String.utf8EncodeChar c = [b] ∧ 0x30 ≤ b ∧ b ≤ 0x39 ∧ b.toNat - 48 = Text.digit c := by
  rw [Char.isDigit_iff_toNat] at h
  have hbounds : 48 ≤ c.toNat ∧ c.toNat ≤ 57 := h
  have hbyte : (UInt8.ofNat c.toNat).toNat = c.toNat := UInt8.toNat_ofNat_of_lt' (by
    show c.toNat < 256
    omega)
  refine ⟨UInt8.ofNat c.toNat, Text.utf8EncodeChar_of_lt (by omega), ?_, ?_, ?_⟩
  · rw [UInt8.le_iff_toNat_le, hbyte]
    exact hbounds.1
  · rw [UInt8.le_iff_toNat_le, hbyte]
    exact hbounds.2
  · rw [hbyte]
    rfl

/-- Digits begin with the byte of one. -/
theorem exists_utf8_toDigits (n : Nat) : ∃ b bs,
    Text.utf8 (Nat.toDigits 10 n) = b :: bs ∧ 0x30 ≤ b ∧ b ≤ 0x39 := by
  cases hdigits : Nat.toDigits 10 n with
  | nil => exact absurd hdigits Nat.toDigits_ne_nil
  | cons c cs =>
    have hdigit : c.isDigit = true :=
      Nat.isDigit_of_mem_toDigits (by decide) (by decide) (hdigits ▸ List.mem_cons_self)
    obtain ⟨b, hb, hlow, hhigh, -⟩ := exists_byte_of_isDigit hdigit
    exact ⟨b, Text.utf8 cs, by rw [Text.utf8_cons, hb]; rfl, hlow, hhigh⟩

/-- Digits are read up to what is no digit. -/
theorem digits_append {cs : List Char} (hdigits : ∀ c ∈ cs, c.isDigit = true) {rest : Bytes}
    (hrest : EndsNumber rest) :
    digits (Text.utf8 cs ++ rest) = (cs.map Text.digit, rest) := by
  induction cs with
  | nil =>
    cases rest with
    | nil => rfl
    | cons b rest =>
      show digits (b :: rest) = _
      unfold digits
      rw [(hrest b rfl).1]
      rfl
  | cons c cs ih =>
    obtain ⟨b, hb, hlow, hhigh, hvalue⟩ := exists_byte_of_isDigit (hdigits c List.mem_cons_self)
    have hdigit : digit? b = some (Text.digit c) := by
      unfold digit?
      rw [if_pos ⟨hlow, hhigh⟩, hvalue]
    rw [Text.utf8_cons, hb]
    show digits (b :: (Text.utf8 cs ++ rest)) = _
    unfold digits
    rw [hdigit]
    dsimp only
    rw [ih fun c' hmem => hdigits c' (List.mem_cons_of_mem c hmem)]
    rfl

end Term

/-- The digits of an integer, taken apart. -/
def Integer.lexeme (n : Integer) : Lexeme :=
  { negative := n.1 < 0, whole := (Nat.toDigits 10 n.1.natAbs).map Text.digit
    fraction := none, exponent := none }

/-- The digits denote the integer. -/
theorem Integer.integer?_lexeme (n : Integer) : n.lexeme.integer? = some n := by
  obtain ⟨hlow, hhigh⟩ := n.2
  have hdigits : ofDigits n.lexeme.whole = n.1.natAbs := by
    unfold lexeme
    dsimp only
    rw [ofDigits_eq_foldl, List.foldl_map]
    exact Nat.ofDigitChars_ten_toDigits
  unfold Lexeme.integer?
  rw [if_neg (by simp [lexeme])]
  dsimp only
  by_cases hn : n.1 < 0
  · rw [if_pos (show n.lexeme.negative = true from decide_eq_true hn), dif_pos (by omega)]
    congr 1
    apply Subtype.ext
    show -(ofDigits n.lexeme.whole : Int) = n.1
    omega
  · rw [if_neg (show ¬ n.lexeme.negative = true from mt of_decide_eq_true hn),
      dif_pos (by omega)]
    congr 1
    apply Subtype.ext
    show (ofDigits n.lexeme.whole : Int) = n.1
    omega

theorem Integer.number?_lexeme (n : Integer) : n.lexeme.number? = some (.integer n) := by
  unfold Lexeme.number?
  rw [n.integer?_lexeme]

namespace Term

theorem magnitude?_digits {n : Nat} (negative : Bool) {rest : Bytes} (hrest : EndsNumber rest) :
    magnitude? negative (Text.utf8 (Nat.toDigits 10 n) ++ rest)
      = some ({ negative, whole := (Nat.toDigits 10 n).map Text.digit, fraction := none,
                exponent := none }, rest) := by
  have hwhole : whole? (Text.utf8 (Nat.toDigits 10 n) ++ rest)
      = some ((Nat.toDigits 10 n).map Text.digit, rest) := by
    have hzero : ∀ d ds, (Nat.toDigits 10 n).map Text.digit = 0 :: d :: ds → False := by
      intro d ds heq
      obtain ⟨c, cs, hlist, hc, hcs⟩ := List.map_eq_cons_iff.1 heq
      by_cases hn : n = 0
      · rw [hn, Nat.toDigits_zero] at hlist
        rw [← (List.cons.inj hlist).2] at hcs
        cases hcs
      · have hdigit : c.isDigit = true :=
          Nat.isDigit_of_mem_toDigits (by decide) (by decide) (hlist ▸ List.mem_cons_self)
        have hlow := (Char.isDigit_iff_toNat.1 hdigit).1
        have hchar : c = '0' := Char.toNat_inj.1 (Nat.le_antisymm (Nat.le_of_sub_eq_zero hc) hlow)
        apply Text.head?_toDigits (Nat.pos_of_ne_zero hn)
        rw [hlist, hchar]
        rfl
    unfold whole?
    rw [digits_append (fun c hc => Nat.isDigit_of_mem_toDigits (by decide) (by decide) hc) hrest]
    split
    · next hnil => exact absurd (List.map_eq_nil_iff.1 (Prod.mk.inj hnil).1) Nat.toDigits_ne_nil
    · next hmany => exact (hzero _ _ (Prod.mk.inj hmany).1).elim
    · rfl
  have hfraction : fraction? rest = some (none, rest) := by
    unfold fraction?
    split
    · next rest' => exact absurd rfl (hrest 0x2E rfl).2.1
    · rfl
  have hexponent : exponent? rest = some (none, rest) := by
    cases rest with
    | nil => rfl
    | cons b rest =>
      obtain ⟨-, -, hlower, hupper⟩ := hrest b rfl
      have hletter : ¬ (b = 0x65 ∨ b = 0x45) := by
        rintro (h | h)
        · exact hlower h
        · exact hupper h
      exact if_neg hletter
  unfold magnitude?
  simp only [hwhole, hfraction, hexponent, Option.bind_eq_bind, Option.bind_some]

/-- **An integer is read as its digits**, up to what does not go on with a number. -/
theorem number?_integer (n : Integer) {rest : Bytes} (hrest : EndsNumber rest) :
    number? (Text.utf8 n.1.repr.toList ++ rest) = some (n.lexeme, rest) := by
  rw [Text.toList_repr]
  by_cases hn : n.1 < 0
  · rw [if_pos hn]
    have hread := magnitude?_digits true hrest (n := n.1.natAbs)
    unfold Integer.lexeme
    rw [decide_eq_true hn]
    exact hread
  · rw [if_neg hn]
    have hread := magnitude?_digits false hrest (n := n.1.natAbs)
    unfold Integer.lexeme number?
    rw [decide_eq_false hn]
    split
    · next rest' heq =>
      -- a sign is no digit
      obtain ⟨b, bs, hbytes, hlow, -⟩ := exists_utf8_toDigits n.1.natAbs
      rw [hbytes] at heq
      rw [(List.cons.inj heq).1] at hlow
      exact absurd hlow (by decide)
    · exact hread

end Term

end Json

end Parley
