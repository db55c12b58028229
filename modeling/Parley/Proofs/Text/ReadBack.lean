import Parley.Proofs.Wire.Scan
import Parley.Stuff.Literal
import Parley.Text.Base64
import Parley.Text.Hex

/-! # Numbers and bytes as text, read back

  Numbers travel as decimal text and bytes as Base64. Both **read back as they
  were written**, and neither text needs a backslash: all its characters are
  digits, or stand in the alphabet of Base64. Hexadecimal digits read back, too.
-/

namespace Parley

/-! ## ASCII text -/

namespace Text

/-- The UTF-8 form of ASCII text has one byte for each character. -/
theorem bytes_ofList_ascii {cs : List Char} (h : ∀ c ∈ cs, c.toNat < 128) :
    bytes (String.ofList cs) = cs.map fun c => UInt8.ofNat c.toNat := by
  unfold bytes
  rw [String.toByteArray_ofList]
  unfold List.utf8Encode
  rw [List.data_toByteArray]
  show cs.flatMap String.utf8EncodeChar = _
  induction cs with
  | nil => rfl
  | cons c rest ih =>
    have hc : c.utf8Size = 1 := by
      have hlt := h c List.mem_cons_self
      rw [Char.utf8Size_eq_one_iff, UInt32.le_iff_toNat_le]
      show c.toNat ≤ 127
      omega
    rw [List.flatMap_cons, List.map_cons, ih fun c' hmem => h c' (List.mem_cons_of_mem c hmem),
      String.utf8EncodeChar_eq_singleton hc]
    rfl

end Text

/-- Bytes without a backslash are safe. -/
theorem Wire.backslashSafe_of_not_mem {bs : Bytes} (h : Ascii.backslash ∉ bs) :
    BackslashSafe bs := by
  rw [backslashSafe_iff]
  induction bs with
  | nil => rfl
  | cons b bs ih =>
    have hb : b ≠ Ascii.backslash := fun e => h (e ▸ List.mem_cons_self)
    have hrest := ih fun hmem => h (List.mem_cons_of_mem b hmem)
    simp [balanced, hb, hrest]

/-- ASCII text without a backslash is safe. -/
theorem Wire.backslashSafe_ofList {cs : List Char} (h : ∀ c ∈ cs, c.toNat < 128 ∧ c ≠ '\\') :
    BackslashSafe (Text.bytes (String.ofList cs)) := by
  apply backslashSafe_of_not_mem
  rw [Text.bytes_ofList_ascii fun c hc => (h c hc).1, List.mem_map]
  rintro ⟨c, hc, hbyte⟩
  obtain ⟨hlt, hne⟩ := h c hc
  apply hne
  have hnat := congrArg UInt8.toNat hbyte
  rw [UInt8.toNat_ofNat_of_lt' (Nat.lt_trans hlt (by decide))] at hnat
  exact Char.toNat_inj.1 hnat

/-! ## Decimal text -/

namespace Text

theorem decimal_natCast (n : Nat) : decimal (n : Int) = String.ofList (Nat.toDigits 10 n) := by
  show n.repr = _
  exact Nat.repr_eq_ofList_toDigits

/-- Digits denote the number that they were written for. -/
theorem natural?_toDigits (n : Nat) : natural? (Nat.toDigits 10 n) = some n := by
  have hdigits : (Nat.toDigits 10 n).all Char.isDigit = true := by
    rw [List.all_eq_true]
    intro c hc
    exact Nat.isDigit_of_mem_toDigits (by decide) (by decide) hc
  have hvalue : ofDigits ((Nat.toDigits 10 n).map digit) = n := by
    rw [ofDigits_eq_foldl, List.foldl_map]
    exact Nat.ofDigitChars_ten_toDigits
  unfold natural? digits?
  rw [if_pos ⟨Nat.toDigits_ne_nil, hdigits⟩, Option.map_some, hvalue]

theorem unsigned?_decimal (n : Nat) : unsigned? (decimal n) = some n := by
  unfold unsigned?
  rw [decimal_natCast, String.toList_ofList]
  split
  · next cs hcs =>
    -- a sign is no digit
    have hplus : '+' ∈ Nat.toDigits 10 n := hcs ▸ List.mem_cons_self
    have hdigit := Nat.isDigit_of_mem_toDigits (by decide) (by decide) hplus
    cases hdigit
  · exact natural?_toDigits n

theorem uint32?_decimal (n : UInt32) : uint32? (decimal n.toNat) = some n := by
  unfold uint32?
  rw [unsigned?_decimal, Option.bind_some, if_pos n.toNat_lt, UInt32.ofNat_toNat]

theorem uint64?_decimal (n : UInt64) : uint64? (decimal n.toNat) = some n := by
  unfold uint64?
  rw [unsigned?_decimal, Option.bind_some, if_pos n.toNat_lt, UInt64.ofNat_toNat]

theorem backslashSafe_decimal (n : Int) : Wire.BackslashSafe (bytes (decimal n)) := by
  have hdigits : ∀ k, ∀ c ∈ Nat.toDigits 10 k, c.toNat < 128 ∧ c ≠ '\\' := by
    intro k c hc
    have hdigit := Nat.isDigit_of_mem_toDigits (by decide) (by decide) hc
    rw [Char.isDigit_iff_toNat] at hdigit
    refine ⟨Nat.lt_of_le_of_lt hdigit.2 (by decide), ?_⟩
    rintro rfl
    exact absurd hdigit.2 (by decide)
  cases n with
  | ofNat k =>
    show Wire.BackslashSafe (bytes (decimal (k : Int)))
    rw [decimal_natCast]
    exact Wire.backslashSafe_ofList (hdigits k)
  | negSucc k =>
    have hchars : decimal (.negSucc k) = String.ofList ('-' :: Nat.toDigits 10 (k + 1)) := by
      show "-" ++ (k + 1).repr = _
      rw [Nat.repr_eq_ofList_toDigits]
      have hsign : "-".toList = ['-'] := rfl
      apply String.toList_injective
      rw [String.toList_append, hsign, String.toList_ofList, String.toList_ofList]
      rfl
    rw [hchars]
    apply Wire.backslashSafe_ofList
    intro c hc
    rcases List.mem_cons.1 hc with rfl | hc
    · decide
    · exact hdigits (k + 1) c hc

/-! ## Hexadecimal digits -/

theorem hexValue?_hexDigit : ∀ n < 16, hexValue? (hexDigit n) = some n := by decide

theorem toList_hex (bs : Bytes) : (hex bs).toList =
    bs.flatMap fun b => [hexDigit (b.toNat / 16), hexDigit (b.toNat % 16)] :=
  String.toList_ofList

theorem length_hex (bs : Bytes) : (hex bs).toList.length = 2 * bs.length := by
  rw [toList_hex]
  induction bs with
  | nil => rfl
  | cons b bs ih =>
    simp only [List.flatMap_cons, List.length_append, ih, List.length_cons, List.length_nil]
    omega

theorem hex_append (a b : Bytes) : (hex (a ++ b)).toList = (hex a).toList ++ (hex b).toList := by
  rw [toList_hex, List.flatMap_append, toList_hex, toList_hex]

/-- **Pairs of digits denote the bytes that they were written for.** -/
theorem hexBytes?_hex (bs : Bytes) : hexBytes? (hex bs).toList = some bs := by
  rw [toList_hex]
  induction bs with
  | nil => rfl
  | cons b bs ih =>
    have hlt : b.toNat < 256 := b.toNat_lt
    rw [List.flatMap_cons, List.cons_append, List.cons_append, List.nil_append, hexBytes?,
      hexValue?_hexDigit _ (by omega), hexValue?_hexDigit _ (by omega), ih]
    show some (UInt8.ofNat (b.toNat / 16 * 16 + b.toNat % 16) :: bs) = _
    rw [Nat.div_add_mod', UInt8.ofNat_toNat]

end Text

@[simp] theorem Literal.asUInt32?_ofUInt32 (n : UInt32) : (ofUInt32 n).asUInt32? = some n :=
  Text.uint32?_decimal n

@[simp] theorem Literal.asUInt64?_ofUInt64 (n : UInt64) : (ofUInt64 n).asUInt64? = some n :=
  Text.uint64?_decimal n

/-! ## Base64 -/

namespace Base64

theorem value?_letter : ∀ n < 64, value? (letter n) = some n := by decide

/-- The alphabet has neither the padding nor a backslash. -/
theorem letter_spec : ∀ n < 64,
    (letter n).toNat < 128 ∧ letter n ≠ '\\' ∧ letter n ≠ '=' := by decide

theorem ofNat_eq_of_mod {n : Nat} {b : UInt8} (h : n % 256 = b.toNat) : UInt8.ofNat n = b := by
  rw [← UInt8.toNat_inj, UInt8.toNat_ofNat']
  exact h

/-- A group that does not end in padding stands for three bytes. -/
theorem decodeChars_group {a b c d : Nat} (ha : a < 64) (hb : b < 64) (hc : c < 64) (hd : d < 64)
    (rest : List Char) :
    decodeChars (letter a :: letter b :: letter c :: letter d :: rest)
      = (decodeChars rest).map fun tail =>
          UInt8.ofNat ((a * 262144 + b * 4096 + c * 64 + d) / 65536) ::
            UInt8.ofNat ((a * 262144 + b * 4096 + c * 64 + d) / 256) ::
              UInt8.ofNat (a * 262144 + b * 4096 + c * 64 + d) :: tail := by
  -- the last letter is not taken for padding
  have hpad := (letter_spec d hd).2.2
  rw [decodeChars]
  · rw [value?_letter a ha, value?_letter b hb, value?_letter c hc, value?_letter d hd]
    cases decodeChars rest with
    | none => rfl
    | some tail => rfl
  · intro _ h
    exact absurd h hpad
  · intro h
    exact absurd h hpad

theorem sextets_of_two (n : Nat) :
    n / 1024 * 4096 + n / 16 % 64 * 64 + n % 16 * 4 = 4 * n := by omega

theorem sextets_of_three (n : Nat) :
    n / 262144 * 262144 + n / 4096 % 64 * 4096 + n / 64 % 64 * 64 + n % 64 = n := by omega

/-- **What was written is read as it was.** -/
theorem decodeChars_encodeChars (bs : Bytes) : decodeChars (encodeChars bs) = some bs := by
  induction bs using encodeChars.induct with
  | case1 => rfl
  | case2 a =>
    have ha := a.toNat_lt
    -- the four bits that no byte fills are zero
    have hread : (a.toNat / 4 * 64 + a.toNat % 4 * 16) / 16 = a.toNat := by omega
    have hunused : (a.toNat / 4 * 64 + a.toNat % 4 * 16) % 16 = 0 := by omega
    rw [encodeChars, decodeChars, value?_letter _ (by omega), value?_letter _ (by omega)]
    simp only [Option.bind_eq_bind, Option.bind_some, hunused, if_true, hread, UInt8.ofNat_toNat]
  | case3 a b =>
    have ha := a.toNat_lt
    have hb := b.toNat_lt
    rw [encodeChars, decodeChars]
    · dsimp only
      generalize hn : a.toNat * 256 + b.toNat = n
      rw [value?_letter _ (by omega), value?_letter _ (by omega), value?_letter _ (by omega)]
      simp only [Option.bind_eq_bind, Option.bind_some, sextets_of_two]
      rw [if_pos (by omega), ofNat_eq_of_mod (b := a) (by omega),
        ofNat_eq_of_mod (b := b) (by omega)]
    · intro h
      exact absurd h (letter_spec _ (by omega)).2.2
  | case4 a b c rest ih =>
    have ha := a.toNat_lt
    have hb := b.toNat_lt
    have hc := c.toNat_lt
    rw [encodeChars]
    generalize hn : a.toNat * 65536 + b.toNat * 256 + c.toNat = n
    rw [decodeChars_group (by omega) (by omega) (by omega) (by omega), ih, sextets_of_three,
      Option.map_some]
    rw [ofNat_eq_of_mod (b := a) (by omega), ofNat_eq_of_mod (b := b) (by omega),
      ofNat_eq_of_mod (b := c) (by omega)]

theorem decode?_encode (bs : Bytes) : decode? (encode bs) = some bs := by
  unfold decode? encode
  rw [String.toList_ofList]
  exact decodeChars_encodeChars bs

/-- What is written stands in the alphabet or is padding. -/
theorem mem_encodeChars {bs : Bytes} {c : Char} (h : c ∈ encodeChars bs) :
    c = '=' ∨ ∃ n < 64, c = letter n := by
  induction bs using encodeChars.induct with
  | case1 => cases h
  | case2 a =>
    have ha := a.toNat_lt
    simp only [encodeChars, List.mem_cons, List.not_mem_nil, or_false] at h
    rcases h with h | h | h | h
    · exact .inr ⟨_, by omega, h⟩
    · exact .inr ⟨_, by omega, h⟩
    · exact .inl h
    · exact .inl h
  | case3 a b =>
    have ha := a.toNat_lt
    have hb := b.toNat_lt
    simp only [encodeChars, List.mem_cons, List.not_mem_nil, or_false] at h
    rcases h with h | h | h | h
    · exact .inr ⟨_, by omega, h⟩
    · exact .inr ⟨_, by omega, h⟩
    · exact .inr ⟨_, by omega, h⟩
    · exact .inl h
  | case4 a b c rest ih =>
    have ha := a.toNat_lt
    have hb := b.toNat_lt
    have hc := c.toNat_lt
    simp only [encodeChars, List.mem_cons] at h
    rcases h with h | h | h | h | h
    · exact .inr ⟨_, by omega, h⟩
    · exact .inr ⟨_, by omega, h⟩
    · exact .inr ⟨_, by omega, h⟩
    · exact .inr ⟨_, by omega, h⟩
    · exact ih h

theorem backslashSafe_encode (bs : Bytes) : Wire.BackslashSafe (Text.bytes (encode bs)) := by
  apply Wire.backslashSafe_ofList
  intro c hc
  rcases mem_encodeChars hc with rfl | ⟨n, hn, rfl⟩
  · decide
  · exact ⟨(letter_spec n hn).1, (letter_spec n hn).2.1⟩

end Base64

end Parley
