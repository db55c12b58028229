import Parley.Json.Printer
import Parley.Json.Term
import Parley.Proofs.Text.Repair

/-! # Strings in JSON, read back

  A string is written character by character, and read byte by byte. Each character is
  read back as its UTF-8 form, whether it was escaped or not; so a string in quotes spells
  **the bytes of its text**, whatever the text is.
-/

namespace Parley

/-! ## Section 1: The bytes of characters -/

namespace Text

/-- The UTF-8 form of some characters. -/
def utf8 (cs : List Char) : Bytes := cs.flatMap String.utf8EncodeChar

@[simp] theorem utf8_nil : utf8 [] = [] := rfl

theorem utf8_cons (c : Char) (cs : List Char) :
    utf8 (c :: cs) = String.utf8EncodeChar c ++ utf8 cs := rfl

@[simp] theorem utf8_append (a b : List Char) : utf8 (a ++ b) = utf8 a ++ utf8 b :=
  List.flatMap_append

theorem bytes_eq_utf8 (s : String) : bytes s = utf8 s.toList := by
  have hlist := bytes_ofList s.toList
  rwa [String.ofList_toList] at hlist

/-- An ASCII character is one byte. -/
theorem utf8EncodeChar_of_lt {c : Char} (h : c.toNat < 0x80) :
    String.utf8EncodeChar c = [UInt8.ofNat c.toNat] := by
  have hbyte : (UInt8.ofNat c.toNat).toNat = c.toNat :=
    UInt8.toNat_ofNat_of_lt' (Nat.lt_trans h (by decide))
  have hchar := utf8EncodeChar_ascii (b := UInt8.ofNat c.toNat) (by rwa [hbyte])
  rwa [hbyte, Char.ofNat_toNat] at hchar

end Text

namespace Json.Term

open Ascii

/-! ## Section 2: One character -/

/-- A byte that needs no escape is read as it is. -/
theorem string?_byte {b : UInt8} (hspace : space ≤ b) (hquote : b ≠ quote)
    (hbackslash : b ≠ backslash) (rest : Bytes) :
    string? (b :: rest) = putFront [b] (string? rest) := by
  have hlow : ¬ (b < space ∨ b = backslash) := by
    rintro (h | h)
    · exact absurd hspace (UInt8.not_le.2 h)
    · exact hbackslash h
  have hread := string?.eq_5 b rest hquote (fun _ _ _ _ _ h _ => hbackslash h)
    fun _ _ h _ => hbackslash h
  rwa [if_neg hlow] at hread

/-- A letter after a backslash that stands for one byte. -/
theorem string?_short {c b : UInt8} (hshort : shortEscape? c = some b) (rest : Bytes) :
    string? (backslash :: c :: rest) = putFront [b] (string? rest) := by
  have hletter : c ≠ letterU := by
    rintro rfl
    cases hshort
  have hread := string?.eq_4 c rest fun _ _ _ _ _ h _ => hletter h
  rwa [hshort] at hread

/-- Four digits after a backslash that are no half of a surrogate pair. -/
theorem string?_unit {a b c d : UInt8} {n : Nat} (hfour : hexFour? a b c d = some n)
    (hhigh : isHigh n = false) (rest : Bytes) :
    string? (backslash :: letterU :: a :: b :: c :: d :: rest)
      = putFront (unitBytes n) (string? rest) := by
  have hread := string?.eq_3 a b c d rest
  rw [hfour] at hread
  dsimp only at hread
  rwa [if_neg (by rw [hhigh]; exact Bool.noConfusion)] at hread

@[simp] theorem putFront_nil (read : Option (Bytes × Bytes)) : putFront [] read = read := by
  cases read <;> rfl

@[simp] theorem putFront_putFront (a b : Bytes) (read : Option (Bytes × Bytes)) :
    putFront a (putFront b read) = putFront (a ++ b) read := by
  cases read with
  | none => rfl
  | some found =>
    show some (a ++ (b ++ found.1), found.2) = some (a ++ b ++ found.1, found.2)
    rw [List.append_assoc]

/-- Bytes beyond ASCII are read as they are. -/
theorem string?_beyond {piece : Bytes} (h : ∀ b ∈ piece, 0x80 ≤ b) (rest : Bytes) :
    string? (piece ++ rest) = putFront piece (string? rest) := by
  induction piece with
  | nil => rw [putFront_nil, List.nil_append]
  | cons b piece ih =>
    have hb := h b List.mem_cons_self
    have hspace : space ≤ b := UInt8.le_trans (by decide) hb
    have hquote : b ≠ quote := by
      rintro rfl
      exact absurd hb (by decide)
    have hbackslash : b ≠ backslash := by
      rintro rfl
      exact absurd hb (by decide)
    rw [List.cons_append, string?_byte hspace hquote hbackslash,
      ih fun b' hmem => h b' (List.mem_cons_of_mem b hmem), putFront_putFront]
    rfl

/-- A control character is written with four digits, of which the first two are zeros. -/
theorem utf8_control : ∀ n < 0x20,
    Text.utf8 ['\\', 'u', '0', '0', Text.hexDigit (n / 16), Text.hexDigit (n % 16)]
      = [backslash, letterU, 0x30, 0x30, UInt8.ofNat (Text.hexDigit (n / 16)).toNat,
        UInt8.ofNat (Text.hexDigit (n % 16)).toNat] ∧
    hexFour? 0x30 0x30 (UInt8.ofNat (Text.hexDigit (n / 16)).toNat)
      (UInt8.ofNat (Text.hexDigit (n % 16)).toNat) = some n := by
  decide +kernel

theorem string?_control {n : Nat} (h : n < 0x20) (rest : Bytes) :
    string? (Text.utf8
        ['\\', 'u', '0', '0', Text.hexDigit (n / 16), Text.hexDigit (n % 16)] ++ rest)
      = putFront [UInt8.ofNat n] (string? rest) := by
  obtain ⟨hbytes, hfour⟩ := utf8_control n h
  have hhigh : isHigh n = false := by
    unfold isHigh
    rw [decide_eq_false (by omega)]
    rfl
  have hunit : unitBytes n = [UInt8.ofNat n] := if_pos (by omega)
  rw [hbytes, ← hunit]
  exact string?_unit hfour hhigh rest

/-- A character that needs no escape is read as it is. -/
theorem string?_char {c : Char} (hlow : ¬ c.toNat < 0x20) (hquote : c ≠ '"')
    (hbackslash : c ≠ '\\') (rest : Bytes) :
    string? (String.utf8EncodeChar c ++ rest)
      = putFront (String.utf8EncodeChar c) (string? rest) := by
  by_cases hascii : c.toNat < 0x80
  · have hbyte : (UInt8.ofNat c.toNat).toNat = c.toNat :=
      UInt8.toNat_ofNat_of_lt' (Nat.lt_trans hascii (by decide))
    have hne : ∀ {d : Char}, c ≠ d → ∀ b : UInt8, b.toNat = d.toNat → UInt8.ofNat c.toNat ≠ b := by
      rintro d hcd b hb rfl
      exact hcd (Char.toNat_inj.1 (hbyte.symm.trans hb))
    have hspace : space ≤ UInt8.ofNat c.toNat := by
      rw [UInt8.le_iff_toNat_le, hbyte]
      exact Nat.le_of_not_lt hlow
    rw [Text.utf8EncodeChar_of_lt hascii]
    exact string?_byte hspace (hne hquote quote rfl) (hne hbackslash backslash rfl) rest
  · exact string?_beyond (Text.utf8EncodeChar_beyond (Nat.le_of_not_lt hascii)) rest

/-- **A character is read back as its UTF-8 form**, however it was written. -/
theorem string?_escape (c : Char) (rest : Bytes) :
    string? (Text.utf8 (escape c) ++ rest) = putFront (String.utf8EncodeChar c) (string? rest) := by
  by_cases hquote : c = '"'
  · subst hquote
    exact string?_short rfl rest
  by_cases hbackslash : c = '\\'
  · subst hbackslash
    exact string?_short rfl rest
  unfold escape
  rw [if_neg hquote, if_neg hbackslash]
  -- five more have a letter of their own
  iterate 5
    split
    · next h =>
      subst h
      exact string?_short rfl rest
  split
  · next hlow => rw [string?_control hlow, Text.utf8EncodeChar_of_lt (by omega)]
  · next hlow =>
    rw [Text.utf8_cons, Text.utf8_nil, List.append_nil]
    exact string?_char hlow hquote hbackslash rest

/-- **A string in quotes spells the bytes of its text.** -/
theorem string?_quoted (s : String) (rest : Bytes) :
    string? (Text.utf8 (s.toList.flatMap escape) ++ quote :: rest) = some (Text.bytes s, rest) := by
  rw [Text.bytes_eq_utf8]
  induction s.toList with
  | nil => exact string?.eq_2 rest
  | cons c cs ih =>
    rw [List.flatMap_cons, Text.utf8_append, List.append_assoc, string?_escape, ih]
    rfl

end Json.Term

end Parley
