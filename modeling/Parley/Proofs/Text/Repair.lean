import Parley.Proofs.Wire.Scan

/-! # What a repair does to bytes

  A repair reads any bytes as text. Sent as UTF-8 again, this text has **every ASCII byte
  where it was**, and between two of them something other than ASCII exactly where
  there was something (`mended_repair`). A grammar whose marks are ASCII therefore
  finds in the repaired text what it found in the bytes.

  The repair is a machine that remembers a character under way. What it remembers is
  **sound** if every way to complete the character yields one beyond ASCII.
-/

namespace Parley.Text

/-! ## Section 1: Bytes that were mended -/

/-- Some bytes and others that are the same but for stretches beyond ASCII. -/
inductive Mended : Bytes → Bytes → Prop where
  | nil : Mended [] []
  | ascii {b : UInt8} {bs out : Bytes} (hb : b < 0x80) (more : Mended bs out) :
      Mended (b :: bs) (b :: out)
  | stretch {piece made bs out : Bytes} (hpiece : piece ≠ []) (hmade : made ≠ [])
      (hbeyond : ∀ b ∈ piece, 0x80 ≤ b) (hmadeBeyond : ∀ b ∈ made, 0x80 ≤ b)
      (more : Mended bs out) : Mended (piece ++ bs) (made ++ out)

namespace Mended

theorem append {bs out bs' out' : Bytes} (h : Mended bs out) (h' : Mended bs' out') :
    Mended (bs ++ bs') (out ++ out') := by
  induction h with
  | nil => exact h'
  | ascii hb _ ih => exact .ascii hb ih
  | stretch hpiece hmade hbeyond hmadeBeyond _ ih =>
    rw [List.append_assoc, List.append_assoc]
    exact .stretch hpiece hmade hbeyond hmadeBeyond ih

theorem of_stretch {piece made : Bytes} (hpiece : piece ≠ []) (hmade : made ≠ [])
    (hbeyond : ∀ b ∈ piece, 0x80 ≤ b) (hmadeBeyond : ∀ b ∈ made, 0x80 ≤ b) :
    Mended piece made := by
  simpa using stretch hpiece hmade hbeyond hmadeBeyond .nil

theorem refl (bs : Bytes) : Mended bs bs := by
  induction bs with
  | nil => exact .nil
  | cons b bs ih =>
    by_cases hb : b < 0x80
    · exact .ascii hb ih
    · have hbeyond : ∀ c ∈ [b], 0x80 ≤ c := by
        intro c hc
        rw [List.mem_singleton.1 hc]
        exact UInt8.not_lt.1 hb
      exact @stretch [b] [b] bs bs (by simp) (by simp) hbeyond hbeyond ih

/-- No ASCII byte is added. -/
theorem mem {bs out : Bytes} (h : Mended bs out) {b : UInt8} (hb : b < 0x80) (hmem : b ∈ out) :
    b ∈ bs := by
  induction h with
  | nil => exact hmem
  | ascii _ _ ih =>
    rcases List.mem_cons.1 hmem with rfl | hmem
    · exact List.mem_cons_self
    · exact List.mem_cons_of_mem _ (ih hmem)
  | stretch _ _ _ hmadeBeyond _ ih =>
    rcases List.mem_append.1 hmem with hmem | hmem
    · exact absurd hb (UInt8.not_lt.2 (hmadeBeyond b hmem))
    · exact List.mem_append_right _ (ih hmem)

end Mended

/-! ## Section 2: Characters as bytes -/

theorem bytes_ofList (cs : List Char) :
    bytes (String.ofList cs) = cs.flatMap String.utf8EncodeChar := by
  simp [bytes, String.ofList, List.utf8Encode]

theorem toNat_ofNat {n : Nat} (h : n.isValidChar) : (Char.ofNat n).toNat = n := by
  unfold Char.ofNat
  rw [dif_pos h]
  rfl

/-- An ASCII character is its own byte. -/
theorem utf8EncodeChar_ascii {b : UInt8} (hb : b.toNat < 0x80) :
    String.utf8EncodeChar (Char.ofNat b.toNat) = [b] := by
  have hnat : (Char.ofNat b.toNat).toNat = b.toNat := toNat_ofNat (.inl (by omega))
  unfold String.utf8EncodeChar
  show (if (Char.ofNat b.toNat).toNat ≤ 127 then _ else _) = _
  rw [if_pos (by omega)]
  show [UInt8.ofNat (Char.ofNat b.toNat).toNat] = _
  rw [hnat, UInt8.ofNat_toNat]

theorem beyond_ofNat {n : Nat} (hbeyond : 0x80 ≤ n) (hbyte : n < 0x100) :
    0x80 ≤ UInt8.ofNat n := by
  rw [UInt8.le_iff_toNat_le, UInt8.toNat_ofNat_of_lt' hbyte]
  exact hbeyond

/-- A character beyond ASCII has no ASCII byte. -/
theorem utf8EncodeChar_beyond {c : Char} (hc : 0x80 ≤ c.toNat) :
    ∀ b ∈ String.utf8EncodeChar c, 0x80 ≤ b := by
  have htwo : ¬ c.val.toNat ≤ 127 := by
    show ¬ c.toNat ≤ 127
    omega
  intro b hb
  unfold String.utf8EncodeChar at hb
  dsimp only at hb
  rw [if_neg htwo] at hb
  -- every byte is made by adding at least 0x80 to a few bits
  split at hb
  · simp only [List.mem_cons, List.not_mem_nil, or_false] at hb
    rcases hb with rfl | rfl <;> exact beyond_ofNat (by omega) (by omega)
  · split at hb
    · simp only [List.mem_cons, List.not_mem_nil, or_false] at hb
      rcases hb with rfl | rfl | rfl <;> exact beyond_ofNat (by omega) (by omega)
    · simp only [List.mem_cons, List.not_mem_nil, or_false] at hb
      rcases hb with rfl | rfl | rfl | rfl <;> exact beyond_ofNat (by omega) (by omega)

/-- A piece that was read as one character. -/
theorem Mended.of_char {piece : Bytes} {c : Char} (hpiece : piece ≠ [])
    (hbeyond : ∀ b ∈ piece, 0x80 ≤ b) (hc : 0x80 ≤ c.toNat) :
    Mended piece ([c].flatMap String.utf8EncodeChar) := by
  rw [List.flatMap_singleton]
  exact of_stretch hpiece String.utf8EncodeChar_ne_nil hbeyond (utf8EncodeChar_beyond hc)

/-! ## Section 3: A character under way -/

namespace Pending

/-- The least value that a character under way can come to. -/
def least (p : Pending) : Nat := (p.bits * 64 + (p.low.toNat - 0x80)) * 64 ^ (p.owed - 1)

/-- The first value that is too great for a character under way. -/
def bound (p : Pending) : Nat := (p.bits * 64 + (p.high.toNat - 0x80) + 1) * 64 ^ (p.owed - 1)

/-- Whatever a character under way comes to, it is a character beyond ASCII. -/
structure Sound (p : Pending) : Prop where
  owed : p.owed = 1 ∨ p.owed = 2 ∨ p.owed = 3
  low : 0x80 ≤ p.low.toNat
  high : p.high.toNat ≤ 0xBF
  beyond : 0x80 ≤ p.least
  scalar : p.bound ≤ 0xD800 ∨ 0xE000 ≤ p.least ∧ p.bound ≤ 0x110000

/-- A character whose next byte must be one of `l`, …, `h`, and whose value counts those bits
    `weight` times. -/
theorem Sound.of_range {bits owed l h : Nat} {low high : UInt8} (weight : Nat)
    (howed : owed = 1 ∨ owed = 2 ∨ owed = 3) (hweight : 64 ^ (owed - 1) = weight)
    (hl : low.toNat = 0x80 + l) (hh : high.toNat = 0x80 + h) (hmost : h < 64)
    (hbeyond : 0x80 ≤ (bits * 64 + l) * weight)
    (hscalar : (bits * 64 + h + 1) * weight ≤ 0xD800 ∨
      0xE000 ≤ (bits * 64 + l) * weight ∧ (bits * 64 + h + 1) * weight ≤ 0x110000) :
    Sound { bits, owed, low, high } := by
  have hleast : least { bits, owed, low, high } = (bits * 64 + l) * weight := by
    unfold least
    rw [hl, hweight, Nat.add_sub_cancel_left]
  have hbound : bound { bits, owed, low, high } = (bits * 64 + h + 1) * weight := by
    unfold bound
    rw [hh, hweight, Nat.add_sub_cancel_left]
  refine ⟨howed, ?_, ?_, ?_, ?_⟩
  · rw [hl]
    exact Nat.le_add_right ..
  · rw [hh]
    omega
  · rw [hleast]
    exact hbeyond
  · rw [hleast, hbound]
    exact hscalar

variable {p : Pending} {b : UInt8}

/-- The last byte makes a character beyond ASCII. -/
theorem Sound.last (h : p.Sound) (howed : p.owed ≤ 1) (hlow : p.low.toNat ≤ b.toNat)
    (hhigh : b.toNat ≤ p.high.toNat) :
    0x80 ≤ (Char.ofNat (p.bits * 64 + (b.toNat - 0x80))).toNat := by
  obtain ⟨hone, hlow', hhigh', hbeyond, hscalar⟩ := h
  have howed' : p.owed = 1 := by omega
  simp only [least, bound, howed', Nat.sub_self, Nat.pow_zero, Nat.mul_one] at hbeyond hscalar
  rw [toNat_ofNat (by unfold Nat.isValidChar; omega)]
  omega

/-- The character under way after one more byte. -/
def more (p : Pending) (b : UInt8) : Pending :=
  { bits := p.bits * 64 + (b.toNat - 0x80), owed := p.owed - 1 }

theorem least_more {k : Nat} (hk : p.owed = k + 2) :
    (p.more b).least = (p.bits * 64 + (b.toNat - 0x80)) * 64 ^ (k + 1) := by
  have hlow : (0x80 : UInt8).toNat - 0x80 = 0 := by decide
  unfold least more
  simp only [hlow, hk, Nat.add_zero]
  rw [show k + 2 - 1 - 1 = k by omega, Nat.pow_succ', Nat.mul_assoc _ 64]

theorem bound_more {k : Nat} (hk : p.owed = k + 2) :
    (p.more b).bound = (p.bits * 64 + (b.toNat - 0x80) + 1) * 64 ^ (k + 1) := by
  have hhigh : (0xBF : UInt8).toNat - 0x80 + 1 = 64 := by decide
  unfold bound more
  simp only [hk, Nat.add_assoc, hhigh]
  rw [show k + 2 - 1 - 1 = k by omega, Nat.pow_succ', ← Nat.mul_assoc, ← Nat.add_assoc,
    Nat.add_mul _ 1 64, Nat.one_mul]

theorem least_le_more {k : Nat} (hk : p.owed = k + 2) (hlow : p.low.toNat ≤ b.toNat) :
    p.least ≤ (p.more b).least := by
  rw [least_more hk, least, hk, show k + 2 - 1 = k + 1 by omega]
  exact Nat.mul_le_mul_right _ (by omega)

theorem bound_more_le {k : Nat} (hk : p.owed = k + 2) (hhigh : b.toNat ≤ p.high.toNat) :
    (p.more b).bound ≤ p.bound := by
  rw [bound_more hk, bound, hk, show k + 2 - 1 = k + 1 by omega]
  exact Nat.mul_le_mul_right _ (by omega)

/-- A byte that is not the last one leaves the character sound. -/
theorem Sound.more (h : p.Sound) (howed : ¬ p.owed ≤ 1) (hlow : p.low.toNat ≤ b.toNat)
    (hhigh : b.toNat ≤ p.high.toNat) : (p.more b).Sound := by
  obtain ⟨k, hk⟩ : ∃ k, p.owed = k + 2 := ⟨p.owed - 2, by omega⟩
  have hleast := least_le_more hk hlow
  have hbound := bound_more_le hk hhigh
  refine ⟨?_, Nat.le_refl _, Nat.le_refl _, Nat.le_trans h.beyond hleast, ?_⟩
  · have hcount := h.owed
    show p.owed - 1 = 1 ∨ p.owed - 1 = 2 ∨ p.owed - 1 = 3
    omega
  · rcases h.scalar with hscalar | ⟨habove, hscalar⟩
    · exact .inl (Nat.le_trans hbound hscalar)
    · exact .inr ⟨Nat.le_trans habove hleast, Nat.le_trans hbound hscalar⟩

end Pending

/-- The bytes that a state of the repair remembers. -/
def Remembers : Option Pending → Bytes → Prop
  | none, read => read = []
  | some p, read => p.Sound ∧ read ≠ [] ∧ ∀ b ∈ read, 0x80 ≤ b

/-! ## Section 4: The repair, step by step -/

/-- What a byte beyond ASCII can be where a character begins: broken, or the first one of a
    character. -/
def Opens (out : List Char × Option Pending) : Prop :=
  out = ([replacement], none) ∨ ∃ p : Pending, p.Sound ∧ out = ([], some p)

theorem Opens.of_sound {p : Pending} (h : p.Sound) : Opens ([], some p) := .inr ⟨p, h, rfl⟩

theorem opens_advanceFresh {b : UInt8} (hbeyond : ¬ b.toNat < 0x80) : Opens (advanceFresh b) := by
  have hbyte := b.toNat_lt
  unfold advanceFresh
  dsimp only
  rw [if_neg hbeyond]
  -- the ranges of the first byte, each with how many bytes follow and what the next may be
  refine iteInduction (fun _ => .inl rfl) fun hC2 => ?_
  refine iteInduction (fun hE0 => .of_sound ?_) fun hE0 => ?_
  · exact .of_range (l := 0) (h := 63) 1 (.inl rfl) rfl rfl rfl (by decide) (by omega) (by omega)
  refine iteInduction (fun _ => .of_sound ?_) fun _ => ?_
  · exact .of_range (l := 32) (h := 63) 64 (.inr (.inl rfl)) rfl rfl rfl (by decide) (by decide)
      (by decide)
  refine iteInduction (fun _ => .of_sound ?_) fun _ => ?_
  · exact .of_range (l := 0) (h := 31) 64 (.inr (.inl rfl)) rfl rfl rfl (by decide) (by decide)
      (by decide)
  refine iteInduction (fun hF0 => .of_sound ?_) fun hF0 => ?_
  · exact .of_range (l := 0) (h := 63) 64 (.inr (.inl rfl)) rfl rfl rfl (by decide) (by omega)
      (by omega)
  refine iteInduction (fun _ => .of_sound ?_) fun _ => ?_
  · exact .of_range (l := 16) (h := 63) 4096 (.inr (.inr rfl)) rfl rfl rfl (by decide) (by decide)
      (by decide)
  refine iteInduction (fun hF4 => .of_sound ?_) fun hF4 => ?_
  · exact .of_range (l := 0) (h := 63) 4096 (.inr (.inr rfl)) rfl rfl rfl (by decide) (by omega)
      (by omega)
  refine iteInduction (fun _ => .of_sound ?_) fun _ => .inl rfl
  · exact .of_range (l := 0) (h := 15) 4096 (.inr (.inr rfl)) rfl rfl rfl (by decide) (by decide)
      (by decide)

/-- Where a character begins, a byte is mended at once or remembered. -/
theorem advanceFresh_spec (b : UInt8) :
    ∃ done left, [b] = done ++ left ∧
      Mended done ((advanceFresh b).1.flatMap String.utf8EncodeChar) ∧
      Remembers (advanceFresh b).2 left := by
  by_cases hascii : b.toNat < 0x80
  · have h : advanceFresh b = ([Char.ofNat b.toNat], none) := if_pos hascii
    rw [h, List.flatMap_singleton, utf8EncodeChar_ascii hascii]
    exact ⟨[b], [], rfl, .refl [b], rfl⟩
  · have hall : ∀ c ∈ [b], (0x80 : UInt8) ≤ c := by
      intro c hc
      rw [List.mem_singleton.1 hc, UInt8.le_iff_toNat_le]
      exact Nat.not_lt.1 hascii
    rcases opens_advanceFresh hascii with h | ⟨p, hp, h⟩
    · rw [h]
      exact ⟨[b], [], rfl, .of_char (by simp) hall (by decide), rfl⟩
    · rw [h]
      exact ⟨[], [b], rfl, .nil, hp, by simp, hall⟩

/-- **One byte** is mended at once, together with those remembered, or remembered. -/
theorem advance_spec {state : Option Pending} {read : Bytes} (h : Remembers state read)
    (b : UInt8) :
    ∃ done left, read ++ [b] = done ++ left ∧
      Mended done ((advance state b).1.flatMap String.utf8EncodeChar) ∧
      Remembers (advance state b).2 left := by
  cases state with
  | none =>
    obtain rfl : read = [] := h
    exact advanceFresh_spec b
  | some p =>
    obtain ⟨hsound, hread, hbeyond⟩ := h
    simp only [advance]
    split
    · next hrange =>
      -- the byte goes on with the character
      have hlow : p.low.toNat ≤ b.toNat := UInt8.le_iff_toNat_le.1 hrange.1
      have hhigh : b.toNat ≤ p.high.toNat := UInt8.le_iff_toNat_le.1 hrange.2
      have hbeyond' : ∀ c ∈ read ++ [b], (0x80 : UInt8) ≤ c := by
        intro c hc
        rcases List.mem_append.1 hc with hc | hc
        · exact hbeyond c hc
        · rw [List.mem_singleton.1 hc, UInt8.le_iff_toNat_le]
          exact Nat.le_trans hsound.low hlow
      split
      · next howed =>
        exact ⟨read ++ [b], [], (List.append_nil _).symm,
          .of_char (by simp) hbeyond' (hsound.last howed hlow hhigh), rfl⟩
      · next howed =>
        exact ⟨[], read ++ [b], rfl, .nil, hsound.more howed hlow hhigh, by simp, hbeyond'⟩
    · -- the character is broken, and the byte is read afresh
      obtain ⟨done, left, hb, hdone, hleft⟩ := advanceFresh_spec b
      refine ⟨read ++ done, left, by rw [hb, List.append_assoc], ?_, hleft⟩
      exact (Mended.of_char (c := replacement) hread hbeyond (by decide)).append hdone

/-- **A whole run** mends what was remembered and all bytes. -/
theorem mended_scrub {state : Option Pending} {read : Bytes} (h : Remembers state read)
    (bs : Bytes) : Mended (read ++ bs) ((scrub state bs).flatMap String.utf8EncodeChar) := by
  -- with whatever is remembered, since a byte may be mended only later
  induction bs generalizing state read with
  | nil =>
    rw [List.append_nil]
    cases state with
    | none =>
      obtain rfl : read = [] := h
      exact .nil
    | some p => exact .of_char h.2.1 h.2.2 (by decide)
  | cons b bs ih =>
    obtain ⟨done, left, hb, hdone, hleft⟩ := advance_spec h b
    have hrun : scrub state (b :: bs) = (advance state b).1 ++ scrub (advance state b).2 bs := by
      cases state <;> rfl
    rw [hrun, List.flatMap_append, List.append_cons, hb, List.append_assoc]
    exact hdone.append (ih hleft)

/-- **A repair** keeps every ASCII byte where it is, and makes something beyond ASCII of
    every stretch beyond ASCII. -/
theorem mended_repair (bs : Bytes) : Mended bs (bytes (repair bs)) := by
  unfold repair
  split
  · next s hs =>
    rw [bytes_of_ofBytes? hs]
    exact .refl bs
  · rw [bytes_ofList]
    exact @mended_scrub none [] rfl bs

end Parley.Text
