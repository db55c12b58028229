import Mathlib.Data.List.Basic
import Parley.Proofs.Json.Integers
import Parley.Proofs.Wire.Relay

/-! # Texts that denote integers

  A **numeral** is a row of decimal digits, one at least: a digit denotes itself, and one more
  digit makes ten times as much, and the digit. With an optional sign it denotes an integer, and
  an unsigned word takes no minus.

  * Reading gives an integer exactly when the text denotes it and the word holds it
    (`Word.read?_eq_some_iff`), however long the text is.
  * So the integers of one word are read as another as far as that one holds them, which their
    canonical texts show, before they are sent and after (`Word.integers_exact`).
-/

namespace Parley

namespace Text

/-! ## Section 1: Numerals -/

/-- A row of decimal digits and the number that it denotes. -/
inductive Numeral : List Char → Nat → Prop where
  /-- One digit. -/
  | digit {d : Nat} (hd : d < 10) : Numeral [Nat.digitChar d] d
  /-- One more digit, behind the others. -/
  | more {cs : List Char} {n d : Nat} (h : Numeral cs n) (hd : d < 10) :
      Numeral (cs ++ [Nat.digitChar d]) (10 * n + d)

theorem isDigit_digitChar : ∀ d < 10, (Nat.digitChar d).isDigit = true := by decide

theorem digit_digitChar : ∀ d < 10, digit (Nat.digitChar d) = d := by decide

/-- A digit is the character of what it stands for. -/
theorem digitChar_digit {c : Char} (h : c.isDigit = true) :
    digit c < 10 ∧ Nat.digitChar (digit c) = c := by
  have hbounds : 48 ≤ c.toNat ∧ c.toNat ≤ 57 := Char.isDigit_iff_toNat.1 h
  have hdigit : digit c = c.toNat - 48 := rfl
  have hlt : digit c < 10 := by omega
  refine ⟨hlt, Char.toNat_inj.1 ?_⟩
  rw [Nat.toNat_digitChar_of_lt_ten hlt]
  omega

theorem ofDigits_concat (ds : List Nat) (d : Nat) :
    ofDigits (ds ++ [d]) = 10 * ofDigits ds + d := by
  rw [ofDigits_eq_foldl, ofDigits_eq_foldl, List.foldl_append]
  rfl

variable {cs : List Char} {n : Nat}

namespace Numeral

theorem ne_nil (h : Numeral cs n) : cs ≠ [] := by
  cases h with
  | digit hd => exact List.cons_ne_nil _ _
  | more h hd => exact List.append_ne_nil_of_right_ne_nil _ (List.cons_ne_nil _ _)

theorem isDigit (h : Numeral cs n) : ∀ c ∈ cs, c.isDigit = true := by
  induction h with
  | digit hd =>
    intro c hc
    rw [List.mem_singleton.1 hc]
    exact isDigit_digitChar _ hd
  | more h hd ih =>
    intro c hc
    rcases List.mem_append.1 hc with hc | hc
    · exact ih c hc
    · rw [List.mem_singleton.1 hc]
      exact isDigit_digitChar _ hd

theorem ofDigits_eq (h : Numeral cs n) : ofDigits (cs.map Text.digit) = n := by
  induction h with
  | @digit d hd =>
    rw [List.map_singleton, digit_digitChar d hd]
    exact (ofDigits_concat [] d).trans (Nat.zero_add d)
  | @more cs n d h hd ih =>
    rw [List.map_append, List.map_singleton, ofDigits_concat, ih, digit_digitChar d hd]

/-- Digits are a numeral, if there are any. -/
theorem of_isDigit (hne : cs ≠ []) (h : ∀ c ∈ cs, c.isDigit = true) :
    Numeral cs (ofDigits (cs.map Text.digit)) := by
  -- on the length, since a numeral grows at its end
  induction hlen : cs.length generalizing cs with
  | zero => exact absurd (List.eq_nil_of_length_eq_zero hlen) hne
  | succ k ih =>
    obtain hnil | ⟨front, c, rfl⟩ := List.eq_nil_or_concat' cs
    · exact absurd hnil hne
    · obtain ⟨hlt, hc⟩ := digitChar_digit (h c (List.mem_append_right _ List.mem_cons_self))
      rw [List.map_append, List.map_singleton, ofDigits_concat, ← hc, digit_digitChar _ hlt]
      by_cases hfront : front = []
      · rw [hfront]
        have hvalue : 10 * ofDigits (([] : List Char).map Text.digit) + Text.digit c
            = Text.digit c := Nat.zero_add _
        rw [hvalue]
        exact .digit hlt
      · refine .more (ih hfront (fun c' hc' => h c' (List.mem_append_left _ hc')) ?_) hlt
        rw [List.length_append, List.length_singleton] at hlen
        exact Nat.succ.inj hlen

end Numeral

/-- **Digits are read exactly where they are a numeral**, as what it denotes. -/
theorem natural?_eq_some_iff : natural? cs = some n ↔ Numeral cs n := by
  unfold natural? digits?
  constructor
  · intro h
    obtain ⟨ds, hds, rfl⟩ := Option.map_eq_some_iff.1 h
    split at hds
    · next hdigits =>
      rw [← Option.some.inj hds]
      exact .of_isDigit hdigits.1 (List.all_eq_true.1 hdigits.2)
    · cases hds
  · intro h
    rw [if_pos ⟨h.ne_nil, List.all_eq_true.2 h.isDigit⟩, Option.map_some, h.ofDigits_eq]

/-! ## Section 2: Signs -/

/-- A text and the integer that it denotes, with a minus or without any. -/
inductive Denotes (signed : Bool) : List Char → Int → Prop where
  /-- No sign. -/
  | plain {cs : List Char} {n : Nat} (h : Numeral cs n) : Denotes signed cs n
  /-- A plus. -/
  | plus {cs : List Char} {n : Nat} (h : Numeral cs n) : Denotes signed ('+' :: cs) n
  /-- A minus, which takes a signed word. -/
  | minus {cs : List Char} {n : Nat} (hsigned : signed = true) (h : Numeral cs n) :
      Denotes signed ('-' :: cs) (-n)

theorem Denotes.of_unsigned {m : Int} (h : Denotes false cs m) : Denotes true cs m := by
  cases h with
  | plain h => exact .plain h
  | plus h => exact .plus h
  | minus hsigned h => cases hsigned

/-- What is read behind a sign are the digits that stand there. -/
theorem map_natural?_eq_some_iff {f : Int → Int} {m : Int} :
    ((natural? cs).bind fun n => some (n : Int)).map f = some m ↔
      ∃ n : Nat, Numeral cs n ∧ f n = m := by
  rw [Option.map_bind, Option.bind_eq_some_iff]
  refine exists_congr fun n => ?_
  rw [natural?_eq_some_iff]
  exact and_congr_right' Option.some_inj

/-- A numeral begins with no sign. -/
theorem Numeral.head_ne {c : Char} (hc : c.isDigit = false) (h : Numeral (c :: cs) n) : False := by
  rw [h.isDigit c List.mem_cons_self] at hc
  cases hc

theorem signed?_eq_some_iff {s : String} {m : Int} :
    signed? s = some m ↔ Denotes true s.toList m := by
  unfold signed?
  generalize s.toList = cs
  constructor
  · intro h
    split at h
    · obtain ⟨n, hn, rfl⟩ := map_natural?_eq_some_iff.1 h
      exact .minus rfl hn
    · obtain ⟨n, hn, rfl⟩ := map_natural?_eq_some_iff.1 h
      exact .plus hn
    · obtain ⟨n, hn, rfl⟩ := map_natural?_eq_some_iff.1 h
      exact .plain hn
  · intro h
    cases h with
    | @plain _ n h =>
      split
      · exact (h.head_ne (by decide)).elim
      · exact (h.head_ne (by decide)).elim
      · exact map_natural?_eq_some_iff.2 ⟨n, h, rfl⟩
    | @plus _ n h => exact map_natural?_eq_some_iff.2 ⟨n, h, rfl⟩
    | @minus _ n _ h => exact map_natural?_eq_some_iff.2 ⟨n, h, rfl⟩

theorem unsigned?_eq_some_iff {s : String} :
    unsigned? s = some n ↔ Denotes false s.toList n := by
  unfold unsigned?
  generalize s.toList = cs
  constructor
  · intro h
    split at h
    · exact .plus (natural?_eq_some_iff.1 h)
    · exact .plain (natural?_eq_some_iff.1 h)
  · intro h
    generalize hm : (n : Int) = m at h
    cases h with
    | @plain _ k h =>
      obtain rfl : n = k := Int.ofNat.inj hm
      split
      · exact (h.head_ne (by decide)).elim
      · exact natural?_eq_some_iff.2 h
    | @plus _ k h =>
      obtain rfl : n = k := Int.ofNat.inj hm
      exact natural?_eq_some_iff.2 h
    | minus hsigned h => cases hsigned

/-- What is denoted without a minus is not below zero. -/
theorem Denotes.exists_natural {m : Int} (h : Denotes false cs m) : ∃ n : Nat, m = n := by
  cases h with
  | @plain _ n h => exact ⟨n, rfl⟩
  | @plus _ n h => exact ⟨n, rfl⟩
  | minus hsigned h => cases hsigned

end Text

/-! ## Section 3: Words -/

/-- The machine words that integers are read into. -/
inductive Word where
  | int32
  | uint32
  | int64
  | uint64
deriving DecidableEq, Repr

namespace Word

open Text (Denotes)

/-- Whether a word has room for what is below zero. -/
def signed : Word → Bool
  | .int32 => true
  | .uint32 => false
  | .int64 => true
  | .uint64 => false

/-- The least integer of a word. -/
def low : Word → Int
  | .int32 => -2147483648
  | .uint32 => 0
  | .int64 => -9223372036854775808
  | .uint64 => 0

/-- The least integer above those of a word. -/
def limit : Word → Int
  | .int32 => 2147483648
  | .uint32 => 4294967296
  | .int64 => 9223372036854775808
  | .uint64 => 18446744073709551616

/-- An integer lies in the range of a word. -/
def Holds (w : Word) (n : Int) : Prop := w.low ≤ n ∧ n < w.limit

instance (w : Word) (n : Int) : Decidable (w.Holds n) := inferInstanceAs (Decidable (_ ∧ _))

/-- The text of a literal as an integer of a word. -/
def read? (w : Word) (l : Literal) : Option Int :=
  match w with
  | .int32 => l.asInt32?.map Int32.toInt
  | .uint32 => l.asUInt32?.map fun n => n.toNat
  | .int64 => l.asInt64?.map Int64.toInt
  | .uint64 => l.asUInt64?.map fun n => n.toNat

/-- What is taken into a word if it lies in the range, and read out again. -/
theorem bind_guard_eq_some_iff {α β : Type} {x : Option α} {p : α → Prop} [DecidablePred p]
    {into : α → β} {value : β → Int} (value' : α → Int)
    (hvalue : ∀ a, p a → value (into a) = value' a) {m : Int} :
    (x.bind fun a => if p a then some (into a) else none).map value = some m ↔
      ∃ a, x = some a ∧ p a ∧ value' a = m := by
  cases x with
  | none => simp
  | some a =>
    rw [Option.bind_some]
    by_cases hp : p a
    · simp [hp, hvalue a hp]
    · simp [hp]

variable {w : Word} {l : Literal} {m : Int}

/-- **A word reads exactly the texts that denote an integer in its range**, and reads this
    integer. -/
theorem read?_eq_some_iff : w.read? l = some m ↔ Denotes w.signed l.text.toList m ∧ w.Holds m := by
  have hsigned {p : Prop} {q : Int → Prop} (hq : q m ↔ p) :
      (∃ a, Text.signed? l.text = some a ∧ q a ∧ a = m) ↔
        Denotes true l.text.toList m ∧ p := by
    rw [← Text.signed?_eq_some_iff, ← hq]
    constructor
    · rintro ⟨a, ha, hqa, rfl⟩
      exact ⟨ha, hqa⟩
    · rintro ⟨ha, hqa⟩
      exact ⟨m, ha, hqa, rfl⟩
  have hunsigned {p : Prop} {q : Nat → Prop} (hq : ∀ n : Nat, (n : Int) = m → (q n ↔ p)) :
      (∃ n, Text.unsigned? l.text = some n ∧ q n ∧ (n : Int) = m) ↔
        Denotes false l.text.toList m ∧ p := by
    constructor
    · rintro ⟨n, hn, hqn, rfl⟩
      exact ⟨Text.unsigned?_eq_some_iff.1 hn, (hq n rfl).1 hqn⟩
    · rintro ⟨hm, hp⟩
      obtain ⟨n, rfl⟩ := hm.exists_natural
      exact ⟨n, Text.unsigned?_eq_some_iff.2 hm, (hq n rfl).2 hp, rfl⟩
  cases w with
  | int32 =>
    refine (bind_guard_eq_some_iff id fun n hn => ?_).trans (hsigned ?_)
    · exact Int32.toInt_ofInt_of_le hn.1 (Int.lt_of_le_of_lt hn.2 (by decide))
    · exact and_congr_right' (Int.lt_add_one_iff (b := _)).symm
  | uint32 =>
    refine (bind_guard_eq_some_iff (fun n : Nat => (n : Int)) fun n hn => ?_).trans
      (hunsigned fun n hn => ?_)
    · exact congrArg Int.ofNat (UInt32.toNat_ofNat_of_lt' hn)
    · rw [Holds, ← hn]
      show n < 2 ^ 32 ↔ (0 : Int) ≤ n ∧ (n : Int) < 2 ^ 32
      omega
  | int64 =>
    refine (bind_guard_eq_some_iff id fun n hn => ?_).trans (hsigned ?_)
    · exact Int64.toInt_ofInt_of_le hn.1 (Int.lt_of_le_of_lt hn.2 (by decide))
    · exact and_congr_right' (Int.lt_add_one_iff (b := _)).symm
  | uint64 =>
    refine (bind_guard_eq_some_iff (fun n : Nat => (n : Int)) fun n hn => ?_).trans
      (hunsigned fun n hn => ?_)
    · exact congrArg Int.ofNat (UInt64.toNat_ofNat_of_lt' hn)
    · rw [Holds, ← hn]
      show n < 2 ^ 64 ↔ (0 : Int) ≤ n ∧ (n : Int) < 2 ^ 64
      omega

end Word

/-! ## Section 4: Integers of a word, as stuffs -/

/-- An integer of one of the machine words. -/
inductive MachineInt where
  | int32 (n : Int32)
  | uint32 (n : UInt32)
  | int64 (n : Int64)
  | uint64 (n : UInt64)
deriving DecidableEq

namespace MachineInt

/-- The integer. -/
def value : MachineInt → Int
  | .int32 n => n.toInt
  | .uint32 n => n.toNat
  | .int64 n => n.toInt
  | .uint64 n => n.toNat

/-- The literal that is made of it. -/
def literal : MachineInt → Literal
  | .int32 n => .ofInt32 n
  | .uint32 n => .ofUInt32 n
  | .int64 n => .ofInt64 n
  | .uint64 n => .ofUInt64 n

theorem text_literal (i : MachineInt) : i.literal.text = Text.decimal i.value := by
  cases i <;> rfl

end MachineInt

namespace Word

open Text (Denotes)

/-- What is read of a canonical text. -/
theorem denotes_decimal_iff {w : Word} {n m : Int} :
    Denotes w.signed (Text.decimal n).toList m ∧ w.Holds m ↔ m = n ∧ w.Holds n := by
  have hdenotes : Denotes true (Text.decimal n).toList n :=
    Text.signed?_eq_some_iff.1 (Text.signed?_decimal n)
  constructor
  · rintro ⟨hm, hholds⟩
    have hsigned : Denotes true (Text.decimal n).toList m := by
      cases hw : w.signed with
      | true => exact hw ▸ hm
      | false => exact (hw ▸ hm : Denotes false _ m).of_unsigned
    -- a text denotes one integer
    have hsame := (Text.signed?_eq_some_iff.2 hsigned).symm.trans (Text.signed?_decimal n)
    obtain rfl : m = n := Option.some.inj hsame
    exact ⟨rfl, hholds⟩
  · rintro ⟨rfl, hholds⟩
    refine ⟨?_, hholds⟩
    cases hw : w.signed with
    | true => exact hdenotes
    | false =>
      have hlow : w.low = 0 := by cases w <;> simp_all [signed, low]
      obtain ⟨n, rfl⟩ := Int.eq_ofNat_of_zero_le (hlow ▸ hholds.1)
      exact Text.unsigned?_eq_some_iff.1 (Text.unsigned?_decimal n)

/-- **An integer of a word is read as any word that holds it**, and as no other. -/
theorem read?_literal (w : Word) (i : MachineInt) :
    w.read? i.literal = if w.Holds i.value then some i.value else none := by
  have hread (m : Int) : w.read? i.literal = some m ↔ m = i.value ∧ w.Holds i.value := by
    rw [read?_eq_some_iff, i.text_literal]
    exact denotes_decimal_iff
  split
  · next hholds => exact (hread i.value).2 ⟨rfl, hholds⟩
  · next hnot =>
    rw [Option.eq_none_iff_forall_ne_some]
    intro m hm
    exact hnot ((hread m).1 hm).2

/-- **Integers convert exactly.** A literal that is made of an integer of one word, in any role,
    is read as any of the words that hold this integer, and as no other. This is so when it
    was made, and still when it has been sent among others and read back, in either mode and
    with any registry. Any other text is read as a word exactly if it denotes an integer that
    the word holds: an optional sign, which is no minus for an unsigned word, and digits, one
    at least. -/
theorem integers_exact {κ : Type} [Content κ] :
    (∀ (i : MachineInt) (kind : Kind) (w : Word),
      w.read? (Stuff.ofLiteral kind i.literal).toLiteral =
        if w.Holds i.value then some i.value else none) ∧
    (∀ (c : Codec κ) (sent : List (Kind × MachineInt)) (owner : Option String),
      let p : Primitive κ :=
        { stuffs := .ofList (sent.map fun s => .ofLiteral s.1 s.2.literal) }
      let got := c.deserialize (Wire.serialize p) owner
      got.error = none ∧ ∀ (kind : Kind) (w : Word),
        (got.primitive.stuffs.of kind).map w.read? =
          (sent.filter fun s => s.1 = kind).map fun s =>
            if w.Holds s.2.value then some s.2.value else none) ∧
    ∀ (l : Literal) (w : Word) (m : Int),
      w.read? l = some m ↔ Denotes w.signed l.text.toList m ∧ w.Holds m := by
  refine ⟨fun i _ w => w.read?_literal i, fun c sent owner => ?_,
    fun l w m => read?_eq_some_iff⟩
  intro p got
  have hsafe : p.stuffs.Safe := by
    intro stuff hmem
    obtain ⟨s, -, rfl⟩ := List.mem_map.1 (Stuffs.mem_of_mem_ofList hmem)
    show Wire.BackslashSafe (Text.bytes s.2.literal.text)
    rw [s.2.text_literal]
    exact Text.backslashSafe_decimal _
  have hgot : got = { error := none, primitive := { stuffs := p.stuffs, owner }, codec := c } :=
    c.deserialize_serialize_of_safe rfl hsafe owner
  rw [hgot]
  refine ⟨rfl, fun kind w => ?_⟩
  have hrole : p.stuffs.of kind =
      (sent.filter fun s => s.1 = kind).map fun s => s.2.literal := by
    show (Stuffs.empty.commitAll _).of kind = _
    rw [Stuffs.of_commitAll, List.filter_map, List.map_map]
    cases kind <;> rfl
  show (p.stuffs.of kind).map w.read? = _
  rw [hrole, List.map_map]
  exact List.map_congr_left fun s _ => w.read?_literal s.2

end Word

/-- Zeros in front do not count, and a minus is none of an unsigned word, not even before zero. -/
example :
    Word.int32.read? (.ofString "-0002147483648") = some (-2147483648) ∧
      Word.int32.read? (.ofString "+2147483648") = none ∧
      Word.uint64.read? (.ofString "-0") = none := by
  decide +kernel

end Parley
