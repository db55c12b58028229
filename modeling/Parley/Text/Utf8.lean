/-! # Text and bytes

  Everything that travels is a list of bytes, everything that is said is
  Unicode text. This module joins the two:

  - `Text.bytes` is the UTF-8 form of a text.
  - `Text.ofBytes?` reads UTF-8 and refuses anything else.
  - `Text.repair` reads *any* bytes: what is UTF-8 is kept as it is, and each
    **maximal broken piece** (a lone byte, or a sequence cut short) becomes one
    replacement character U+FFFD.

  The repair runs a small machine over the bytes. Between characters there is
  nothing to remember; inside a character it holds the bits read so far, how
  many continuation bytes are owed, and the range the next one must lie in,
  which is where overlong forms, surrogates and values past U+10FFFF are
  refused.
-/

namespace Parley

/-- A string of bytes. -/
abbrev Bytes := List UInt8

namespace Text

/-! ### The strict pair -/

/-- The UTF-8 form of a text. -/
def bytes (s : String) : Bytes := s.toByteArray.data.toList

/-- The text that some bytes encode, if they are UTF-8. -/
def ofBytes? (bs : Bytes) : Option String := String.fromUTF8? bs.toByteArray

/-- The bytes of a text written in the program, one per ASCII character. -/
def ascii (s : String) : Bytes := s.toList.map fun c => UInt8.ofNat c.toNat

/-! ### Repair -/

/-- U+FFFD, which stands for a broken piece. -/
def replacement : Char := Char.ofNat 0xFFFD

/-- A character of several bytes that is under way. -/
structure Pending where
  /-- The bits read so far. -/
  bits : Nat
  /-- The continuation bytes still to come, at least one. -/
  owed : Nat
  /-- The least value the next byte may have. -/
  low : UInt8 := 0x80
  /-- The greatest value the next byte may have. -/
  high : UInt8 := 0xBF

/-- Reads a byte that stands where a character begins: the characters it
    completes and the sequence it opens. -/
def advanceFresh (b : UInt8) : List Char × Option Pending :=
  let n := b.toNat
  if n < 0x80 then ([Char.ofNat n], none)
  else if n < 0xC2 then ([replacement], none)
  else if n < 0xE0 then ([], some { bits := n - 0xC0, owed := 1 })
  else if n = 0xE0 then ([], some { bits := 0, owed := 2, low := 0xA0 })
  else if n = 0xED then ([], some { bits := 0xD, owed := 2, high := 0x9F })
  else if n < 0xF0 then ([], some { bits := n - 0xE0, owed := 2 })
  else if n = 0xF0 then ([], some { bits := 0, owed := 3, low := 0x90 })
  else if n < 0xF4 then ([], some { bits := n - 0xF0, owed := 3 })
  else if n = 0xF4 then ([], some { bits := 4, owed := 3, high := 0x8F })
  else ([replacement], none)

/-- Reads one byte. A byte that cannot continue the pending sequence breaks it:
    the sequence becomes one replacement character and the byte is read afresh. -/
def advance : Option Pending → UInt8 → List Char × Option Pending
  | none, b => advanceFresh b
  | some p, b =>
    if p.low ≤ b ∧ b ≤ p.high then
      let bits := p.bits * 64 + (b.toNat - 0x80)
      if p.owed ≤ 1 then ([Char.ofNat bits], none)
      else ([], some { bits, owed := p.owed - 1 })
    else
      let (out, next) := advanceFresh b
      (replacement :: out, next)

/-- The characters of the bytes, broken pieces replaced; a sequence that the
    end cuts short is one broken piece. -/
def scrub : Option Pending → Bytes → List Char
  | none, [] => []
  | some _, [] => [replacement]
  | state, b :: bs =>
    let (out, next) := advance state b
    out ++ scrub next bs

/-- Reads any bytes as text: unchanged if they are UTF-8, repaired otherwise. -/
def repair (bs : Bytes) : String :=
  match ofBytes? bs with
  | some s => s
  | none => String.ofList (scrub none bs)

end Text

end Parley
