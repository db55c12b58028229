import Parley.Text.Ascii
import Parley.Text.Hex

/-! # JSON terms

  A term is JSON text taken apart and **not yet judged**: strings are the bytes
  they spell, numbers the digits they are written with, objects the fields in
  the order of the text, repeated keys included. What a term is worth as a
  value, whether its strings are UTF-8 and its numbers within range, is asked
  only of the parts that somebody reads.

  The grammar is strict: no comma too many, no control character inside a
  string, no leading zero, no sign but `-`, nothing after the term but blanks.

  An escape `\uXXXX` of half a surrogate pair that lacks its other half spells
  the three bytes that UTF-8 would use if it allowed surrogates; it does not, so
  such a string is no text.
-/

namespace Parley.Json

open Ascii

/-- The digits that a number is written with. -/
structure Lexeme where
  /-- Whether a `-` stands in front. -/
  negative : Bool
  /-- The digits before the point, at least one. -/
  whole : List Nat
  /-- The digits after the point, if there is one. -/
  fraction : Option (List Nat)
  /-- The exponent, if there is one: whether it is negative, and its digits. -/
  exponent : Option (Bool × List Nat)
deriving DecidableEq, Repr

/-- JSON text taken apart. -/
inductive Term where
  /-- The word `null`. -/
  | null
  /-- One of the words `true` and `false`. -/
  | bool (b : Bool)
  /-- A number, by its digits. -/
  | number (n : Lexeme)
  /-- A string, by the bytes it spells. -/
  | string (raw : Bytes)
  /-- A sequence of terms. -/
  | array (items : List Term)
  /-- Fields in the order of the text. -/
  | object (fields : List (Bytes × Term))
deriving Inhabited

namespace Term

/-! ### Blanks and words -/

/-- Whether a byte may stand between terms. -/
def isBlank (b : UInt8) : Bool := b == space || b == lineFeed || b == carriageReturn || b == tab

/-- Drops the blanks in front. -/
def skip (bs : Bytes) : Bytes := bs.dropWhile isBlank

/-- What follows a word, if the bytes begin with it. -/
def word? (word bs : Bytes) : Option Bytes :=
  if word.isPrefixOf bs then some (bs.drop word.length) else none

/-! ### Strings -/

/-- The value of four hexadecimal digits. -/
def hexFour? (a b c d : UInt8) : Option Nat := do
  let digit (x : UInt8) := Text.hexValue? (Char.ofNat x.toNat)
  some (((((← digit a) * 16 + (← digit b)) * 16) + (← digit c)) * 16 + (← digit d))

/-- The byte that a one-letter escape stands for. -/
def shortEscape? (c : UInt8) : Option UInt8 :=
  if c = quote ∨ c = backslash ∨ c = 0x2F then some c
  else if c = 0x62 then some 0x08
  else if c = 0x66 then some 0x0C
  else if c = 0x6E then some lineFeed
  else if c = 0x72 then some carriageReturn
  else if c = 0x74 then some tab
  else none

/-- The bytes of a sixteen-bit unit on its own. -/
def unitBytes (n : Nat) : Bytes :=
  if n < 0x80 then [UInt8.ofNat n]
  else if n < 0x800 then [UInt8.ofNat (0xC0 + n / 64), UInt8.ofNat (0x80 + n % 64)]
  else [UInt8.ofNat (0xE0 + n / 4096), UInt8.ofNat (0x80 + n / 64 % 64), UInt8.ofNat (0x80 + n % 64)]

/-- The bytes of a surrogate pair. -/
def pairBytes (high low : Nat) : Bytes :=
  let n := 0x10000 + (high - 0xD800) * 1024 + (low - 0xDC00)
  [UInt8.ofNat (0xF0 + n / 262144), UInt8.ofNat (0x80 + n / 4096 % 64),
    UInt8.ofNat (0x80 + n / 64 % 64), UInt8.ofNat (0x80 + n % 64)]

/-- Whether a unit opens a surrogate pair. -/
def isHigh (n : Nat) : Bool := 0xD800 ≤ n && n < 0xDC00

/-- Whether a unit closes a surrogate pair. -/
def isLow (n : Nat) : Bool := 0xDC00 ≤ n && n < 0xE000

/-- Puts bytes in front of what has been read. -/
def putFront (bs : Bytes) : Option (Bytes × Bytes) → Option (Bytes × Bytes) :=
  Option.map fun (raw, rest) => (bs ++ raw, rest)

/-- The letter that opens an escape of four digits. -/
@[match_pattern] abbrev letterU : UInt8 := 0x75

/-- Reads a string after its opening quote: the bytes it spells, and what
    follows its closing quote. -/
def string? : Bytes → Option (Bytes × Bytes)
  | [] => none
  | quote :: rest => some ([], rest)
  | backslash :: letterU :: a :: b :: c :: d :: rest =>
    match hexFour? a b c d with
    | none => none
    | some unit =>
      if isHigh unit then
        match rest with
        | backslash :: letterU :: e :: f :: g :: h :: rest' =>
          match hexFour? e f g h with
          | none => none
          | some low =>
            if isLow low then putFront (pairBytes unit low) (string? rest')
            else putFront (unitBytes unit) (string? (backslash :: letterU :: e :: f :: g :: h :: rest'))
        | rest => putFront (unitBytes unit) (string? rest)
      else putFront (unitBytes unit) (string? rest)
  | backslash :: c :: rest =>
    match shortEscape? c with
    | none => none
    | some b => putFront [b] (string? rest)
  | b :: rest => if b < space ∨ b = backslash then none else putFront [b] (string? rest)
termination_by structural bs => bs

/-! ### Numbers -/

/-- The value of a decimal digit. -/
def digit? (b : UInt8) : Option Nat :=
  if 0x30 ≤ b ∧ b ≤ 0x39 then some (b.toNat - 48) else none

/-- Reads the digits in front. -/
def digits : Bytes → List Nat × Bytes
  | [] => ([], [])
  | b :: rest =>
    match digit? b with
    | none => ([], b :: rest)
    | some n => let (ns, rest) := digits rest; (n :: ns, rest)

/-- Reads digits of which there is at least one. -/
def someDigits? (bs : Bytes) : Option (List Nat × Bytes) :=
  match digits bs with
  | ([], _) => none
  | found => some found

/-- Reads the digits before the point, without a needless zero. -/
def whole? (bs : Bytes) : Option (List Nat × Bytes) :=
  match digits bs with
  | ([], _) => none
  | (0 :: _ :: _, _) => none
  | found => some found

/-- Reads a point and the digits after it, if there is a point. -/
def fraction? : Bytes → Option (Option (List Nat) × Bytes)
  | 0x2E :: rest => (someDigits? rest).map fun (ns, rest) => (some ns, rest)
  | rest => some (none, rest)

/-- Reads an exponent, if there is one. -/
def exponent? : Bytes → Option (Option (Bool × List Nat) × Bytes)
  | [] => some (none, [])
  | b :: rest =>
    if b = 0x65 ∨ b = 0x45 then
      match rest with
      | 0x2D :: rest => (someDigits? rest).map fun (ns, rest) => (some (true, ns), rest)
      | 0x2B :: rest => (someDigits? rest).map fun (ns, rest) => (some (false, ns), rest)
      | rest => (someDigits? rest).map fun (ns, rest) => (some (false, ns), rest)
    else some (none, b :: rest)

/-- Reads an unsigned number. -/
def magnitude? (negative : Bool) (bs : Bytes) : Option (Lexeme × Bytes) := do
  let (whole, rest) ← whole? bs
  let (fraction, rest) ← fraction? rest
  let (exponent, rest) ← exponent? rest
  some ({ negative, whole, fraction, exponent }, rest)

/-- Reads a number. -/
def number? : Bytes → Option (Lexeme × Bytes)
  | 0x2D :: rest => magnitude? true rest
  | rest => magnitude? false rest

/-! ### Terms -/

/-- Reads what is no string, array or object. -/
def plain? (bs : Bytes) : Option (Term × Bytes) :=
  match word? (Text.ascii "null") bs with
  | some rest => some (.null, rest)
  | none =>
    match word? (Text.ascii "true") bs with
    | some rest => some (.bool true, rest)
    | none =>
      match word? (Text.ascii "false") bs with
      | some rest => some (.bool false, rest)
      | none => (number? bs).map fun (n, rest) => (.number n, rest)

mutual

/-- Reads one term. The first argument bounds the depth of the reading: an array
    or object spends two of it and has two bytes of its own, an item or field
    spends one and is set apart by a byte, so the number of bytes is enough. -/
def read? : Nat → Bytes → Option (Term × Bytes)
  | 0, _ => none
  | fuel + 1, bs =>
    match skip bs with
    | quote :: rest => (string? rest).map fun (raw, rest) => (.string raw, rest)
    | openBracket :: rest =>
      match skip rest with
      | closeBracket :: rest => some (.array [], rest)
      | rest => (items? fuel rest).map fun (ts, rest) => (.array ts, rest)
    | openBrace :: rest =>
      match skip rest with
      | closeBrace :: rest => some (.object [], rest)
      | rest => (fields? fuel rest).map fun (fs, rest) => (.object fs, rest)
    | bs => plain? bs

/-- Reads the items of an array, of which there is at least one. -/
def items? : Nat → Bytes → Option (List Term × Bytes)
  | 0, _ => none
  | fuel + 1, bs => do
    let (t, rest) ← read? fuel bs
    match skip rest with
    | comma :: rest => (items? fuel rest).map fun (ts, rest) => (t :: ts, rest)
    | closeBracket :: rest => some ([t], rest)
    | _ => none

/-- Reads the fields of an object, of which there is at least one. -/
def fields? : Nat → Bytes → Option (List (Bytes × Term) × Bytes)
  | 0, _ => none
  | fuel + 1, bs =>
    match skip bs with
    | quote :: rest => do
      let (key, rest) ← string? rest
      match skip rest with
      | colon :: rest => do
        let (t, rest) ← read? fuel rest
        match skip rest with
        | comma :: rest => (fields? fuel rest).map fun (fs, rest) => ((key, t) :: fs, rest)
        | closeBrace :: rest => some ([(key, t)], rest)
        | _ => none
      | _ => none
    | _ => none

end

/-- Takes a whole text apart. -/
def parse? (bs : Bytes) : Option Term :=
  match read? (bs.length + 1) bs with
  | some (t, rest) => if skip rest = [] then some t else none
  | none => none

end Term

end Parley.Json
