import Parley.Primitive
import Parley.Wire.Automaton

/-! # The wire form, written

  A primitive goes out as the version in brackets, each stuff in braces, and
  the name and tracker of a bound dialect in brackets:

      [1.0]{sub=value:string}{obj=42:int}[ActionDialect@none]

  Inside a value the four **structural** bytes get a backslash in front. The
  backslash itself gets none: a value in which one already stands before such a
  byte, or at the very end, does not come back as it was.
-/

namespace Parley.Wire

open Ascii

/-- The version of the wire form. -/
def protocolVersion : String := "1.0"

/-- The bytes of a value as they are sent. -/
def escape (bs : Bytes) : Bytes := bs.flatMap fun b => if isStructural b then [backslash, b] else [b]

/-- What every primitive begins with. -/
def versionBlock : Bytes := openBracket :: Text.bytes protocolVersion ++ [closeBracket]

/-- A stuff as it is sent. -/
def stuffBlock (s : Stuff) : Bytes :=
  openBrace :: Text.bytes s.kind.tag ++ equals :: escape (Text.bytes s.text) ++
    colon :: Text.bytes s.base.tag ++ [closeBrace]

/-- The name and tracker of a dialect as they are sent. -/
def dialectBlock (name tracker : String) : Bytes :=
  openBracket :: Text.bytes name ++ atSign :: Text.bytes tracker ++ [closeBracket]

/-- A primitive as it is sent. -/
def serialize {κ : Type} (p : Primitive κ) : Bytes :=
  versionBlock ++ p.stuffs.toList.flatMap stuffBlock ++
    match p.dialect with
    | none => []
    | some d => dialectBlock d.name d.tracker

/-! ### Writing to a stream -/

/-- What a stream did with some bytes. -/
structure Written where
  /-- The bytes it took. -/
  taken : Bytes
  /-- Whether it took all of them and passed them on. -/
  complete : Bool
deriving DecidableEq, Repr

/-- Writes bytes to a stream that takes no more than `room` of them in all and
    that can pass on what it took if `flushes`. -/
def write (room : Option Nat) (flushes : Bool) (bs : Bytes) : Written :=
  match room with
  | none => { taken := bs, complete := flushes }
  | some n => { taken := bs.take n, complete := decide (bs.length ≤ n) && flushes }

end Parley.Wire
