import Parley.Text.Ascii
import Parley.Text.Utf8

/-! # The wire form, byte by byte

  The automaton reads the wire form one byte at a time. It skips to the first
  opening bracket, reads the version, and then, between blocks, skips to the
  next opening brace or bracket. It tells when a stuff has been closed and when
  a dialect block has been closed.

  Its **phase** holds exactly what is under way, so nothing can leak from one
  stuff into the next: the bytes of a tag while the tag is read, the cut tag and
  the bytes of the value while the value is read, and so on.

  In a value a backslash in front of a structural byte stands for that byte, and
  in front of any other byte both stand for themselves.
-/

namespace Parley.Wire

open Ascii

/-- Whether a byte gets a backslash in a value. -/
def isStructural (b : UInt8) : Bool :=
  b == openBrace || b == closeBrace || b == equals || b == colon

/-- A stuff as it came off the wire. -/
structure RawStuff where
  /-- The first three bytes of the tag of its kind. -/
  tag : Bytes
  /-- The bytes of its text. -/
  value : Bytes
  /-- The tag of its base. -/
  base : Bytes
deriving DecidableEq, Repr

/-- What has been read. -/
inductive Event where
  /-- A stuff was closed. -/
  | stuff (raw : RawStuff)
  /-- A dialect block was closed. -/
  | dialect (header : Bytes)
deriving DecidableEq, Repr

/-- What is under way. -/
inductive Phase where
  /-- Nothing has begun. -/
  | unknown
  /-- The version is being read. -/
  | version
  /-- Between blocks, before the first stuff or after one. -/
  | between (afterStuff : Bool)
  /-- The header of a dialect is being read. -/
  | header (afterStuff : Bool) (read : Array UInt8)
  /-- The tag of a kind is being read. -/
  | tag (read : Array UInt8)
  /-- A value is being read; the last byte may have been a backslash whose
      meaning is still open. -/
  | value (tag : Bytes) (read : Array UInt8) (escaped : Bool)
  /-- The tag of a base is being read. -/
  | base (tag value : Bytes) (read : Array UInt8)
deriving DecidableEq, Repr

/-- A reader of the wire form. -/
structure Automaton where
  /-- What is under way. -/
  phase : Phase := .unknown
  /-- The version as far as it has been read. -/
  version : Array UInt8 := #[]
deriving DecidableEq, Repr

/-- The names of the phases; a header counts to the place where it stands. -/
def Phase.name : Phase → String
  | .unknown => "unknown"
  | .version => "version"
  | .between false => "stuff"
  | .header false _ => "stuff"
  | .tag _ => "type"
  | .value .. => "value"
  | .base .. => "literal"
  | .between true => "dialect"
  | .header true _ => "dialect"

namespace Automaton

/-- A reader before its first byte. -/
def start : Automaton := {}

/-- Whether the bytes may end here without losing anything. -/
def atBoundary (a : Automaton) : Bool :=
  match a.phase with
  | .between _ => true
  | _ => false

/-- Reads one byte of a value whose last byte was a backslash of open meaning. -/
def unescape (read : Array UInt8) (b : UInt8) : Array UInt8 :=
  if isStructural b then read.push b else (read.push backslash).push b

/-- Reads one byte. -/
def feed (a : Automaton) (b : UInt8) : Automaton × Option Event :=
  match a with
  | ⟨.unknown, version⟩ => (⟨if b = openBracket then .version else .unknown, version⟩, none)
  | ⟨.version, version⟩ =>
    if b = closeBracket then (⟨.between false, version⟩, none)
    else (⟨.version, version.push b⟩, none)
  | ⟨.between afterStuff, version⟩ =>
    if b = openBrace then (⟨.tag #[], version⟩, none)
    else if b = openBracket then (⟨.header afterStuff #[], version⟩, none)
    else (⟨.between afterStuff, version⟩, none)
  | ⟨.header afterStuff read, version⟩ =>
    if b = closeBracket then (⟨.between afterStuff, version⟩, some (.dialect read.toList))
    else (⟨.header afterStuff (read.push b), version⟩, none)
  | ⟨.tag read, version⟩ =>
    if b = equals then (⟨.value (read.toList.take 3) #[] false, version⟩, none)
    else (⟨.tag (read.push b), version⟩, none)
  | ⟨.value tag read true, version⟩ => (⟨.value tag (unescape read b) false, version⟩, none)
  | ⟨.value tag read false, version⟩ =>
    if b = backslash then (⟨.value tag read true, version⟩, none)
    else if b = colon then (⟨.base tag read.toList #[], version⟩, none)
    else (⟨.value tag (read.push b) false, version⟩, none)
  | ⟨.base tag value read, version⟩ =>
    if b = closeBrace then
      (⟨.between true, version⟩, some (.stuff { tag, value, base := read.toList }))
    else (⟨.base tag value (read.push b), version⟩, none)

/-- Reads some bytes and keeps what was read, with the offset of the byte that
    closed it. -/
def run (a : Automaton) (offset : Nat) : Bytes → Automaton × List (Nat × Event)
  | [] => (a, [])
  | b :: bs =>
    let (next, event) := a.feed b
    let (last, events) := run next (offset + 1) bs
    (last, (event.map fun e => (offset, e)).toList ++ events)

end Automaton

end Parley.Wire
