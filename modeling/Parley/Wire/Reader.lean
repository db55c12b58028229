import Parley.Dialect.Meta
import Parley.Stuff.Basic
import Parley.Wire.Automaton
import Parley.Wire.Error

/-! # The wire form, read

  Reading runs the automaton over whatever the source hands out and commits the
  stuffs it closes. A read ends **after a dialect block**, whose header it hands
  back, or else where the source ends.

  - In strict mode the first stuff that cannot be read ends the reading, and so
    does an end inside a structure. Of a faulty stuff the kind is looked at
    first, then the base, then the text.
  - In lenient mode such a stuff is left out; a text that is no UTF-8 is
    repaired.

  A source hands out its bytes in **refills**. A refill that was interrupted is
  asked for again; one that fails ends the read; an empty one is the end for the
  read that meets it. Of the refill in which a read ends well, the bytes behind
  the dialect block stay for the next read; a refill in which a read fails stays
  as a whole.
-/

namespace Parley.Wire

/-! ### One stuff -/

/-- The kind and base of a stuff, the kind looked at first. -/
def RawStuff.tags (raw : RawStuff) : Except ProtocolError (Kind × Base) :=
  match Kind.ofTag? raw.tag with
  | none => .error (.unknownKind (Text.repair raw.tag))
  | some kind =>
    match Base.ofTag? raw.base with
    | none => .error (.unknownBase (Text.repair raw.base))
    | some base => .ok (kind, base)

/-- The stuff, if nothing is wrong with it. -/
def RawStuff.judge (raw : RawStuff) : Except ProtocolError Stuff :=
  match raw.tags with
  | .error e => .error e
  | .ok (kind, base) =>
    match Text.ofBytes? raw.value with
    | none => .error (.invalidValue base (Text.repair raw.value))
    | some text => .ok { kind, base, text }

/-- The stuff with its text repaired, if its tags are known. -/
def RawStuff.salvage? (raw : RawStuff) : Option Stuff :=
  match raw.tags with
  | .error _ => none
  | .ok (kind, base) => some { kind, base, text := Text.repair raw.value }

/-- What has come off the wire: a stuff, nothing that counts, or an error that ends
    the reading. -/
def RawStuff.accept (mode : Mode) (raw : RawStuff) : Except ProtocolError (Option Stuff) :=
  match mode with
  | .strict => raw.judge.map some
  | .lenient => .ok raw.salvage?

/-! ### One stretch of bytes -/

/-- Where a stretch of bytes has led. -/
inductive Progress where
  /-- To its end. -/
  | running (a : Automaton) (s : Stuffs)
  /-- Through a dialect block, before the rest. -/
  | finished (header : Bytes) (s : Stuffs) (rest : Bytes)
  /-- To a stuff that cannot be read. -/
  | failed (e : ProtocolError) (s : Stuffs)
deriving DecidableEq, Repr

/-- Reads a stretch of bytes. -/
def scan (mode : Mode) (a : Automaton) (s : Stuffs) : Bytes → Progress
  | [] => .running a s
  | b :: bs =>
    match a.feed b with
    | (a, none) => scan mode a s bs
    | (_, some (.dialect header)) => .finished header s bs
    | (a, some (.stuff raw)) =>
      match raw.accept mode with
      | .error e => .failed e s
      | .ok none => scan mode a s bs
      | .ok (some stuff) => scan mode a (s.commit stuff) bs

/-! ### One read -/

/-- What a source hands out when it is asked for more. -/
inductive Refill where
  /-- Some bytes; none at all means the end. -/
  | bytes (bs : Bytes)
  /-- The asking was interrupted. -/
  | interrupted
  /-- The source failed. -/
  | broken
deriving DecidableEq, Repr

/-- The refills still to come. -/
abbrev Source := List Refill

/-- Puts unread bytes in front of a source. -/
def putBack (rest : Bytes) (source : Source) : Source :=
  if rest = [] then source else .bytes rest :: source

/-- What a read came to. -/
structure Reading where
  /-- The header of the dialect block that ended it, if one did, or the error. -/
  outcome : Except ProtocolError (Option Bytes)
  /-- The stuffs after it. -/
  stuffs : Stuffs
  /-- What the source still has. -/
  source : Source

/-- The outcome where the bytes end. -/
def ending (mode : Mode) (a : Automaton) : Except ProtocolError (Option Bytes) :=
  if mode = .strict ∧ a.atBoundary = false then .error (.unexpectedEnd a.phase.name) else .ok none

/-- Reads on from an automaton that is under way. -/
def readOn (mode : Mode) (a : Automaton) (s : Stuffs) : Source → Reading
  | [] => { outcome := ending mode a, stuffs := s, source := [] }
  | .interrupted :: source => readOn mode a s source
  | .broken :: source => { outcome := .error .stream, stuffs := s, source }
  | .bytes [] :: source => { outcome := ending mode a, stuffs := s, source }
  | .bytes (b :: bs) :: source =>
    match scan mode a s (b :: bs) with
    | .running a s => readOn mode a s source
    | .finished header s rest =>
      { outcome := .ok (some header), stuffs := s, source := putBack rest source }
    | .failed e s => { outcome := .error e, stuffs := s, source := .bytes (b :: bs) :: source }

/-- Reads the stuffs of one primitive, behind those that are there. -/
def read (mode : Mode) (s : Stuffs) (source : Source) : Reading := readOn mode .start s source

/-- The source that hands out some bytes at once. -/
def Source.ofBytes (bs : Bytes) : Source := [.bytes bs]

/-- The bytes that a source still has. -/
def Source.unread : Source → Bytes
  | [] => []
  | .bytes bs :: source => bs ++ Source.unread source
  | _ :: source => Source.unread source

/-- Cuts bytes into refills of at most `size`; without any size there is nothing
    to hand out. -/
def Source.buffered (size : Nat) (bs : Bytes) : Source :=
  if _h : size = 0 ∨ bs = [] then []
  else .bytes (bs.take size) :: Source.buffered size (bs.drop size)
termination_by bs.length
decreasing_by
  have : 0 < bs.length := List.length_pos_iff.2 fun e => _h (.inr e)
  simp only [List.length_drop]
  omega

/-! ### The header of a dialect -/

/-- The name and tracker in a header: what stands before and after the first
    `@`; without one the tracker is the usual one. -/
def headerParts (header : Bytes) : String × String :=
  let cs := (Text.repair header).toList
  match cs.dropWhile (· ≠ '@') with
  | [] => (String.ofList cs, defaultTracker)
  | _ :: tracker => (String.ofList (cs.takeWhile (· ≠ '@')), String.ofList tracker)

end Parley.Wire
