import Parley.Document
import Parley.Json.Parser
import Parley.Registry
import Parley.Wire.Reader

/-! # Reading primitives

  A codec reads primitives in one mode, and resolves dialect blocks through a
  registry if it has one. Stuffs are committed to the primitive as they are
  read, so after a failure the primitive keeps what came before it. **Only a
  reading that succeeds** binds a dialect and calls a hook; a dialect whose name
  is not registered is left unbound.
-/

namespace Parley

variable {κ : Type}

/-- How primitives are read. -/
structure Codec (κ : Type) where
  /-- What to do about stuffs that cannot be read. -/
  mode : Mode := .lenient
  /-- Where dialects are resolved. -/
  registry : Option (Registry κ) := none

/-- What a reading came to. -/
structure Received (κ : Type) where
  /-- Why it failed, if it did. -/
  error : Option ProtocolError
  /-- The primitive after it. -/
  primitive : Primitive κ
  /-- The codec after it. -/
  codec : Codec κ
  /-- The hooks that were called. -/
  calls : List (HookCall κ) := []

namespace Codec

/-- Binds the named dialect to a primitive, if it is registered. -/
def bind [Content κ] (c : Codec κ) (p : Primitive κ) (name tracker : String) : Received κ :=
  match c.registry with
  | none => { error := none, primitive := p, codec := c }
  | some r =>
    match r.rebuild name tracker p with
    | (some d, r, calls) =>
      { error := none, primitive := p.capture d, codec := { c with registry := some r }, calls }
    | (none, r, calls) =>
      { error := none, primitive := p, codec := { c with registry := some r }, calls }

/-! ### The wire form -/

/-- What a reading with a header, without one, or with an error comes to. -/
def conclude [Content κ] (c : Codec κ) (p : Primitive κ)
    (outcome : Except ProtocolError (Option Bytes)) : Received κ :=
  match outcome with
  | .error e => { error := some e, primitive := p, codec := c }
  | .ok none => { error := none, primitive := p, codec := c }
  | .ok (some header) =>
    let (name, tracker) := Wire.headerParts header
    c.bind p name tracker

/-- Reads one primitive from a source into one that is there: what it came to, and
    the source after it. -/
def read [Content κ] (c : Codec κ) (p : Primitive κ) (source : Wire.Source) :
    Received κ × Wire.Source :=
  let reading := Wire.read c.mode p.stuffs source
  (c.conclude { p with stuffs := reading.stuffs } reading.outcome, reading.source)

/-- Reads one primitive of a peer from bytes. -/
def deserialize [Content κ] (c : Codec κ) (bs : Bytes) (owner : Option String) : Received κ :=
  (c.read { owner } (.ofBytes bs)).1

/-! ### Documents -/

/-- Reads a document into a primitive. -/
def readDocument [Content κ] (c : Codec κ) (p : Primitive κ) (v : Json) : Received κ :=
  match Document.parts? v with
  | none => { error := some .document, primitive := p, codec := c }
  | some parts =>
    match Document.commitEntries c.mode p.stuffs parts.entries with
    | (stuffs, some e) => { error := some e, primitive := { p with stuffs }, codec := c }
    | (stuffs, none) =>
      match parts.dialect with
      | none => { error := none, primitive := { p with stuffs }, codec := c }
      | some (name, tracker) => c.bind { p with stuffs } name tracker

/-- Reads one primitive of a peer from the text of a document. -/
def parse [Content κ] (c : Codec κ) (text : String) (owner : Option String) : Received κ :=
  match Json.read? text with
  | none => { error := some .document, primitive := { owner }, codec := c }
  | some v => c.readDocument { owner } v

end Codec

end Parley
