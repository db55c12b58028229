import Parley.Json.Record
import Parley.Primitive
import Parley.Wire.Error
import Parley.Wire.Writer

/-! # Primitives as JSON documents

  A document has a version, a list of stuffs, and the name and tracker of a
  bound dialect. A stuff has the tag of its kind, the tag of its base, and a
  value: numbers, truth values and JSON stuffs are values of JSON itself, and
  **what has no such value is its text**. XML stuffs have no place in a document
  and are left out.

  Read back, every value must be one of its base; a text may be any value, and
  stands for its compact form then.
-/

namespace Parley.Document

/-! ### Writing -/

/-- The value of a literal; XML has none. -/
def value? (l : Literal) : Option Json :=
  match l.base with
  | .string => some (.string l.text)
  | .int | .long => some ((l.asInt64?.map Json.ofInt64).getD (.string l.text))
  | .uint | .ulong => some ((l.asUInt64?.map Json.ofUInt64).getD (.string l.text))
  | .float | .double => some ((l.asDouble?.bind Json.ofDouble?).getD (.string l.text))
  | .bool => some ((l.asBool?.map Json.bool).getD (.string l.text))
  | .json => some (l.asJson?.getD (.string l.text))
  | .xml => none

/-- A stuff in a document. -/
def ofStuff? (s : Stuff) : Option Json :=
  (value? s.toLiteral).map fun v =>
    .object [("literal", .string s.base.tag), ("type", .string s.kind.tag), ("value", v)]

/-- A dialect in a document. -/
def ofDialect (name tracker : String) : Json :=
  .object [("name", .string name), ("tracker", .string tracker)]

/-- The document of a primitive. -/
def ofPrimitive {κ : Type} (p : Primitive κ) : Json :=
  let dialect := p.dialect.map fun d => ("dialect", ofDialect d.name d.tracker)
  .object
    (dialect.toList ++
      [("stuffs", .array (p.stuffs.toList.filterMap ofStuff?)),
        ("version", .string Wire.protocolVersion)])

/-- The document of a primitive as pretty text. -/
def text {κ : Type} (p : Primitive κ) : String := (ofPrimitive p).pretty

/-! ### The shape of a document -/

/-- A stuff as it stands in a document. -/
structure Entry where
  /-- The tag of its kind. -/
  kind : String
  /-- Its value. -/
  value : Json
  /-- The tag of its base. -/
  base : String

/-- A document taken apart. -/
structure Parts where
  /-- The stuffs. -/
  entries : List Entry
  /-- The name and tracker of a dialect. -/
  dialect : Option (String × String)

/-- Reads a stuff. -/
def entry? (v : Json) : Option Entry :=
  match v.record? ["type", "value", "literal"] with
  | some [some (.string kind), some value, some (.string base)] => some { kind, value, base }
  | _ => none

/-- Reads the name and tracker of a dialect. -/
def dialect? (v : Json) : Option (String × String) :=
  match v.record? ["name", "tracker"] with
  | some [some (.string name), some (.string tracker)] => some (name, tracker)
  | _ => none

/-- Reads the stuffs, of which there may be no mention. -/
def entries? : Option Json → Option (List Entry)
  | none => some []
  | some (.array items) => items.mapM entry?
  | some _ => none

/-- Reads the dialect, of which there may be no mention. -/
def optionalDialect? : Option Json → Option (Option (String × String))
  | none => some none
  | some .null => some none
  | some v => (dialect? v).map some

/-- Takes a document apart. -/
def parts? (v : Json) : Option Parts :=
  match v.record? ["version", "stuffs", "dialect"] with
  | some [some (.string _), stuffs, dialect] => do
    let entries ← entries? stuffs
    let dialect ← optionalDialect? dialect
    some { entries, dialect }
  | _ => none

/-! ### Reading -/

/-- The canonical text of a value that is of a base. -/
def canonical? (base : Base) (v : Json) : Option String :=
  match base with
  | .string => some (v.asString?.getD v.compact)
  | .int => v.asInt32?.map fun n => (Literal.ofInt32 n).text
  | .uint => v.asUInt32?.map fun n => (Literal.ofUInt32 n).text
  | .long => v.asInt64?.map fun n => (Literal.ofInt64 n).text
  | .ulong => v.asUInt64?.map fun n => (Literal.ofUInt64 n).text
  | .float | .double => v.asDouble?.map Double.fixed
  | .bool => v.asBool?.map Literal.boolText
  | .json => some v.compact
  | .xml => none

/-- The stuff of an entry, if nothing is wrong with it. -/
def Entry.judge (e : Entry) : Except ProtocolError Stuff :=
  match Kind.ofTag? (Text.bytes e.kind) with
  | none => .error (.unknownKind e.kind)
  | some kind =>
    match Base.ofTag? (Text.bytes e.base) with
    | none => .error (.unknownBase e.base)
    | some .xml => .error (.unsupported "XML stuffs in JSON documents")
    | some base =>
      match canonical? base e.value with
      | none => .error (.invalidValue base e.value.compact)
      | some text => .ok { kind, base, text }

/-- Adds entries to the stuffs; in strict mode the first that is faulty ends it,
    in lenient mode it is left out. -/
def commitEntries (mode : Mode) (s : Stuffs) : List Entry → Stuffs × Option ProtocolError
  | [] => (s, none)
  | e :: rest =>
    match e.judge with
    | .ok stuff => commitEntries mode (s.commit stuff) rest
    | .error error =>
      if mode = .strict then (s, some error) else commitEntries mode s rest

end Parley.Document
