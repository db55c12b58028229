import Parley.Json.Parser
import Parley.Json.Printer
import Parley.Number.Decimal
import Parley.Number.Fixed
import Parley.Text.Integer

/-! # Literals

  A literal is a text together with the **base** it is meant in. The makers
  (`ofInt32`, `ofJson`, …) write the canonical text of a value; the readings
  (`asInt32?`, `asJson?`, …) look at the text alone, so any literal may be read
  as anything that its text denotes.
-/

namespace Parley

/-- What the text of a literal is meant to be. -/
inductive Base where
  /-- Text as it is. -/
  | string
  /-- A signed 32-bit integer. -/
  | int
  /-- An unsigned 32-bit integer. -/
  | uint
  /-- A signed 64-bit integer. -/
  | long
  /-- An unsigned 64-bit integer. -/
  | ulong
  /-- A 32-bit number with four decimal places. -/
  | float
  /-- A 64-bit number with four decimal places. -/
  | double
  /-- A truth value. -/
  | bool
  /-- A JSON value in compact form. -/
  | json
  /-- XML text. -/
  | xml
deriving DecidableEq, Repr

namespace Base

/-- All bases. -/
def all : List Base :=
  [.string, .int, .uint, .long, .ulong, .float, .double, .bool, .json, .xml]

/-- The tag of a base. -/
def tag : Base → String
  | .string => "string"
  | .int => "int"
  | .uint => "uint"
  | .long => "long"
  | .ulong => "ulong"
  | .float => "float"
  | .double => "double"
  | .bool => "bool"
  | .json => "json"
  | .xml => "xml"

/-- The base that a tag names; every byte counts. -/
def ofTag? (tag : Bytes) : Option Base :=
  all.find? fun base => tag == Text.bytes base.tag

end Base

/-- A text and what it is meant to be. -/
structure Literal where
  /-- The text. -/
  text : String
  /-- What it is meant to be. -/
  base : Base
deriving DecidableEq, Repr

namespace Literal

/-! ### Makers -/

/-- Text as it is. -/
def ofString (s : String) : Literal := { text := s, base := .string }

/-- A signed 32-bit integer. -/
def ofInt32 (n : Int32) : Literal := { text := Text.decimal n.toInt, base := .int }

/-- An unsigned 32-bit integer. -/
def ofUInt32 (n : UInt32) : Literal := { text := Text.decimal n.toNat, base := .uint }

/-- A signed 64-bit integer. -/
def ofInt64 (n : Int64) : Literal := { text := Text.decimal n.toInt, base := .long }

/-- An unsigned 64-bit integer. -/
def ofUInt64 (n : UInt64) : Literal := { text := Text.decimal n.toNat, base := .ulong }

/-- A 32-bit number, rounded to four places. -/
def ofSingle (x : Single) : Literal := { text := x.fixed, base := .float }

/-- A 64-bit number, rounded to four places. -/
def ofDouble (x : Double) : Literal := { text := x.fixed, base := .double }

/-- The text of a truth value. -/
def boolText (b : Bool) : String := if b then "true" else "false"

/-- A truth value. -/
def ofBool (b : Bool) : Literal := { text := boolText b, base := .bool }

/-- A JSON value. -/
def ofJson (v : Json) : Literal := { text := v.compact, base := .json }

/-- XML text as it is. -/
def ofXml (s : String) : Literal := { text := s, base := .xml }

/-! ### Readings -/

/-- The text as a signed 32-bit integer. -/
def asInt32? (l : Literal) : Option Int32 := Text.int32? l.text

/-- The text as an unsigned 32-bit integer. -/
def asUInt32? (l : Literal) : Option UInt32 := Text.uint32? l.text

/-- The text as a signed 64-bit integer. -/
def asInt64? (l : Literal) : Option Int64 := Text.int64? l.text

/-- The text as an unsigned 64-bit integer. -/
def asUInt64? (l : Literal) : Option UInt64 := Text.uint64? l.text

/-- The text as a 32-bit number. -/
def asSingle? (l : Literal) : Option Single := Single.read? l.text

/-- The text as a 64-bit number. -/
def asDouble? (l : Literal) : Option Double := Double.read? l.text

/-- The text as a truth value, in any case. -/
def asBool? (l : Literal) : Option Bool :=
  let word := l.text.toList.map Char.toLower
  if word = "true".toList then some true
  else if word = "false".toList then some false
  else none

/-- The text as a JSON value. -/
def asJson? (l : Literal) : Option Json := Json.read? l.text

end Literal

end Parley
