import Parley.Stuff.Literal

/-! # What can go wrong in reading and writing

  The causes for which a primitive cannot be read or written. Reading in lenient
  mode meets only those that concern the stream itself; the others are found in
  strict mode alone.
-/

namespace Parley

/-- Why a primitive cannot be read or written. -/
inductive ProtocolError where
  /-- The stream failed. -/
  | stream
  /-- A document is no JSON, or not one of a primitive. -/
  | document
  /-- The bytes ended inside a structure. -/
  | unexpectedEnd (phase : String)
  /-- A tag names no kind. -/
  | unknownKind (tag : String)
  /-- A tag names no base. -/
  | unknownBase (tag : String)
  /-- A value is not of its base. -/
  | invalidValue (base : Base) (value : String)
  /-- Something has no form here. -/
  | unsupported (what : String)
deriving DecidableEq, Repr

/-- The message of an error; the stream and the document have none of their
    own. -/
def ProtocolError.message : ProtocolError → String
  | .stream => "IO error"
  | .document => "JSON error"
  | .unexpectedEnd phase => "Unexpected end of stream in " ++ phase ++ " state"
  | .unknownKind tag => "Unknown stuff type '" ++ tag ++ "'"
  | .unknownBase tag => "Unknown literal '" ++ tag ++ "'"
  | .invalidValue base value =>
    "Value '" ++ value ++ "' is not a valid " ++ base.tag ++ " literal"
  | .unsupported what => "Unsupported: " ++ what

/-- What to do about a stuff that cannot be read. -/
inductive Mode where
  /-- Leave it out and go on. -/
  | lenient
  /-- Stop at the first one. -/
  | strict
deriving DecidableEq, Repr

/-- The name of a mode in a configuration. -/
def Mode.name : Mode → String
  | .lenient => "lenient"
  | .strict => "strict"

end Parley
