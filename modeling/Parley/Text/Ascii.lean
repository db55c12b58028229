/-! # Bytes with a meaning

  Names for the ASCII bytes that the grammars of this library give a meaning to.
-/

namespace Parley.Ascii

/-- The byte of a horizontal tab. -/
@[match_pattern] abbrev tab : UInt8 := 0x09

/-- The byte of a line feed. -/
@[match_pattern] abbrev lineFeed : UInt8 := 0x0A

/-- The byte of a form feed. -/
@[match_pattern] abbrev formFeed : UInt8 := 0x0C

/-- The byte of a carriage return. -/
@[match_pattern] abbrev carriageReturn : UInt8 := 0x0D

/-- The byte of a blank. -/
@[match_pattern] abbrev space : UInt8 := 0x20

/-- The byte of a double quote. -/
@[match_pattern] abbrev quote : UInt8 := 0x22

/-- The byte of `,`. -/
@[match_pattern] abbrev comma : UInt8 := 0x2C

/-- The byte of `:`. -/
@[match_pattern] abbrev colon : UInt8 := 0x3A

/-- The byte of `=`. -/
@[match_pattern] abbrev equals : UInt8 := 0x3D

/-- The byte of `@`. -/
@[match_pattern] abbrev atSign : UInt8 := 0x40

/-- The byte of an opening bracket. -/
@[match_pattern] abbrev openBracket : UInt8 := 0x5B

/-- The byte of a backslash. -/
@[match_pattern] abbrev backslash : UInt8 := 0x5C

/-- The byte of a closing bracket. -/
@[match_pattern] abbrev closeBracket : UInt8 := 0x5D

/-- The byte of an opening brace. -/
@[match_pattern] abbrev openBrace : UInt8 := 0x7B

/-- The byte of a closing brace. -/
@[match_pattern] abbrev closeBrace : UInt8 := 0x7D

/-- Whether a byte stands for a blank: space, tab, line feed, form feed or
    carriage return. -/
def isBlank (b : UInt8) : Bool :=
  b == space || b == tab || b == lineFeed || b == formFeed || b == carriageReturn

/-- Some bytes without the blanks at their end. -/
def trimEnd (bs : List UInt8) : List UInt8 := (bs.reverse.dropWhile isBlank).reverse

end Parley.Ascii
