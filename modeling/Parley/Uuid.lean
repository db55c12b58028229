import Parley.Text.Hex

/-! # Tags

  A tag that names a nucleus is sixteen bytes. It is written in lowercase
  hexadecimal, in five groups joined by hyphens; it is read in any case, in that
  form, without the hyphens, between braces, or after `urn:uuid:` in any case.
-/

namespace Parley

/-- A tag of sixteen bytes. -/
structure Uuid where
  /-- The bytes. -/
  bytes : Bytes
  /-- There are sixteen of them. -/
  length_bytes : bytes.length = 16
deriving DecidableEq

namespace Uuid

/-- The tag of some bytes, if there are sixteen. -/
def ofBytes? (bs : Bytes) : Option Uuid :=
  if h : bs.length = 16 then some ⟨bs, h⟩ else none

/-! ### Writing -/

/-- The written form: groups of eight, four, four, four and twelve digits. -/
def text (u : Uuid) : String :=
  let group (start stop : Nat) := Text.hex ((u.bytes.take stop).drop start)
  group 0 4 ++ "-" ++ group 4 6 ++ "-" ++ group 6 8 ++ "-" ++ group 8 10 ++ "-" ++ group 10 16

/-! ### Reading -/

/-- Reads thirty-two digits. -/
def ofDigits? (cs : List Char) : Option Uuid := (Text.hexBytes? cs).bind ofBytes?

/-- Reads the form with hyphens: they stand after the eighth, twelfth, sixteenth
    and twentieth digit. -/
def ofHyphenated? (cs : List Char) : Option Uuid :=
  if cs.length = 36 ∧ cs[8]? = some '-' ∧ cs[13]? = some '-' ∧ cs[18]? = some '-' ∧
      cs[23]? = some '-' then
    ofDigits? (cs.take 8 ++ (cs.drop 9).take 4 ++ (cs.drop 14).take 4 ++ (cs.drop 19).take 4 ++
      cs.drop 24)
  else none

/-- What the name of a tag begins with, in lowercase. -/
def urn : List Char := "urn:uuid:".toList

/-- Reads a tag in any of its forms. -/
def read? (s : String) : Option Uuid :=
  let cs := s.toList
  if cs.length = 32 then ofDigits? cs
  else if cs.length = 36 then ofHyphenated? cs
  else if cs.length = 38 ∧ cs.head? = some '\x7b' ∧ cs.getLast? = some '\x7d' then
    ofHyphenated? ((cs.drop 1).take 36)
  else if cs.length = 45 ∧ (cs.take 9).map Char.toLower = urn then ofHyphenated? (cs.drop 9)
  else none

end Uuid

end Parley
