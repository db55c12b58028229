import Parley.Text.Utf8

/-! # Kinds of stuff

  The grammatical role of a term inside a primitive. Each kind has a tag of
  three letters; a longer tag is known by its first three bytes.
-/

namespace Parley

/-- The role of a stuff. -/
inductive Kind where
  /-- Tagged `sub`. -/
  | subject
  /-- Tagged `pre`. -/
  | predicate
  /-- Tagged `obj`. -/
  | objective
  /-- Tagged `att`. -/
  | attributive
  /-- Tagged `adv`. -/
  | adverbial
  /-- Tagged `com`. -/
  | complement
deriving DecidableEq, Repr

namespace Kind

/-- All kinds, in the order in which they are sent. -/
def all : List Kind := [.subject, .predicate, .objective, .attributive, .adverbial, .complement]

/-- The tag of a kind. -/
def tag : Kind → String
  | .subject => "sub"
  | .predicate => "pre"
  | .objective => "obj"
  | .attributive => "att"
  | .adverbial => "adv"
  | .complement => "com"

/-- The kind that a tag names; only its first three bytes count. -/
def ofTag? (tag : Bytes) : Option Kind :=
  all.find? fun kind => tag.take 3 == Text.bytes kind.tag

end Kind

end Parley
