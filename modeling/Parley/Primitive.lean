import Parley.Dialect.Basic

/-! # Primitives

  A primitive is the unit of talk: stuffs, the peer they come from or go to, and
  perhaps a dialect that is bound to them. Two primitives are the same in
  content when their stuffs are.
-/

namespace Parley

/-- The unit of talk. -/
structure Primitive (κ : Type) where
  /-- What is said. -/
  stuffs : Stuffs := {}
  /-- The peer of origin or destination. -/
  owner : Option String := none
  /-- The dialect bound to it. -/
  dialect : Option (Dialect κ) := none
deriving Repr

namespace Primitive

variable {κ : Type}

/-- A primitive with nothing in it. -/
def empty : Primitive κ := {}

/-- Adds a stuff behind those of its role. -/
def commit (p : Primitive κ) (stuff : Stuff) : Primitive κ :=
  { p with stuffs := p.stuffs.commit stuff }

/-- Drops the stuffs and keeps owner and dialect. -/
def clear (p : Primitive κ) : Primitive κ := { p with stuffs := .empty }

/-- Sets the peer, also of a bound dialect. -/
def setOwner (p : Primitive κ) (tag : String) : Primitive κ :=
  { p with owner := some tag, dialect := p.dialect.map fun d => d.setOwner tag }

/-- Binds a dialect in place of any other. -/
def capture (p : Primitive κ) (d : Dialect κ) : Primitive κ := { p with dialect := some d }

/-- The primitive of a dialect, bound to it and owned by its peer. -/
def ofDialect? [Content κ] (d : Dialect κ) : Option (Primitive κ) :=
  d.translate?.map fun stuffs => { stuffs, owner := d.owner, dialect := some d }

end Primitive

end Parley
