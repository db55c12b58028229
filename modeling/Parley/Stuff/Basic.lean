import Parley.Stuff.Kind
import Parley.Stuff.Literal

/-! # Stuffs

  A stuff is one term of a primitive: a literal in a role. `Stuffs` is what a
  primitive holds of them, **one ordered list per role**; the order between
  roles is not kept, and on the way out the roles follow one another in the
  order of `Kind.all`. `Stuffs.of` is the list of a role, and says all there is
  to say about stuffs.
-/

namespace Parley

/-- A literal in a role. -/
structure Stuff extends Literal where
  /-- The role. -/
  kind : Kind
deriving DecidableEq, Repr

namespace Stuff

/-- Puts a literal into a role. -/
def ofLiteral (kind : Kind) (literal : Literal) : Stuff := { toLiteral := literal, kind }

/-- A subject. -/
def subject (literal : Literal) : Stuff := ofLiteral .subject literal

/-- A predicate. -/
def predicate (literal : Literal) : Stuff := ofLiteral .predicate literal

/-- An objective. -/
def objective (literal : Literal) : Stuff := ofLiteral .objective literal

/-- An attributive. -/
def attributive (literal : Literal) : Stuff := ofLiteral .attributive literal

/-- An adverbial. -/
def adverbial (literal : Literal) : Stuff := ofLiteral .adverbial literal

/-- A complement. -/
def complement (literal : Literal) : Stuff := ofLiteral .complement literal

/-- The same literal in another role. -/
def withKind (s : Stuff) (kind : Kind) : Stuff := { s with kind }

/-- A stuff for reading: its tag, its text and the tag of its base. -/
def display (s : Stuff) : String := s.kind.tag ++ "=" ++ s.text ++ ":" ++ s.base.tag

end Stuff

/-- The literals of a primitive by role, those of a role in the order of arrival. -/
structure Stuffs where
  /-- The subjects. -/
  subjects : Array Literal := #[]
  /-- The predicates. -/
  predicates : Array Literal := #[]
  /-- The objectives. -/
  objectives : Array Literal := #[]
  /-- The attributives. -/
  attributives : Array Literal := #[]
  /-- The adverbials. -/
  adverbials : Array Literal := #[]
  /-- The complements. -/
  complements : Array Literal := #[]
deriving DecidableEq, Repr

namespace Stuffs

/-- No stuffs. -/
def empty : Stuffs := {}

/-- The literals in a role. -/
def of (s : Stuffs) : Kind → List Literal
  | .subject => s.subjects.toList
  | .predicate => s.predicates.toList
  | .objective => s.objectives.toList
  | .attributive => s.attributives.toList
  | .adverbial => s.adverbials.toList
  | .complement => s.complements.toList

/-- Adds a stuff behind those of its role. -/
def commit (s : Stuffs) (stuff : Stuff) : Stuffs :=
  match stuff.kind with
  | .subject => { s with subjects := s.subjects.push stuff.toLiteral }
  | .predicate => { s with predicates := s.predicates.push stuff.toLiteral }
  | .objective => { s with objectives := s.objectives.push stuff.toLiteral }
  | .attributive => { s with attributives := s.attributives.push stuff.toLiteral }
  | .adverbial => { s with adverbials := s.adverbials.push stuff.toLiteral }
  | .complement => { s with complements := s.complements.push stuff.toLiteral }

/-- Adds some stuffs, one after the other. -/
def commitAll (s : Stuffs) (stuffs : List Stuff) : Stuffs := stuffs.foldl commit s

/-- The stuffs that a list of them amounts to. -/
def ofList (stuffs : List Stuff) : Stuffs := empty.commitAll stuffs

/-- All stuffs, role by role. -/
def toList (s : Stuffs) : List Stuff := Kind.all.flatMap fun kind => (s.of kind).map (Stuff.ofLiteral kind)

/-- How many stuffs there are. -/
def size (s : Stuffs) : Nat := s.toList.length

/-- Whether there are none. -/
def isEmpty (s : Stuffs) : Bool := s.toList.isEmpty

/-! ### The lists after a commit -/

/-- A commit adds to the list of its own role and to no other. -/
theorem of_commit (s : Stuffs) (stuff : Stuff) (kind : Kind) :
    (s.commit stuff).of kind =
      if stuff.kind = kind then s.of kind ++ [stuff.toLiteral] else s.of kind := by
  cases h : stuff.kind <;> cases kind <;> simp [commit, of, h]

/-- Stuffs with the same list in every role are the same. -/
theorem ext_of {s t : Stuffs} (h : ∀ kind, s.of kind = t.of kind) : s = t := by
  cases s; cases t
  have h₁ := h .subject
  have h₂ := h .predicate
  have h₃ := h .objective
  have h₄ := h .attributive
  have h₅ := h .adverbial
  have h₆ := h .complement
  simp_all [of]

end Stuffs

end Parley
