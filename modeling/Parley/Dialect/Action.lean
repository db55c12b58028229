import Parley.Dialect.Meta
import Parley.Stuff.Basic

/-! # Actions

  An action is a name with ordered parameters. As stuffs it is one predicate,
  the name, and for each parameter a subject, its name, and an objective, its
  value. The same parameter name may occur more than once.

  Built from stuffs, an action takes the first predicate as its name, and pairs
  subjects with objectives **by position**; what is left over on the longer side
  is dropped.
-/

namespace Parley

/-- What an application attaches to an action; it is never sent. -/
inductive Context where
  /-- A number. -/
  | number (n : UInt64)
  /-- A text. -/
  | text (s : String)
deriving DecidableEq, Repr

/-- A named action with ordered parameters. -/
structure Action where
  /-- The bookkeeping. -/
  info : Meta := {}
  /-- The name of the action. -/
  action : String := ""
  /-- The parameters in order. -/
  params : List (String × Literal) := []
  /-- What the application attached. -/
  context : Option Context := none
deriving DecidableEq, Repr

namespace Action

/-- The name of the dialect. -/
def dialectName : String := "ActionDialect"

/-- An action with nothing but a tracker. -/
def withTracker (tracker : String) : Action := { info := { tracker } }

/-- Adds a parameter behind the others. -/
def append (a : Action) (name : String) (value : Literal) : Action :=
  { a with params := a.params ++ [(name, value)] }

/-- The first parameter of a name. -/
def param? (a : Action) (name : String) : Option Literal := a.params.lookup name

/-- The attached number, if it is one. -/
def contextNumber? (a : Action) : Option UInt64 :=
  match a.context with
  | some (.number n) => some n
  | _ => none

/-- The attached text, if it is one. -/
def contextText? (a : Action) : Option String :=
  match a.context with
  | some (.text s) => some s
  | _ => none

/-- Whether two actions say the same: tracker, name and parameters agree. -/
def same (a b : Action) : Bool :=
  a.info.tracker == b.info.tracker && a.action == b.action && a.params == b.params

/-- The stuffs of an action; one without a name cannot be sent. -/
def translate? (a : Action) : Option Stuffs :=
  if a.action = "" then none
  else
    some
      { predicates := #[.ofString a.action]
        subjects := (a.params.map fun p => .ofString p.1).toArray
        objectives := (a.params.map fun p => p.2).toArray }

/-- Fills an action from stuffs. The name stays as it is where no predicate
    gives one. -/
def build (a : Action) (s : Stuffs) : Action :=
  { a with
    action := ((s.of .predicate).head?.map Literal.text).getD a.action
    params := ((s.of .subject).map Literal.text).zip (s.of .objective) }

end Action

end Parley
