import Parley.ChunkCache
import Parley.Primitive

/-! # The registry of dialects

  A factory makes empty dialects of one name and takes part in the talk about
  them through **hooks**: it is told when a dialect that came in has been built,
  it may veto a dialect going out or coming in, and it is told when one went out
  or was delivered.

  The registry holds one factory per name and calls the hooks of the factory
  that a dialect's name leads to; dialects without a factory are never vetoed.
  The factories for actions and chunks are built in. Actions have no interest in
  the hooks; **chunks that have been built go into the fragment cache**.

  Every operation tells which hooks it called, in order.
-/

namespace Parley

variable {κ : Type}

/-! ### Hooks -/

/-- A hook of a factory. -/
inductive Hook (κ : Type) where
  /-- A dialect that came in has been built. -/
  | built (d : Dialect κ)
  /-- May this dialect go out from the cellet? -/
  | onTalk (cellet : String) (d : Dialect κ)
  /-- The dialect went out. -/
  | talked (cellet : String) (d : Dialect κ)
  /-- May this dialect come in to the cellet? -/
  | onDialogue (cellet : String) (d : Dialect κ)
  /-- The dialect was delivered. -/
  | dialogued (cellet : String) (d : Dialect κ)
  /-- Let go of everything. -/
  | shutdown
deriving DecidableEq, Repr

/-- A call of a hook. -/
structure HookCall (κ : Type) where
  /-- The name under which the factory is registered. -/
  factory : String
  /-- What the application calls the factory, if it is one of its own. -/
  label : Option String
  /-- The hook. -/
  hook : Hook κ
deriving DecidableEq, Repr

/-! ### Factories -/

/-- A factory of the application. Its answers may depend on how often the
    registry has asked any factory before.

    The **contract** of an application: what its factory makes is an empty dialect of the
    factory's name that carries the tracker the factory was given, and is bound to no peer and no
    cellet. So a factory is given by the content of its fresh dialects, and `Factory.create` adds the
    rest. -/
structure CustomFactory (κ : Type) where
  /-- The name of its dialects. -/
  name : String
  /-- What the application calls it. -/
  label : String
  /-- The content of a fresh dialect. -/
  fresh : κ
  /-- Whether a dialect may go out from a cellet. -/
  allowsTalk : Nat → String → Dialect κ → Bool
  /-- Whether a dialect may come in to a cellet. -/
  allowsDialogue : Nat → String → Dialect κ → Bool

/-- A factory. -/
inductive Factory (κ : Type) where
  /-- The factory for actions. -/
  | action
  /-- The factory for chunks. -/
  | chunk
  /-- A factory of the application. -/
  | custom (f : CustomFactory κ)

namespace Factory

/-- The name of its dialects. -/
def name : Factory κ → String
  | .action => Action.dialectName
  | .chunk => Chunk.dialectName
  | .custom f => f.name

/-- What the application calls it. -/
def label : Factory κ → Option String
  | .custom f => some f.label
  | _ => none

/-- A fresh dialect: it takes over the tracker. For a factory of the application this
    is its contract. -/
def create (f : Factory κ) (tracker : String) : Dialect κ :=
  match f with
  | .action => .action (Action.withTracker tracker)
  | .chunk => .chunk (Chunk.withTracker tracker)
  | .custom f => .custom { name := f.name, info := { tracker }, content := f.fresh }

/-- Whether a dialect may go out. -/
def allowsTalk (f : Factory κ) (turn : Nat) (cellet : String) (d : Dialect κ) : Bool :=
  match f with
  | .custom f => f.allowsTalk turn cellet d
  | _ => true

/-- Whether a dialect may come in. -/
def allowsDialogue (f : Factory κ) (turn : Nat) (cellet : String) (d : Dialect κ) : Bool :=
  match f with
  | .custom f => f.allowsDialogue turn cellet d
  | _ => true

/-- A call of one of its hooks. -/
def call (f : Factory κ) (hook : Hook κ) : HookCall κ :=
  { factory := f.name, label := f.label, hook }

end Factory

/-! ### The registry -/

/-- One factory per name, and the fragment cache. -/
structure Registry (κ : Type) where
  /-- The factories. -/
  factories : Table (Factory κ) := .empty
  /-- The fragments of chunks that came in. -/
  cache : ChunkCache := .default
  /-- How often a factory has been asked for leave. -/
  turn : Nat := 0

namespace Registry

/-- Adds a factory under its name. -/
def add (r : Registry κ) (f : Factory κ) : Registry κ :=
  { r with factories := r.factories.insert f.name f }

/-- Takes the factory of a name out. -/
def remove (r : Registry κ) (name : String) : Registry κ :=
  { r with factories := r.factories.erase name }

/-- The factory of a name. -/
def factory? (r : Registry κ) (name : String) : Option (Factory κ) := r.factories.find? name

/-- The registered names in ascending order. -/
def names (r : Registry κ) : List String := r.factories.keys

/-- A fresh dialect of a name, if it is registered. -/
def create? (r : Registry κ) (name tracker : String) : Option (Dialect κ) :=
  (r.factory? name).map fun f => f.create tracker

/-- Tells a factory that a dialect has been built. -/
def built (r : Registry κ) (f : Factory κ) (d : Dialect κ) : Registry κ :=
  match f, d with
  | .chunk, .chunk c => { r with cache := r.cache.write c }
  | _, _ => r

/-- Makes a dialect of a name, gives it the owner of a primitive and fills it from
    its stuffs. -/
def rebuild [Content κ] (r : Registry κ) (name tracker : String) (p : Primitive κ) :
    Option (Dialect κ) × Registry κ × List (HookCall κ) :=
  match r.factory? name with
  | none => (none, r, [])
  | some f =>
    let fresh := f.create tracker
    let owned := match p.owner with
      | some tag => fresh.setOwner tag
      | none => fresh
    let d := owned.build p.stuffs
    (some d, r.built f d, [f.call (.built d)])

/-- Asks whether a dialect may go out from a cellet. -/
def doTalk (r : Registry κ) (cellet : String) (d : Dialect κ) :
    Bool × Registry κ × List (HookCall κ) :=
  match r.factory? d.name with
  | none => (true, r, [])
  | some f =>
    (f.allowsTalk r.turn cellet d, { r with turn := r.turn + 1 }, [f.call (.onTalk cellet d)])

/-- Tells that a dialect went out. -/
def didTalk (r : Registry κ) (cellet : String) (d : Dialect κ) : List (HookCall κ) :=
  ((r.factory? d.name).map fun f => f.call (.talked cellet d)).toList

/-- Asks whether a dialect may come in to a cellet. -/
def doDialogue (r : Registry κ) (cellet : String) (d : Dialect κ) :
    Bool × Registry κ × List (HookCall κ) :=
  match r.factory? d.name with
  | none => (true, r, [])
  | some f =>
    (f.allowsDialogue r.turn cellet d, { r with turn := r.turn + 1 },
      [f.call (.onDialogue cellet d)])

/-- Tells that a dialect was delivered. -/
def didDialogue (r : Registry κ) (cellet : String) (d : Dialect κ) : List (HookCall κ) :=
  ((r.factory? d.name).map fun f => f.call (.dialogued cellet d)).toList

/-- Whether the factory for chunks is registered. -/
def hasChunks (r : Registry κ) : Bool :=
  r.factories.values.any fun f => match f with
    | .chunk => true
    | _ => false

/-- Whether the factory for actions is registered. -/
def hasActions (r : Registry κ) : Bool :=
  r.factories.values.any fun f => match f with
    | .action => true
    | _ => false

/-- Lets every factory let go; chunks empty their cache. -/
def shutdown (r : Registry κ) : Registry κ × List (HookCall κ) :=
  (if r.hasChunks then { r with cache := r.cache.shutdown } else r,
    r.factories.values.map fun f => f.call .shutdown)

end Registry

end Parley
