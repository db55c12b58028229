import Parley.Dialect.Action
import Parley.Dialect.Chunk

/-! # Dialects

  A dialect is a typed sub-language: it knows its stuffs, and can be built from
  stuffs again. Actions and chunks are built in. An application adds dialects of
  its own by naming a type of **contents** `κ` and saying, in the class
  `Content`, how a content becomes stuffs and is filled from them.
-/

namespace Parley

/-- A type of contents of an application's own dialects.

    The **contract** of an application: a dialect of its own has one name for good, and is filled
    from the stuffs of a primitive only. Filling leaves its name and its bookkeeping (tracker, peer,
    cellet) alone. So `build` is given neither and returns neither; an application that breaks
    the contract is none of those spoken of here. -/
class Content (κ : Type) where
  /-- The stuffs of a content, if it can be sent. -/
  translate? : κ → Option Stuffs
  /-- Fills a content from stuffs. -/
  build : κ → Stuffs → κ

/-- An application that knows no dialects but the built-in ones. -/
instance : Content Empty where
  translate? _ := none
  build content _ := content

/-- A dialect of the application. -/
structure Custom (κ : Type) where
  /-- The name of the dialect. -/
  name : String
  /-- The bookkeeping. -/
  info : Meta := {}
  /-- The content. -/
  content : κ
deriving DecidableEq, Repr

/-- Any dialect. -/
inductive Dialect (κ : Type) where
  /-- A named action with parameters. -/
  | action (a : Action)
  /-- A fragment of a payload. -/
  | chunk (c : Chunk)
  /-- A dialect of the application. -/
  | custom (c : Custom κ)
deriving DecidableEq, Repr

namespace Dialect

variable {κ : Type}

/-! ### Bookkeeping -/

/-- The name of the dialect. -/
def name : Dialect κ → String
  | .action _ => Action.dialectName
  | .chunk _ => Chunk.dialectName
  | .custom c => c.name

/-- The bookkeeping. -/
def info : Dialect κ → Meta
  | .action a => a.info
  | .chunk c => c.info
  | .custom c => c.info

/-- The dialect with other bookkeeping. -/
def withInfo (d : Dialect κ) (info : Meta) : Dialect κ :=
  match d with
  | .action a => .action { a with info }
  | .chunk c => .chunk { c with info }
  | .custom c => .custom { c with info }

/-- Correlates what belongs together. -/
def tracker (d : Dialect κ) : String := d.info.tracker

/-- The peer of origin or destination. -/
def owner (d : Dialect κ) : Option String := d.info.owner

/-- Sets the peer. -/
def setOwner (d : Dialect κ) (tag : String) : Dialect κ :=
  d.withInfo { d.info with owner := some tag }

/-- Binds the dialect to a cellet. -/
def setCellet (d : Dialect κ) (cellet : String) : Dialect κ :=
  d.withInfo { d.info with cellet := some cellet }

/-! ### Stuffs -/

/-- The stuffs of a dialect, if it can be sent. -/
def translate? [Content κ] : Dialect κ → Option Stuffs
  | .action a => a.translate?
  | .chunk c => c.translate?
  | .custom c => Content.translate? c.content

/-- Fills a dialect from stuffs. -/
def build [Content κ] (d : Dialect κ) (s : Stuffs) : Dialect κ :=
  match d with
  | .action a => .action (a.build s)
  | .chunk c => .chunk (c.build s)
  | .custom c => .custom { c with content := Content.build c.content s }

/-- Filling a dialect leaves its name alone. -/
@[simp] theorem name_build [Content κ] (d : Dialect κ) (s : Stuffs) : (d.build s).name = d.name := by
  cases d <;> rfl

/-- Filling a dialect leaves its bookkeeping alone. -/
@[simp] theorem info_build [Content κ] (d : Dialect κ) (s : Stuffs) : (d.build s).info = d.info := by
  cases d <;> rfl

/-- Other bookkeeping leaves the name alone. -/
@[simp] theorem name_withInfo (d : Dialect κ) (m : Meta) : (d.withInfo m).name = d.name := by
  cases d <;> rfl

/-- A dialect has the bookkeeping it was given. -/
@[simp] theorem info_withInfo (d : Dialect κ) (m : Meta) : (d.withInfo m).info = m := by
  cases d <;> rfl

end Dialect

end Parley
