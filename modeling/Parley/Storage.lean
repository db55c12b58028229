import Parley.Config
import Parley.Files.Disk

/-! # Storing files and configurations

  A file is replaced **in one move**: its new content is written to a temporary
  file beside it, made sure of, and then moved over it. Whoever looks at the path
  at any moment finds the old content or the new one, provided that the
  temporary name is not itself the path.

  The write is a list of steps, so that what is on the disk after each of them
  can be spoken of.
-/

namespace Parley

/-- Why something could not be stored or loaded. -/
inductive StorageError where
  /-- The disk failed. -/
  | disk
  /-- A file is no configuration. -/
  | document
  /-- The temporary file could not be made. -/
  | notCreated (path : String)
  /-- The temporary file could not be moved into place. -/
  | notRenamed (path : String)
deriving DecidableEq, Repr

namespace Storage

/-! ### Replacing a file -/

/-- A step of replacing a file. -/
inductive Step where
  /-- Make the temporary file. -/
  | create
  /-- Write its content. -/
  | write
  /-- Make sure of it. -/
  | sync
  /-- Move it into place. -/
  | rename
  /-- Make sure of the directory. -/
  | syncParent
deriving DecidableEq, Repr

/-- The steps of replacing a file. -/
def steps : List Step := [.create, .write, .sync, .rename, .syncParent]

/-- Takes a step. -/
def Step.run (path : String) (data : Bytes) : Step → OnDisk Unit
  | .create => Disk.create (Path.temp path)
  | .write => Disk.write (Path.temp path) data
  | .sync => Disk.sync (Path.temp path)
  | .rename => Disk.rename (Path.temp path) path
  | .syncParent => fun d =>
    match Path.parent? path with
    | none => (.ok (), d)
    | some parent => Disk.sync parent d

/-- The error when a step fails. -/
def Step.error (path : String) : Step → StorageError
  | .create => .notCreated path
  | .rename => .notRenamed path
  | _ => .disk

/-- Takes some steps until one fails. -/
def runSteps (path : String) (data : Bytes) : List Step → Disk → Option StorageError × Disk
  | [], d => (none, d)
  | step :: rest, d =>
    match step.run path data d with
    | (.ok (), d) => runSteps path data rest d
    | (.error _, d) => (some (step.error path), d)

/-- Replaces the content of a file. -/
def writeAtomic (path : String) (data : Bytes) (d : Disk) : Option StorageError × Disk :=
  runSteps path data steps d

/-! ### Configurations -/

/-- Writes a configuration, making the directories it lies in. -/
def saveConfig (path : String) (c : Config) (d : Disk) : Option StorageError × Disk :=
  let data := Text.bytes c.text
  match Path.parent? path with
  | none => writeAtomic path data d
  | some parent =>
    match Disk.createDirAll parent d with
    | (.error _, d) => (some .disk, d)
    | (.ok (), d) => writeAtomic path data d

/-- Reads a configuration. -/
def readConfig (path : String) (d : Disk) : Except StorageError Config × Disk :=
  match Disk.read path d with
  | (.error _, d) => (.error .disk, d)
  | (.ok bs, d) =>
    match Config.parse? bs with
    | none => (.error .document, d)
    | some c => (.ok c, d)

end Storage

end Parley
