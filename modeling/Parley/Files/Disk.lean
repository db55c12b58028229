import Parley.Files.Path
import Parley.Text.Utf8

/-! # A disk

  A disk holds files and directories under the components of their paths; the
  root is always there. The operations are those of a Unix file system as far as
  this library needs them, **each of which can fail** for what the disk holds, or
  because the outside world makes it fail: `faults` says so for every operation
  by its number.

  Paths that do not start at the root start from the directory `here`.

  There are files and directories only. Symbolic and hard links are left out: no
  operation here makes one, and a disk that holds some is none of these disks. So
  every file stands under one path, and a component leads where it says.

  An operation that fails leaves the disk as it was, except that of a write that
  is made to fail a part may have arrived.

  Every change is entered into the journal, so that whoever runs a program
  against a disk can repeat its changes elsewhere.
-/

namespace Parley

/-- What stands under a path. -/
inductive Node where
  /-- A file with its content. -/
  | file (data : Bytes)
  /-- A directory. -/
  | dir
deriving DecidableEq, Repr

/-- Why an operation on a disk fails. -/
inductive Fault where
  /-- Nothing stands there. -/
  | notFound
  /-- A directory was expected. -/
  | notADirectory
  /-- A file was expected. -/
  | isADirectory
  /-- The name or the path cannot be one. -/
  | invalidName
  /-- The outside world made it fail. -/
  | broken
deriving DecidableEq, Repr

/-- A change of a disk. -/
inductive Change where
  /-- A directory was made. -/
  | madeDir (path : List String)
  /-- A file was written. -/
  | wrote (path : List String) (data : Bytes)
  /-- A file was given another path. -/
  | renamed (source target : List String)
  /-- A file was removed. -/
  | removed (path : List String)
deriving DecidableEq, Repr

/-- Files and directories. -/
structure Disk where
  /-- What stands under each path, the root apart. -/
  nodes : List (List String × Node) := []
  /-- Where paths start that do not start at the root. -/
  here : List String := []
  /-- Whether the operation of a number fails; a write then leaves so many
      bytes. -/
  faults : Nat → Option Nat := fun _ => none
  /-- How many operations there have been. -/
  clock : Nat := 0
  /-- What has changed. -/
  journal : List Change := []

/-- An operation on a disk that can fail. -/
abbrev OnDisk (α : Type) := Disk → Except Fault α × Disk

namespace Disk

/-! ### Nodes -/

/-- What stands under a path. -/
def node? (d : Disk) (path : List String) : Option Node :=
  if path = [] then some .dir else d.nodes.lookup path

/-- Puts a node under a path. -/
def put (d : Disk) (path : List String) (node : Node) : Disk :=
  { d with nodes := (path, node) :: d.nodes.filter fun n => n.1 ≠ path }

/-- Takes the node under a path away. -/
def drop (d : Disk) (path : List String) : Disk :=
  { d with nodes := d.nodes.filter fun n => n.1 ≠ path }

/-- Enters a change into the journal. -/
def enter (d : Disk) (change : Change) : Disk := { d with journal := d.journal ++ [change] }

/-! ### Finding a place -/

/-- Where a path starts. -/
def start (d : Disk) (path : String) : List String := if Path.isAbsolute path then [] else d.here

/-- The greatest length of a name. -/
def maxName : Nat := 255

/-- Whether a component can be a name. -/
def isName (c : String) : Bool := !c.toList.contains '\x00' && decide (c.utf8ByteSize ≤ maxName)

/-- The greatest length of a path. -/
def maxPath : Nat := 4095

/-- Whether a text can be a path. -/
def isPath (path : String) : Bool :=
  !path.toList.contains '\x00' && decide (path.utf8ByteSize ≤ maxPath)

/-- The directory that components lead to. -/
def walk (d : Disk) (here : List String) : List String → Except Fault (List String)
  | [] => .ok here
  | c :: rest =>
    if c = ".." then d.walk here.dropLast rest
    else if isName c = false then .error .invalidName
    else
      match d.node? (here ++ [c]) with
      | some .dir => d.walk (here ++ [c]) rest
      | some (.file _) => .error .notADirectory
      | none => .error .notFound

/-- The place of a path: its components from the root, and whether only a
    directory can stand there. The directory it lies in must be there. -/
def place (d : Disk) (path : String) : Except Fault (List String × Bool) :=
  let cs := Path.components path
  if isPath path = false then .error .invalidName
  else if path = "" then .error .notFound
  else
    match cs.getLast? with
    | none => .ok (d.start path, true)
    | some last =>
      if last = ".." then (d.walk (d.start path) cs).map fun here => (here, true)
      else
        match d.walk (d.start path) cs.dropLast with
        | .error e => .error e
        | .ok here =>
          if isName last then .ok (here ++ [last], Path.endsInDirectory path)
          else .error .invalidName

/-! ### Operations -/

/-- Counts an operation, and lets it fail if the outside world says so. -/
def attempt {α : Type} (op : OnDisk α) : OnDisk α := fun d =>
  let next := { d with clock := d.clock + 1 }
  match d.faults d.clock with
  | some _ => (.error .broken, next)
  | none => op next

/-- The length that a directory has. -/
def dirLength : Nat := 4096

/-- Opens what stands under a path for reading: its length. A directory can be
    opened, though not read. -/
def openLength (path : String) : OnDisk Nat := attempt fun d =>
  match d.place path with
  | .error e => (.error e, d)
  | .ok (p, dirOnly) =>
    match d.node? p with
    | none => (.error .notFound, d)
    | some .dir => (.ok dirLength, d)
    | some (.file data) => (if dirOnly then .error .notADirectory else .ok data.length, d)

/-- Reads a file. -/
def read (path : String) : OnDisk Bytes := attempt fun d =>
  match d.place path with
  | .error e => (.error e, d)
  | .ok (p, dirOnly) =>
    match d.node? p with
    | none => (.error .notFound, d)
    | some .dir => (.error .isADirectory, d)
    | some (.file data) => (if dirOnly then .error .notADirectory else .ok data, d)

/-- Makes an empty file, or empties the one that is there. -/
def create (path : String) : OnDisk Unit := attempt fun d =>
  match d.place path with
  | .error e => (.error e, d)
  | .ok (p, dirOnly) =>
    match d.node? p with
    | some .dir => (.error .isADirectory, d)
    | some (.file _) =>
      if dirOnly then (.error .notADirectory, d)
      else (.ok (), (d.put p (.file [])).enter (.wrote p []))
    | none =>
      if dirOnly then (.error .isADirectory, d)
      else (.ok (), (d.put p (.file [])).enter (.wrote p []))

/-- What arrives of bytes that are written now: all of them, or a part if the
    write is made to fail. -/
def arriving (d : Disk) (data : Bytes) : Bytes :=
  match d.faults d.clock with
  | none => data
  | some n => data.take n

/-- Changes the content of a file that has been made. A change that is made to
    fail has been made all the same. -/
def alter (path : String) (change : Bytes → Bytes) : OnDisk Unit := fun d =>
  let next := { d with clock := d.clock + 1 }
  match d.place path with
  | .error e => (.error e, next)
  | .ok (p, _) =>
    match d.node? p with
    | some (.file old) =>
      let left := (next.put p (.file (change old))).enter (.wrote p (change old))
      match d.faults d.clock with
      | none => (.ok (), left)
      | some _ => (.error .broken, left)
    | some .dir => (.error .isADirectory, next)
    | none => (.error .notFound, next)

/-- Writes the content of a file that has been made; made to fail, it leaves a
    part. -/
def write (path : String) (data : Bytes) : OnDisk Unit := fun d =>
  alter path (fun _ => d.arriving data) d

/-- Writes behind the content of a file that has been made; made to fail, it
    leaves a part. -/
def append (path : String) (data : Bytes) : OnDisk Unit := fun d =>
  alter path (fun old => old ++ d.arriving data) d

/-- Makes sure that a file or directory has arrived. -/
def sync (path : String) : OnDisk Unit := attempt fun d =>
  match d.place path with
  | .error e => (.error e, d)
  | .ok (p, _) =>
    match d.node? p with
    | none => (.error .notFound, d)
    | some _ => (.ok (), d)

/-- Gives a file another path; a file that is there is replaced. -/
def rename (source target : String) : OnDisk Unit := attempt fun d =>
  match d.place source, d.place target with
  | .ok (p, _), .ok (q, dirOnly) =>
    match d.node? p, d.node? q with
    | none, _ => (.error .notFound, d)
    | some .dir, _ => (.error .isADirectory, d)
    | some (.file _), some .dir => (.error .isADirectory, d)
    | some (.file data), _ =>
      if dirOnly then (.error .notADirectory, d)
      else if p = q then (.ok (), d)
      else (.ok (), ((d.drop p).put q (.file data)).enter (.renamed p q))
  | .error e, _ => (.error e, d)
  | _, .error e => (.error e, d)

/-- Removes a file. -/
def remove (path : String) : OnDisk Unit := attempt fun d =>
  match d.place path with
  | .error e => (.error e, d)
  | .ok (p, dirOnly) =>
    match d.node? p with
    | none => (.error .notFound, d)
    | some .dir => (.error .isADirectory, d)
    | some (.file _) =>
      if dirOnly then (.error .notADirectory, d) else (.ok (), (d.drop p).enter (.removed p))

/-- Makes the directories that components lead through, as far as they are
    missing. -/
def makeDirs (here : List String) : List String → OnDisk Unit
  | [], d => (.ok (), d)
  | c :: rest, d =>
    if c = ".." then makeDirs here.dropLast rest d
    else if isName c = false then (.error .invalidName, d)
    else
      let p := here ++ [c]
      match d.node? p with
      | some .dir => makeDirs p rest d
      | some (.file _) => (.error .notADirectory, d)
      | none => makeDirs p rest ((d.put p .dir).enter (.madeDir p))

/-- Makes a directory and those it lies in, as far as they are missing. No
    directory can be made by a path that ends in `.`: only those it lies in are
    made, and it must be there itself. -/
def createDirAll (path : String) : OnDisk Unit := attempt fun d =>
  let here := d.start path
  let cs := Path.components path
  if isPath path = false then (.error .invalidName, d)
  else if Path.endsInPoint path then
    match makeDirs here cs.dropLast d with
    | (.error e, d) => (.error e, d)
    | (.ok (), d) => ((d.walk here cs).map fun _ => (), d)
  else makeDirs here cs d

/-! ### Listing -/

/-- All paths below a directory, relative to it, in ascending order, with what
    stands there. -/
def below (d : Disk) (dir : List String) : List (String × Node) :=
  let found := d.nodes.filterMap fun (path, node) =>
    if dir.isPrefixOf path ∧ path ≠ dir then
      some (String.intercalate "/" (path.drop dir.length), node)
    else none
  found.mergeSort fun a b => decide (a.1 ≤ b.1)

end Disk

end Parley
