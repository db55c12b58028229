import Parley.Cli.Execution

/-! # The program

  The program looks at the files that an invocation speaks of, lets it run
  against a disk that holds them, and then **repeats the changes** of that disk
  outside.
-/

namespace Parley.Program

/-! ### Looking at files -/

/-- The path of some components from the root. -/
def absolute (path : List String) : String := "/" ++ String.intercalate "/" path

/-- Whether a directory stands under a path. -/
def isDirectory (path : List String) : IO Bool := do
  let opened ← (IO.FS.Handle.mk (absolute path ++ "/.") .read).toBaseIO
  return opened.toBool

/-- The content of a file. -/
def content? (path : List String) : IO (Option Bytes) := do
  let read ← (IO.FS.readBinFile (absolute path)).toBaseIO
  return read.toOption.map fun bs => bs.data.toList

/-- Puts what stands along some components onto a disk. -/
def survey (d : Disk) (here : List String) : List String → IO Disk
  | [] => return d
  | c :: rest => do
    if c = ".." then survey d here.dropLast rest
    else
      let path := here ++ [c]
      if ← isDirectory path then survey (d.put path .dir) path rest
      else
        match ← content? path with
        | some data => return d.put path (.file data)
        | none => return d

/-- A disk that holds what some paths lead to. -/
def surveyAll (paths : List String) : IO Disk := do
  let here := Path.components (← IO.currentDir).toString
  let d ← survey {} [] here
  let d := { d with here }
  paths.foldlM (fun d path => survey d (d.start path) (Path.components path)) d

/-! ### Repeating changes -/

/-- Makes a change outside. -/
def repeatChange : Change → IO Unit
  | .madeDir path => IO.FS.createDir (absolute path)
  | .wrote path data => IO.FS.writeBinFile (absolute path) data.toByteArray
  | .renamed source target => IO.FS.rename (absolute source) (absolute target)
  | .removed path => IO.FS.removeFile (absolute path)

/-! ### Running -/

/-- All that a stream holds. -/
partial def readAll (stream : IO.FS.Stream) (found : ByteArray) : IO ByteArray := do
  let more ← stream.read 65536
  if more.isEmpty then return found else readAll stream (found ++ more)

/-- A tag of random bytes. -/
def randomTag : IO Uuid := do
  let bs ← IO.getRandomBytes 16
  match Uuid.ofBytes? bs.data.toList with
  | some tag => return tag
  | none => throw (IO.userError "no random bytes")

/-- Runs an invocation. -/
def runInvocation (i : Cli.Invocation) : IO Cli.End := do
  let d ← surveyAll i.paths
  let input ← if i.readsInput then readAll (← IO.getStdin) .empty else pure .empty
  let (result, d) := i.run input.data.toList (← randomTag) (← randomTag) d
  d.journal.forM repeatChange
  return Cli.endOf result

end Parley.Program

/-- The entry point. -/
def main (arguments : List String) : IO UInt32 := do
  let ending ← match Parley.Cli.Invocation.read arguments with
    | .error refusal => pure refusal.ending
    | .ok i => Parley.Program.runInvocation i
  (← IO.getStdout).write ending.output.toByteArray
  IO.eprint ending.report
  return ending.code
