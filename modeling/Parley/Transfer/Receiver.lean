import Parley.ChunkCache
import Parley.Digest.Blake3
import Parley.Error
import Parley.Files.Writer
import Parley.Text.Hex

/-! # Putting files together

  The receiver is told of every chunk that has reached the fragment cache. Once
  as many fragments of a sign have arrived as the first of them announced, it
  puts them together: it reads them one by one and writes each, through a buffer,
  to a temporary file in its directory, which is then moved to the name that the
  sign ends in. Only then are the fragments dropped from the cache; **if anything
  fails, the cache stays as it was** and the temporary file is removed.
-/

namespace Parley.Transfer

/-! ### What is told -/

/-- A file that was put together. -/
structure Report where
  /-- The sign. -/
  sign : String
  /-- Where the file was put. -/
  path : String
  /-- How many bytes it has. -/
  bytes : Nat
  /-- How many fragments it had. -/
  fragments : Nat
  /-- The digest of its content, in hexadecimal. -/
  digest : String
deriving DecidableEq, Repr

/-- What came of a chunk. -/
inductive Receipt where
  /-- More are expected; how much has arrived, if all came in order. -/
  | progress (sign : String) (processed total : Nat)
  /-- The file was put together. -/
  | completed (report : Report)
deriving DecidableEq, Repr

/-- What an observer is told. -/
inductive Notice where
  /-- A chunk has arrived. -/
  | progress (sign : String) (processed total : Nat)
  /-- A file was put together. -/
  | completed (report : Report)
  /-- A file could not be put together. -/
  | failed (sign : String) (e : TransferError)
deriving DecidableEq, Repr

/-- Puts files together in a directory. -/
structure Receiver where
  /-- The directory. -/
  dir : String
  /-- The size of fragments by which progress is counted. -/
  chunkSize : Nat
  /-- The peers and signs that are being put together. -/
  assembling : List (String × String) := []
deriving DecidableEq, Repr

/-- What a chunk led to. -/
structure Reception where
  /-- What came of it. -/
  result : Except TransferError Receipt
  /-- The receiver after it. -/
  receiver : Receiver
  /-- The fragment cache after it. -/
  cache : ChunkCache
  /-- The disk after it. -/
  disk : Disk
  /-- What the observer was told. -/
  notices : List Notice

namespace Receiver

/-- A receiver into a directory; no fragment size counts as one. -/
def new (dir : String) (chunkSize : Nat) : Receiver := { dir, chunkSize := max chunkSize 1 }

/-! ### Putting together -/

/-- Copies the fragments of a sign from an index on, one after the other: what was
    copied, or why one could not be. -/
def copyFragments (cache : ChunkCache) (tag sign : String) :
    Nat → Nat → Writer → Disk → Except TransferError Bytes × Writer × Disk
  | 0, _, w, d => (.ok [], w, d)
  | n + 1, index, w, d =>
    match cache.fragment? tag sign index with
    | none => (.error (.missingFragment sign index), w, d)
    | some f =>
      match w.put f.payload d with
      | (.error _, w, d) => (.error .disk, w, d)
      | (.ok (), w, d) =>
        let (result, w, d) := copyFragments cache tag sign n (index + 1) w d
        (result.map fun rest => f.payload ++ rest, w, d)

/-- Fills a file that has been made with the fragments of a sign. If that fails,
    what is still in the buffer is written on the way out. -/
def fill (cache : ChunkCache) (tag sign : String) (count : Nat) (temp : String) (d : Disk) :
    Except TransferError Bytes × Disk :=
  match copyFragments cache tag sign count 0 { path := temp } d with
  | (.error e, w, d) => (.error e, w.letGo d)
  | (.ok content, w, d) =>
    match w.flush d with
    | (.error _, w, d) => (.error .disk, w.letGo d)
    | (.ok (), _, d) => (.ok content, d)

/-- The name of the temporary file. -/
def partName (name : String) : String := "." ++ name ++ ".part"

/-- Writes the fragments of a sign to a temporary file and moves it into place:
    the content, or why it failed. -/
def writeFragments (cache : ChunkCache) (tag sign : String) (count : Nat) (temp path : String)
    (d : Disk) : Except TransferError Bytes × Disk :=
  match Disk.create temp d with
  | (.error _, d) => (.error .disk, d)
  | (.ok (), d) =>
    match fill cache tag sign count temp d with
    | (.error e, d) => (.error e, d)
    | (.ok content, d) =>
      match Disk.sync temp d with
      | (.error _, d) => (.error .disk, d)
      | (.ok (), d) =>
        match Disk.rename temp path d with
        | (.error _, d) => (.error .disk, d)
        | (.ok (), d) => (.ok content, d)

/-- Puts the file of a sign together; the number of fragments must reach what the
    last chunk announced. -/
def assemble (r : Receiver) (cache : ChunkCache) (tag sign : String) (expected : Nat) (d : Disk) :
    Except TransferError Report × ChunkCache × Disk :=
  match Path.fileName? sign with
  | none => (.error (.invalidSign sign), cache, d)
  | some name =>
    let count := cache.count tag sign
    if count < expected then (.error (.incomplete sign count expected), cache, d)
    else
      match Disk.createDirAll r.dir d with
      | (.error _, d) => (.error .disk, cache, d)
      | (.ok (), d) =>
        let path := Path.join r.dir name
        let temp := Path.join r.dir (partName name)
        match writeFragments cache tag sign count temp path d with
        | (.error e, d) => (.error e, cache, (Disk.remove temp d).2)
        | (.ok content, d) =>
          (.ok
            { sign, path, bytes := content.length, fragments := count
              digest := Text.hex (Blake3.digest content) },
            (cache.clear tag sign).2, d)

/-! ### Receiving -/

/-- Accounts for a chunk that is in the cache already. -/
def receive (r : Receiver) (cache : ChunkCache) (chunk : Chunk) (d : Disk) : Reception :=
  let processed := chunk.progress r.chunkSize
  let total := chunk.total.toNat
  let told := Notice.progress chunk.sign processed total
  let waiting : Reception :=
    { result := .ok (.progress chunk.sign processed total)
      receiver := r, cache, disk := d, notices := [told] }
  match chunk.info.owner with
  | none => waiting
  | some tag =>
    let key := (tag, chunk.sign)
    if cache.completed tag chunk.sign = false ∨ key ∈ r.assembling then waiting
    else
      let busy := { r with assembling := key :: r.assembling }
      let (result, cache, d) := busy.assemble cache tag chunk.sign chunk.num.toNat d
      let receiver := { busy with assembling := busy.assembling.erase key }
      match result with
      | .ok report =>
        { result := .ok (.completed report)
          receiver, cache, disk := d, notices := [told, .completed report] }
      | .error e =>
        { result := .error e, receiver, cache, disk := d, notices := [told, .failed chunk.sign e] }

end Receiver

end Parley.Transfer
