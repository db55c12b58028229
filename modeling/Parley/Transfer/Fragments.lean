import Parley.Error
import Parley.Nucleus

/-! # Cutting files into fragments

  A file is sent as chunks of one size, all but the last of them full; an empty
  file is one empty chunk. The name of the file is the sign of its chunks, and
  every chunk tells the number of chunks and the length of the file.
-/

namespace Parley.Transfer

/-! ### How many fragments -/

/-- The number of fragments of the given size (none counts as one) that hold some
    bytes: the least that is enough, and at least one. It must be a 32-bit
    number. -/
def fragmentCount (length chunkSize : Nat) : Except TransferError UInt32 :=
  let size := max chunkSize 1
  let count := max ((length + size - 1) / size) 1
  if count < UInt32.size then .ok (UInt32.ofNat count) else .error (.tooManyFragments length size)

/-! ### Cutting -/

/-- Cuts content into so many chunks of a size, from an index on. -/
def cut (sign : String) (total : UInt64) (num : UInt32) (size : Nat) :
    Nat → Nat → Bytes → List Chunk
  | 0, _, _ => []
  | n + 1, index, content =>
    Chunk.make sign total (UInt32.ofNat index) num (content.take size) ::
      cut sign total num size n (index + 1) (content.drop size)

/-- A file cut into chunks. -/
structure Fragments where
  /-- The name of the file. -/
  sign : String
  /-- How many chunks there are. -/
  count : UInt32
  /-- The chunks in order. -/
  chunks : List Chunk
  /-- Why there are no more of them, if the file cannot be read. -/
  fault : Option TransferError := none
deriving DecidableEq, Repr

/-- Cuts content into chunks of a size. -/
def fragments (sign : String) (content : Bytes) (chunkSize : Nat) :
    Except TransferError Fragments :=
  (fragmentCount content.length chunkSize).map fun count =>
    { sign, count
      chunks :=
        cut sign (UInt64.ofNat content.length) count (max chunkSize 1) count.toNat 0 content }

/-- Cuts a file into chunks of a size. The length of what stands there tells their
    number, even where it cannot be read. -/
def ofFile (path : String) (chunkSize : Nat) (d : Disk) : Except TransferError Fragments × Disk :=
  match Path.fileName? path with
  | none => (.error (.invalidSign path), d)
  | some sign =>
    match Disk.openLength path d with
    | (.error _, d) => (.error .disk, d)
    | (.ok length, d) =>
      match Disk.read path d with
      | (.ok content, d) => (fragments sign content chunkSize, d)
      | (.error _, d) =>
        ((fragmentCount length chunkSize).map fun count =>
          { sign, count, chunks := [], fault := some .disk }, d)

/-! ### Sending -/

variable {κ : Type}

/-- Sends chunks from a cellet to a peer, until one fails. -/
def sendChunks [Content κ] (cellet peer : String) (n : Nucleus κ) : List Chunk → Outcome κ
  | [] => { error := none, nucleus := n }
  | c :: rest =>
    let sent := n.talkDialect cellet peer (.chunk c)
    match sent.error with
    | some _ => sent
    | none =>
      let later := sendChunks cellet peer sent.nucleus rest
      { later with events := sent.events ++ later.events }

/-- Sends a file from a cellet to a peer: how many chunks it took, or why it
    failed, and the nucleus and disk after it. -/
def sendFile [Content κ] (n : Nucleus κ) (cellet peer path : String) (chunkSize : Nat) (d : Disk) :
    Except NucleusError UInt32 × Nucleus κ × Disk :=
  match ofFile path chunkSize d with
  | (.error e, d) => (.error (.transfer e), n, d)
  | (.ok file, d) =>
    let sent := sendChunks cellet peer n file.chunks
    match sent.error, file.fault with
    | some e, _ => (.error e, sent.nucleus, d)
    | none, some e => (.error (.transfer e), sent.nucleus, d)
    | none, none => (.ok file.count, sent.nucleus, d)

end Parley.Transfer
