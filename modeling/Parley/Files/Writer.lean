import Parley.Files.Disk

/-! # Writing through a buffer

  What is written to a file piece by piece is gathered in a buffer and passed on
  **when the buffer is full**. So a disk that fails is noticed by a later piece, or
  by the flush in the end, and not by the piece that does not arrive.

  A writer that is let go passes on what still waits, and does not tell whether
  that has worked.
-/

namespace Parley

/-- Writes to a file that has been made. -/
structure Writer where
  /-- The file. -/
  path : String
  /-- What waits to be passed on. -/
  buffer : Bytes := []

namespace Writer

/-- How many bytes can wait. -/
def capacity : Nat := 8192

/-- How many more bytes can wait. -/
def spare (w : Writer) : Nat := capacity - w.buffer.length

/-- Passes on what waits; what has not arrived goes on waiting. -/
def flush (w : Writer) (d : Disk) : Except Fault Unit × Writer × Disk :=
  if w.buffer = [] then (.ok (), w, d)
  else
    let waiting := w.buffer.drop (d.arriving w.buffer).length
    let (result, left) := Disk.append w.path w.buffer d
    (result, { w with buffer := waiting }, left)

/-- Passes on what waits if there is no room behind it for so many bytes. -/
def makeRoom (w : Writer) (size : Nat) (d : Disk) : Except Fault Unit × Writer × Disk :=
  if w.spare < size then w.flush d else (.ok (), w, d)

/-- Writes bytes. What the buffer could not hold even if it were empty, or would
    just fill it, is passed on at once. -/
def put (w : Writer) (data : Bytes) (d : Disk) : Except Fault Unit × Writer × Disk :=
  match w.makeRoom data.length d with
  | (.error e, w, d) => (.error e, w, d)
  | (.ok (), w, d) =>
    if capacity ≤ data.length then
      let (result, left) := Disk.append w.path data d
      (result, w, left)
    else (.ok (), { w with buffer := w.buffer ++ data }, d)

/-- Lets the writer go: the disk that is left. -/
def letGo (w : Writer) (d : Disk) : Disk := (w.flush d).2.2

end Writer

end Parley
