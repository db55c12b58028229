import Parley.Dialect.Meta
import Parley.Stuff.Basic
import Parley.Text.Base64

/-! # Chunks

  A chunk is one fragment of a payload that is too large for one primitive. Its
  **sign** names the payload; its index and the number of fragments say which
  part it is. As stuffs it is three subjects (sign, index, number) and three
  objectives (the data in Base64, its length, the length of the whole payload).

  Built from stuffs, a chunk counts as zero what is missing or no number, holds
  no data where the Base64 is broken, and cuts a declared length down to the
  data there is. So the length of a chunk never exceeds its data.
-/

namespace Parley

/-- One fragment of a payload. -/
structure Chunk where
  /-- The bookkeeping. -/
  info : Meta := {}
  /-- Names the payload. -/
  sign : String := ""
  /-- Which fragment it is, from zero. -/
  index : UInt32 := 0
  /-- How many fragments the payload has. -/
  num : UInt32 := 0
  /-- The bytes it holds. -/
  data : Bytes := []
  /-- How many of them count. -/
  length : Nat := 0
  /-- The length of the whole payload. -/
  total : UInt64 := 0
deriving DecidableEq, Repr

namespace Chunk

/-- The name of the dialect. -/
def dialectName : String := "ChunkDialect"

/-- The usual size of a fragment. -/
def defaultLength : UInt64 := 6144

/-- A chunk with nothing but a tracker. -/
def withTracker (tracker : String) : Chunk := { info := { tracker } }

/-- A fragment all of whose bytes count. -/
def make (sign : String) (total : UInt64) (index num : UInt32) (data : Bytes) : Chunk :=
  { sign, index, num, data, length := data.length, total }

/-- The bytes that count. -/
def payload (c : Chunk) : Bytes := c.data.take c.length

/-- Whether this is the last fragment. -/
def isLast (c : Chunk) : Bool := decide (0 < c.num ∧ c.index = c.num - 1)

/-- How much of the payload has arrived with this fragment if all before it
    arrived in order, in fragments of the given size. -/
def progress (c : Chunk) (size : Nat) : Nat :=
  min ((c.index.toNat + 1) * size) c.total.toNat

/-- The stuffs of a chunk; one without a sign cannot be sent. -/
def translate? (c : Chunk) : Option Stuffs :=
  if c.sign = "" then none
  else
    some
      { subjects := #[.ofString c.sign, .ofUInt32 c.index, .ofUInt32 c.num]
        objectives :=
          #[.ofString (Base64.encode c.payload), .ofUInt64 (UInt64.ofNat c.length),
            .ofUInt64 c.total] }

/-- Fills a chunk from stuffs. The sign stays as it is where no subject gives
    one. -/
def build (c : Chunk) (s : Stuffs) : Chunk :=
  let subjects := s.of .subject
  let objectives := s.of .objective
  let data := (objectives[0]?.bind fun l => Base64.decode? l.text).getD []
  let declared := (objectives[1]?.bind Literal.asUInt64?).map UInt64.toNat
  { c with
    sign := (subjects[0]?.map Literal.text).getD c.sign
    index := (subjects[1]?.bind Literal.asUInt32?).getD 0
    num := (subjects[2]?.bind Literal.asUInt32?).getD 0
    data
    length := min (declared.getD data.length) data.length
    total := (objectives[2]?.bind Literal.asUInt64?).getD 0 }

/-! ### The length of a chunk -/

/-- A chunk that is made counts exactly its bytes. -/
theorem length_make (sign : String) (total : UInt64) (index num : UInt32) (data : Bytes) :
    (make sign total index num data).length = data.length := rfl

/-- A chunk that is built never counts more bytes than it holds. -/
theorem length_build_le (c : Chunk) (s : Stuffs) :
    (c.build s).length ≤ (c.build s).data.length := Nat.min_le_right ..

end Chunk

end Parley
