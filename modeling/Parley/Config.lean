import Parley.ChunkCache
import Parley.Dispatcher
import Parley.Json.Parser
import Parley.Json.Printer
import Parley.Uuid
import Parley.Wire.Error

/-! # Configurations

  The settings of a nucleus, and their file. A file is a JSON record of
  sections; whatever is missing takes its usual value, and fields that are not
  known are **passed over unread**, so they may hold anything that is JSON. A
  field given twice is refused, and so is a value of the wrong type.

  Records may also be written as arrays of their fields in order. A setting that
  is one of a few words may also be written as an object with that word as its
  only key and `null` as its value.
-/

namespace Parley

open Json

/-- The settings of a nucleus. -/
structure Config where
  /-- The tag of the nucleus; one is made up where it is missing. -/
  tag : Option Uuid := none
  /-- The greatest number of workers for actions. -/
  maxWorkers : UInt64 := Dispatcher.defaultWorkers
  /-- The size of fragments of files that are sent. -/
  chunkSize : UInt64 := Chunk.defaultLength
  /-- More bytes in the fragment cache than this call for an eviction. -/
  clearThreshold : UInt64 := ChunkCache.defaultThreshold
  /-- What the index of a fragment means. -/
  readOrder : ReadOrder := ChunkCache.defaultOrder
  /-- What to do about stuffs that cannot be read. -/
  mode : Mode := .lenient
deriving DecidableEq

namespace Config

/-! ### Writing -/

/-- The record of a configuration. -/
def toJson (c : Config) : Json :=
  .object
    [("tag", (c.tag.map fun u => Json.string u.text).getD .null),
      ("action", .object [("max_workers", .ofUInt64 c.maxWorkers)]),
      ("chunk",
        .object
          [("chunk_size", .ofUInt64 c.chunkSize), ("clear_threshold", .ofUInt64 c.clearThreshold),
            ("read_order", .string c.readOrder.name)]),
      ("parse_mode", .string c.mode.name)]

/-- The text of a configuration file. -/
def text (c : Config) : String := c.toJson.pretty

/-! ### Records of terms -/

/-- The only value under a key, if there is one: nothing if there are more. -/
def single? (key : Bytes) (fields : List (Bytes × Term)) : Option (Option Term) :=
  match fields.filter fun f => f.1 == key with
  | [] => some none
  | [f] => some (some f.2)
  | _ => none

/-- The terms of the named fields of a record, in the order of the names. -/
def record? (names : List String) : Term → Option (List (Option Term))
  | .object fields =>
    if fields.all fun f => (Text.ofBytes? f.1).isSome then
      names.mapM fun name => single? (Text.bytes name) fields
    else none
  | .array items =>
    if items.length ≤ names.length then
      some (items.map some ++ List.replicate (names.length - items.length) none)
    else none
  | _ => none

/-! ### Fields -/

/-- Reads a field that takes its usual value where it is missing. -/
def orUsual {α : Type} (usual : α) (read? : Term → Option α) : Option Term → Option α
  | none => some usual
  | some t => read? t

/-- Reads an unsigned 64-bit integer. -/
def word? : Term → Option UInt64
  | .number n => (n.integer?.filter fun i => 0 ≤ i.1).map fun i => UInt64.ofNat i.1.toNat
  | _ => none

/-- Reads one of a few words. -/
def choice? {α : Type} (choices : List (String × α)) : Term → Option α
  | .string raw => (Text.ofBytes? raw).bind fun word => choices.lookup word
  | .object [(raw, .null)] => (Text.ofBytes? raw).bind fun word => choices.lookup word
  | _ => none

/-- Reads a read order. -/
def order? : Term → Option ReadOrder :=
  choice? [(ReadOrder.name .arrival, .arrival), (ReadOrder.name .declared, .declared)]

/-- Reads a mode. -/
def mode? : Term → Option Mode :=
  choice? [(Mode.name .lenient, .lenient), (Mode.name .strict, .strict)]

/-- Reads a tag that may be missing. -/
def tag? : Term → Option (Option Uuid)
  | .null => some none
  | .string raw => ((Text.ofBytes? raw).bind Uuid.read?).map some
  | _ => none

/-! ### Sections -/

/-- Reads the section on actions into a configuration. -/
def action? (c : Config) (t : Term) : Option Config :=
  match record? ["max_workers"] t with
  | some [workers] => do
    let maxWorkers ← orUsual c.maxWorkers word? workers
    some { c with maxWorkers }
  | _ => none

/-- Reads the section on chunks into a configuration. -/
def chunk? (c : Config) (t : Term) : Option Config :=
  match record? ["chunk_size", "clear_threshold", "read_order"] t with
  | some [size, threshold, order] => do
    let chunkSize ← orUsual c.chunkSize word? size
    let clearThreshold ← orUsual c.clearThreshold word? threshold
    let readOrder ← orUsual c.readOrder order? order
    some { c with chunkSize, clearThreshold, readOrder }
  | _ => none

/-- Reads a configuration. -/
def ofTerm? (t : Term) : Option Config :=
  match record? ["tag", "action", "chunk", "parse_mode"] t with
  | some [tag, action, chunk, mode] => do
    let tag ← orUsual none tag? tag
    let c : Config := { tag }
    let c ← orUsual c c.action? action
    let c ← orUsual c c.chunk? chunk
    let mode ← orUsual c.mode mode? mode
    some { c with mode }
  | _ => none

/-- Reads a configuration from the bytes of a file. -/
def parse? (bs : Bytes) : Option Config := (Term.parse? bs).bind ofTerm?

end Config

end Parley
