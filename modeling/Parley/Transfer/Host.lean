import Parley.Nucleus
import Parley.Transfer.Receiver

/-! # A nucleus that receives files

  A host is a nucleus one of whose cellets hands every chunk that is delivered
  to it to a receiver. The receiver reads from the fragment cache of that
  nucleus. Files that were put together are reported in order; a file that could
  not be put together is no error of the arrival.
-/

namespace Parley.Transfer

variable {κ : Type}

/-- A nucleus with a cellet that receives files. -/
structure Host (κ : Type) where
  /-- The nucleus. -/
  nucleus : Nucleus κ
  /-- The name of the cellet. -/
  cellet : String
  /-- Puts files together. -/
  receiver : Receiver
  /-- The files that were put together, the first one first. -/
  reports : List Report := []

/-- What an arrival came to. -/
structure Arrival (κ : Type) where
  /-- Why it failed, if it did. -/
  error : Option NucleusError
  /-- The host after it. -/
  host : Host κ
  /-- The disk after it. -/
  disk : Disk
  /-- What the observer of the receiver was told. -/
  notices : List Notice

namespace Host

/-- Hosts the receiving cellet on a nucleus. -/
def start (nucleus : Nucleus κ) (cellet dir : String) : Except NucleusError (Host κ) :=
  let registered := nucleus.register cellet
  match registered.error with
  | some e => .error e
  | none =>
    .ok
      { nucleus := registered.nucleus, cellet
        receiver := .new dir nucleus.config.chunkSize.toNat }

/-- The chunk that an event delivers to the receiving cellet. -/
def chunkOf? (h : Host κ) : Event κ → Option Chunk
  | .delivered cellet _ p =>
    match p.dialect with
    | some (.chunk c) => if cellet = h.cellet then some c else none
    | _ => none
  | _ => none

/-- Hands a chunk to the receiver. -/
def receive (h : Host κ) (c : Chunk) (d : Disk) : Host κ × Disk × List Notice :=
  let got := h.receiver.receive h.nucleus.registry.cache c d
  let registry := { h.nucleus.registry with cache := got.cache }
  let reports := match got.result with
    | .ok (.completed report) => h.reports ++ [report]
    | _ => h.reports
  ({ h with nucleus := { h.nucleus with registry }, receiver := got.receiver, reports },
    got.disk, got.notices)

/-- Lets bytes of a peer arrive at the receiving cellet. -/
def arrive [Content κ] (h : Host κ) (peer : String) (raw : Bytes) (d : Disk) : Arrival κ :=
  let arrived := h.nucleus.arrive h.cellet peer raw
  let h := { h with nucleus := arrived.nucleus }
  match arrived.events.findSome? h.chunkOf? with
  | none => { error := arrived.error, host := h, disk := d, notices := [] }
  | some c =>
    let (h, d, notices) := h.receive c d
    { error := arrived.error, host := h, disk := d, notices }

/-- Lets frames of a peer arrive one after the other, until one fails. -/
def arriveAll [Content κ] (h : Host κ) (peer : String) (d : Disk) : List Frame → Arrival κ
  | [] => { error := none, host := h, disk := d, notices := [] }
  | frame :: rest =>
    let arrived := h.arrive peer frame.payload d
    match arrived.error with
    | some _ => arrived
    | none =>
      let later := arrived.host.arriveAll peer arrived.disk rest
      { later with notices := arrived.notices ++ later.notices }

end Host

end Parley.Transfer
