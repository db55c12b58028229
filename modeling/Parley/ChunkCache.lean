import Parley.Dialect.Chunk
import Parley.Table

/-! # The fragment cache

  Fragments wait here until their payload is complete. They are kept per peer
  and, within a peer, per sign; each peer also remembers **in which order its
  signs first arrived**. The bytes held are counted per peer and over all peers.

  When a write takes the total over the threshold, the sign that arrived first
  among all peers is dropped, even if it is the one just written. One sign per
  write: if that does not help, the next write drops another.

  Which fragment an index means is a matter of the read order:

  - by **arrival**, the n-th fragment that came in;
  - as **declared**, the fragment that carries the index; a second fragment of
    an index replaces the first.
-/

namespace Parley

/-- What the index of a fragment means. -/
inductive ReadOrder where
  /-- The place in the order of arrival. -/
  | arrival
  /-- The index the fragment carries. -/
  | declared
deriving DecidableEq, Repr

/-- The name of a read order in a configuration. -/
def ReadOrder.name : ReadOrder → String
  | .arrival => "arrival"
  | .declared => "declared"

/-- When a sign first arrived. -/
structure SignAge where
  /-- The sign. -/
  sign : String
  /-- The time on the clock. -/
  arrived : Nat
  /-- Tells arrivals at the same time apart. -/
  sequence : Nat
deriving DecidableEq, Repr

/-- Whether a sign arrived before another. -/
def SignAge.older (a b : SignAge) : Bool :=
  a.arrived < b.arrived || (a.arrived == b.arrived && a.sequence < b.sequence)

/-- What is held of one peer. -/
structure PeerCache where
  /-- The fragments of each sign. -/
  signs : Table (List Chunk) := .empty
  /-- The signs in the order of their first arrival. -/
  ages : List SignAge := []
  /-- The bytes held. -/
  size : Nat := 0

/-- What is held of one sign. -/
structure SignStat where
  /-- The sign. -/
  sign : String
  /-- How many fragments. -/
  fragments : Nat
  /-- How many bytes. -/
  bytes : Nat
deriving DecidableEq, Repr

/-- The fragment cache. -/
structure ChunkCache where
  /-- More bytes than this call for an eviction. -/
  threshold : UInt64
  /-- What the index of a fragment means. -/
  order : ReadOrder
  /-- What is held of each peer. -/
  peers : Table PeerCache := .empty
  /-- The bytes held over all peers. -/
  memory : Nat := 0
  /-- How many signs have arrived. -/
  sequence : Nat := 0
  /-- The time of the next arrival. -/
  clock : Nat := 0

namespace ChunkCache

/-- The usual threshold: 100 MiB. -/
def defaultThreshold : UInt64 := 104857600

/-- The usual read order. -/
def defaultOrder : ReadOrder := .arrival

/-- A cache that holds nothing. -/
def new (threshold : UInt64) (order : ReadOrder) : ChunkCache := { threshold, order }

/-- The usual cache. -/
def default : ChunkCache := new defaultThreshold defaultOrder

/-- The bytes of some fragments. -/
def bytesOf (fragments : List Chunk) : Nat := fragments.foldr (fun f n => f.length + n) 0

/-! ### Looking things up -/

/-- The fragments of a sign. -/
def fragments? (c : ChunkCache) (tag sign : String) : Option (List Chunk) :=
  (c.peers.find? tag).bind fun peer => peer.signs.find? sign

/-- The fragment that an index means. -/
def locate? (order : ReadOrder) (fragments : List Chunk) (index : Nat) : Option Chunk :=
  match order with
  | .arrival => fragments[index]?
  | .declared => fragments.find? fun f => f.index.toNat == index

/-- The fragment of a sign that an index means. -/
def fragment? (c : ChunkCache) (tag sign : String) (index : Nat) : Option Chunk :=
  (c.fragments? tag sign).bind fun fs => locate? c.order fs index

/-- The length of a fragment. -/
def fragmentLength? (c : ChunkCache) (tag sign : String) (index : Nat) : Option Nat :=
  (c.fragment? tag sign index).map Chunk.length

/-- Copies a fragment to the front of a buffer, as far as it fits: how many bytes
    were copied, and the buffer after it. -/
def read? (c : ChunkCache) (tag sign : String) (index : Nat) (buffer : Bytes) :
    Option (Nat × Bytes) :=
  (c.fragment? tag sign index).map fun f =>
    let copied := f.payload.take buffer.length
    (min f.length buffer.length, copied ++ buffer.drop copied.length)

/-- How many fragments of a sign have arrived. -/
def count (c : ChunkCache) (tag sign : String) : Nat :=
  ((c.fragments? tag sign).map List.length).getD 0

/-- Whether as many fragments have arrived as the first of them announced. -/
def completed (c : ChunkCache) (tag sign : String) : Bool :=
  match c.fragments? tag sign with
  | some (first :: rest) => rest.length + 1 == first.num.toNat
  | _ => false

/-- The bytes held of a peer. -/
def size (c : ChunkCache) (tag : String) : Nat := ((c.peers.find? tag).map PeerCache.size).getD 0

/-- What is held of a peer, the oldest sign first. -/
def signs (c : ChunkCache) (tag : String) : List SignStat :=
  match c.peers.find? tag with
  | none => []
  | some peer =>
    peer.ages.filterMap fun age =>
      (peer.signs.find? age.sign).map fun fs =>
        { sign := age.sign, fragments := fs.length, bytes := bytesOf fs }

/-! ### Taking fragments in -/

/-- Puts a fragment in place of the first of its index, or behind the others: how
    many bytes left, and the fragments after it. -/
def replace (chunk : Chunk) : List Chunk → Nat × List Chunk
  | [] => (0, [chunk])
  | f :: rest =>
    if f.index = chunk.index then (f.length, chunk :: rest)
    else
      let (left, rest) := replace chunk rest
      (left, f :: rest)

/-- Adds a fragment to those of its sign: how many bytes left, and the fragments
    after it. -/
def place (order : ReadOrder) (chunk : Chunk) (fragments : List Chunk) : Nat × List Chunk :=
  match order with
  | .arrival => (0, fragments ++ [chunk])
  | .declared => replace chunk fragments

/-- Puts a fragment under a peer. -/
def insert (c : ChunkCache) (tag : String) (chunk : Chunk) : ChunkCache :=
  let peer := (c.peers.find? tag).getD {}
  let known := peer.signs.find? chunk.sign
  let (left, fragments) := place c.order chunk (known.getD [])
  let arrived : List SignAge :=
    match known with
    | some _ => []
    | none => [{ sign := chunk.sign, arrived := c.clock, sequence := c.sequence }]
  let peer : PeerCache :=
    { signs := peer.signs.insert chunk.sign fragments
      ages := peer.ages ++ arrived
      size := peer.size + chunk.length - left }
  { c with
    peers := c.peers.insert tag peer
    memory := c.memory + chunk.length - left
    sequence := c.sequence + arrived.length }

/-! ### Letting fragments go -/

/-- Drops a sign, and a peer with its last sign: the bytes that were freed, and
    the cache after it. -/
def clear (c : ChunkCache) (tag sign : String) : Nat × ChunkCache :=
  match c.peers.find? tag with
  | none => (0, c)
  | some peer =>
    match peer.signs.find? sign with
    | none => (0, c)
    | some fragments =>
      let freed := bytesOf fragments
      let peer : PeerCache :=
        { signs := peer.signs.erase sign
          ages := peer.ages.filter fun age => age.sign ≠ sign
          size := peer.size - freed }
      let peers :=
        if peer.signs.entries = [] then c.peers.erase tag else c.peers.insert tag peer
      (freed, { c with peers, memory := c.memory - freed })

/-- The older of two candidates. -/
def olderOf (a b : String × SignAge) : String × SignAge := if b.2.older a.2 then b else a

/-- The oldest sign of each peer. -/
def candidates (c : ChunkCache) : List (String × SignAge) :=
  c.peers.entries.filterMap fun (tag, peer) => peer.ages.head?.map fun age => (tag, age)

/-- The sign that arrived first among all peers. -/
def oldest? (c : ChunkCache) : Option (String × SignAge) :=
  match c.candidates with
  | [] => none
  | first :: rest => some (rest.foldl olderOf first)

/-- Drops the sign that arrived first: the bytes that were freed, and the cache
    after it. -/
def evict (c : ChunkCache) : Nat × ChunkCache :=
  match c.oldest? with
  | none => (0, c)
  | some (tag, age) => c.clear tag age.sign

/-- Takes a fragment in under its peer; one without a peer cannot be found again
    and is not kept. -/
def write (c : ChunkCache) (chunk : Chunk) : ChunkCache :=
  match chunk.info.owner with
  | none => c
  | some tag =>
    let c := c.insert tag chunk
    if c.threshold.toNat < c.memory then c.evict.2 else c

/-- Drops everything. -/
def shutdown (c : ChunkCache) : ChunkCache := { c with peers := .empty, memory := 0 }

/-! ### The cache seen from a chunk

A chunk asks for what belongs to its own peer and sign; without a peer there is
nothing.
-/

/-- Whether all fragments of the sign of a chunk have arrived. -/
def completedFor (c : ChunkCache) (chunk : Chunk) : Bool :=
  match chunk.info.owner with
  | none => false
  | some tag => c.completed tag chunk.sign

/-- Copies a fragment of the sign of a chunk to the front of a buffer. -/
def readFor? (c : ChunkCache) (chunk : Chunk) (index : Nat) (buffer : Bytes) :
    Option (Nat × Bytes) :=
  chunk.info.owner.bind fun tag => c.read? tag chunk.sign index buffer

/-- Drops the sign of a chunk: the bytes that were freed, and the cache after
    it. -/
def clearFor (c : ChunkCache) (chunk : Chunk) : Nat × ChunkCache :=
  match chunk.info.owner with
  | none => (0, c)
  | some tag => c.clear tag chunk.sign

end ChunkCache

end Parley
