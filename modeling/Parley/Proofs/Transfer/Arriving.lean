import Parley.Proofs.Nucleus.Inbound
import Parley.Proofs.Transfer.Sending
import Parley.Proofs.Wire.Chunks
import Parley.Transfer.Host

/-! # What an arriving frame leads to

  A frame that was sent for a chunk is read in either mode, its dialect is built as
  a chunk of the peer it came from, that chunk is **written to the fragment cache**,
  and then the receiving cellet hands it to its receiver.
-/

namespace Parley.Transfer

variable {κ : Type}

/-- A chunk as it is built from what a peer sent. -/
def arriving (peer : String) (c : Chunk) : Chunk :=
  { c with info := { tracker := c.info.tracker, owner := some peer }, data := c.payload }

/-- A chunk as it is delivered to a cellet. -/
def delivered (cellet peer : String) (c : Chunk) : Chunk :=
  { arriving peer c with
    info := { tracker := c.info.tracker, owner := some peer, cellet := some cellet } }

/-- A chunk that can travel: nothing of it is lost on the wire. -/
structure Travels (c : Chunk) : Prop where
  sign : Wire.BackslashSafe (Text.bytes c.sign)
  tracker : Ascii.closeBracket ∉ Text.bytes c.info.tracker
  length : c.length < UInt64.size
  data : c.length ≤ c.data.length

/-- A nucleus that can take chunks in for a cellet. -/
structure CanReceive (n : Nucleus κ) (cellet : String) : Prop where
  hosts : n.hosts cellet = true
  factory : n.registry.factory? Chunk.dialectName = some .chunk

/-- The registry after a chunk has come in. -/
def filedWith (r : Registry κ) (c : Chunk) : Registry κ :=
  { r with cache := r.cache.write c, turn := r.turn + 1 }

variable {n : Nucleus κ} {cellet : String}

/-- The fragment cache of a host. -/
def Host.cache (h : Host κ) : ChunkCache := h.nucleus.registry.cache

/-- What the receiver of a host makes of a chunk that has come from a peer. -/
def reception (h : Host κ) (peer : String) (c : Chunk) (d : Disk) : Reception :=
  h.receiver.receive (h.cache.write (arriving peer c)) (delivered h.cellet peer c) d

/-- The host after a reception. -/
def Host.withReception (h : Host κ) (got : Reception) : Host κ :=
  { nucleus :=
      { h.nucleus with
        registry :=
          { h.nucleus.registry with
            cache := got.cache, turn := h.nucleus.registry.turn + 1 } }
    cellet := h.cellet
    receiver := got.receiver
    reports :=
      match got.result with
      | .ok (.completed report) => h.reports ++ [report]
      | _ => h.reports }

theorem Host.reports_withReception_completed (h : Host κ) {got : Reception} {report : Report}
    (hresult : got.result = .ok (.completed report)) :
    (h.withReception got).reports = h.reports ++ [report] := by
  unfold withReception
  rw [hresult]

theorem Host.reports_withReception_progress (h : Host κ) {got : Reception} {sign : String}
    {processed total : Nat} (hresult : got.result = .ok (.progress sign processed total)) :
    (h.withReception got).reports = h.reports := by
  unfold withReception
  rw [hresult]

theorem CanReceive.withReception {h : Host κ} (hready : CanReceive h.nucleus h.cellet)
    (got : Reception) :
    CanReceive (h.withReception got).nucleus (h.withReception got).cellet :=
  ⟨hready.hosts, hready.factory⟩

variable [Content κ]

/-- The chunk of a frame is built again, and written to the cache. -/
theorem deserialize_spoken (h : CanReceive n cellet) {c : Chunk} (hc : Travels c)
    (here there peer : String) :
    n.codec.deserialize (Wire.serialize (spoken here there c : Primitive κ)) (some peer)
      = { error := none
          primitive :=
            { stuffs := c.stuffs, owner := some peer, dialect := some (.chunk (arriving peer c)) }
          codec :=
            { n.codec with
              registry :=
                some { n.registry with cache := n.registry.cache.write (arriving peer c) } }
          calls := [Factory.chunk.call (.built (.chunk (arriving peer c)))] } :=
  n.codec.deserialize_chunk (p := spoken here there c) (k := addressed here there c) rfl h.factory
    rfl rfl hc.length hc.data ⟨hc.sign, hc.tracker⟩ (some peer)

/-- What is delivered for a chunk. -/
def delivery (cellet peer : String) (c : Chunk) : Primitive κ :=
  { stuffs := c.stuffs, owner := some peer, dialect := some (.chunk (delivered cellet peer c)) }

/-- The events of a frame that arrives. -/
def arrivalEvents (cellet peer : String) (c : Chunk) : List (Event κ) :=
  [.hook (Factory.chunk.call (.built (.chunk (arriving peer c)))),
    .hook (Factory.chunk.call (.onDialogue cellet (.chunk (delivered cellet peer c)))),
    .delivered cellet peer (delivery cellet peer c),
    .hook (Factory.chunk.call (.dialogued cellet (.chunk (delivered cellet peer c))))]

/-- A frame of a chunk is no error; its chunk goes into the cache and to the cellet. -/
theorem nucleus_arrive (h : CanReceive n cellet) {c : Chunk} (hc : Travels c)
    (here there peer : String) :
    n.arrive cellet peer (Wire.serialize (spoken here there c : Primitive κ))
      = { error := none
          nucleus := { n with registry := filedWith n.registry (arriving peer c) }
          events := arrivalEvents cellet peer c } := by
  -- the factory for chunks lets every chunk in
  have hdelivered := Nucleus.deliver_registered
    { n with registry := { n.registry with cache := n.registry.cache.write (arriving peer c) } }
    cellet peer { stuffs := c.stuffs, owner := some peer } (d := .chunk (arriving peer c)) h.factory
  unfold Nucleus.arrive
  rw [if_neg (by rw [h.hosts]; exact Bool.noConfusion), deserialize_spoken h hc]
  dsimp only [Option.getD_some]
  unfold Primitive.capture at hdelivered
  rw [hdelivered]
  rfl

/-- **An arriving frame hands its chunk to the receiver**, after the cache has taken it in. -/
theorem host_arrive {h : Host κ} (hready : CanReceive h.nucleus h.cellet) {c : Chunk}
    (hc : Travels c) (here there peer : String) (d : Disk) :
    h.arrive peer (Wire.serialize (spoken here there c : Primitive κ)) d
      = { error := none
          host := h.withReception (reception h peer c d)
          disk := (reception h peer c d).disk
          notices := (reception h peer c d).notices } := by
  -- among the events only the delivery hands a chunk on
  have hchunk : ∀ k : Host κ, k.cellet = h.cellet →
      (arrivalEvents h.cellet peer c).findSome? k.chunkOf? = some (delivered h.cellet peer c) := by
    intro k hk
    simp [arrivalEvents, List.findSome?, Host.chunkOf?, delivery, hk]
  unfold Host.arrive
  rw [nucleus_arrive hready hc]
  dsimp only
  rw [hchunk { h with nucleus := { h.nucleus with
    registry := filedWith h.nucleus.registry (arriving peer c) } } rfl]
  rfl

end Parley.Transfer
