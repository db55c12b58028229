import Parley.Proofs.Files.Names
import Parley.Proofs.Transfer.Cutting
import Parley.Proofs.Wire.Bound

/-! # What a sent file leaves on the link

  A nucleus that hosts the sending cellet, knows chunks and has a link that works
  sends every chunk that has a sign: one frame for each, in order, behind the frames
  that are there.
-/

namespace Parley.Transfer

variable {κ : Type}

/-- A nucleus that can send chunks from a cellet. -/
structure CanSend (n : Nucleus κ) (cellet : String) : Prop where
  hosts : n.hosts cellet = true
  factory : n.registry.factory? Chunk.dialectName = some .chunk
  link : ∀ attempt, n.link.faults attempt = none

/-- A chunk that a cellet has for a peer. -/
def addressed (cellet peer : String) (c : Chunk) : Chunk :=
  { c with info := { c.info with cellet := some cellet, owner := some peer } }

/-- A chunk as a cellet says it to a peer. -/
def spoken (cellet peer : String) (c : Chunk) : Primitive κ :=
  { stuffs := c.stuffs, owner := some peer, dialect := some (.chunk (addressed cellet peer c)) }

/-- A chunk as it goes out. -/
def frameOf (κ : Type) (cellet peer : String) (c : Chunk) : Frame :=
  { peer, payload := Wire.serialize (spoken cellet peer c : Primitive κ) }

variable {n : Nucleus κ} {cellet : String}

/-- The nucleus after a frame went out. -/
def sentFrom (n : Nucleus κ) (frame : Frame) : Nucleus κ :=
  { n with
    registry := { n.registry with turn := n.registry.turn + 1 }
    link :=
      { n.link with attempts := n.link.attempts + 1, frames := n.link.frames ++ [frame] } }

theorem CanSend.sentFrom (h : CanSend n cellet) (frame : Frame) :
    CanSend (sentFrom n frame) cellet := ⟨h.hosts, h.factory, h.link⟩

/-- The factory for chunks never vetoes. -/
theorem askTalk_spoken (h : CanSend n cellet) (peer : String) (c : Chunk) :
    n.askTalk cellet (spoken cellet peer c)
      = (true, { n with registry := { n.registry with turn := n.registry.turn + 1 } },
        [.hook (Factory.chunk.call (.onTalk cellet (.chunk (addressed cellet peer c))))]) := by
  have hdo : n.registry.doTalk cellet (.chunk (addressed cellet peer c))
      = (true, { n.registry with turn := n.registry.turn + 1 },
        [Factory.chunk.call (.onTalk cellet (.chunk (addressed cellet peer c)))]) := by
    have hfactory : n.registry.factory? (Dialect.chunk (addressed cellet peer c) : Dialect κ).name
        = some .chunk := h.factory
    unfold Registry.doTalk
    rw [hfactory]
    rfl
  unfold Nucleus.askTalk spoken
  dsimp only
  rw [hdo]
  rfl

variable [Content κ]

/-- A chunk goes out as one frame. -/
theorem talkDialect_chunk (h : CanSend n cellet) (peer : String) {c : Chunk} (hsign : c.sign ≠ "") :
    (n.talkDialect cellet peer (.chunk c)).error = none ∧
    (n.talkDialect cellet peer (.chunk c)).nucleus = sentFrom n (frameOf κ cellet peer c) := by
  have hprimitive : Primitive.ofDialect? (((Dialect.chunk c : Dialect κ).setCellet cellet).setOwner
      peer) = some (spoken cellet peer c) := by
    unfold Primitive.ofDialect?
    show Option.map _ (Chunk.translate? _) = _
    rw [Chunk.translate?_of_sign (by exact hsign)]
    rfl
  have howned : (spoken cellet peer c : Primitive κ).setOwner peer = spoken cellet peer c := rfl
  have hsend : n.link.transmit peer (Wire.serialize (spoken cellet peer c : Primitive κ))
      = (none,
        { n.link with
          attempts := n.link.attempts + 1
          frames := n.link.frames ++ [frameOf κ cellet peer c] }) := by
    unfold Link.transmit
    rw [h.link]
    rfl
  unfold Nucleus.talkDialect
  dsimp only
  rw [hprimitive]
  unfold Nucleus.talk
  dsimp only
  rw [if_neg (by rw [h.hosts]; exact Bool.noConfusion), howned,
    askTalk_spoken h]
  dsimp only
  rw [hsend]
  exact ⟨rfl, rfl⟩

/-- Chunks go out one after the other. -/
theorem sendChunks_ok (h : CanSend n cellet) (peer : String) {chunks : List Chunk}
    (hsign : ∀ c ∈ chunks, c.sign ≠ "") :
    (sendChunks cellet peer n chunks).error = none ∧
    (sendChunks cellet peer n chunks).nucleus.link.frames
      = n.link.frames ++ chunks.map (frameOf κ cellet peer) := by
  induction chunks generalizing n with
  | nil => exact ⟨rfl, (List.append_nil _).symm⟩
  | cons c rest ih =>
    -- the nucleus that sent one chunk can send the next
    obtain ⟨herror, hnucleus⟩ := talkDialect_chunk h peer (hsign c List.mem_cons_self)
    have hrest := ih (h.sentFrom (frameOf κ cellet peer c))
      fun c' hmem => hsign c' (List.mem_cons_of_mem c hmem)
    unfold sendChunks
    dsimp only
    rw [herror, hnucleus]
    refine ⟨hrest.1, ?_⟩
    show (sendChunks cellet peer (sentFrom n _) rest).nucleus.link.frames = _
    rw [hrest.2]
    exact List.append_assoc ..

/-- **A file that can be read and counted is sent**: one frame for each of its pieces, behind
    the frames that are there. -/
theorem sendFile_ok (h : CanSend n cellet) (peer : String) {path sign : String} {d d₁ d₂ : Disk}
    {length chunkSize : Nat} {content : Bytes} {file : Fragments}
    (hname : Path.fileName? path = some sign)
    (hopen : Disk.openLength path d = (.ok length, d₁))
    (hread : Disk.read path d₁ = (.ok content, d₂))
    (hcut : fragments sign content chunkSize = .ok file) :
    (sendFile n cellet peer path chunkSize d).1 = .ok file.count ∧
    (sendFile n cellet peer path chunkSize d).2.1.link.frames
      = n.link.frames ++ file.chunks.map (frameOf κ cellet peer) := by
  have hfile : ofFile path chunkSize d = (.ok file, d₂) := by
    unfold ofFile
    rw [hname]
    dsimp only
    rw [hopen]
    dsimp only
    rw [hread]
    exact Prod.ext hcut rfl
  -- a chunk without a sign would not be sent
  have hsigns : ∀ c ∈ file.chunks, c.sign ≠ "" := by
    intro c hc
    rw [(fragments_eq_ok hcut).1] at hc
    obtain ⟨i, -, rfl⟩ := List.mem_map.1 hc
    exact (Path.isName_of_fileName? hname).ne_empty
  have hfault : file.fault = none := by rw [(fragments_eq_ok hcut).1]
  obtain ⟨herror, hframes⟩ := sendChunks_ok h peer hsigns
  unfold sendFile
  rw [hfile]
  dsimp only
  rw [herror, hfault]
  exact ⟨rfl, hframes⟩

end Parley.Transfer
