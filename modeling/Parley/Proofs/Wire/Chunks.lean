import Parley.Proofs.Cache.Keys
import Parley.Proofs.Wire.Bound

/-! # Chunks, there and back

  However a chunk came to be, it never counts more bytes than it holds
  (`Chunk.Formed.length_le`), and only those that count are sent. A strict reader that knows
  chunks fills a chunk that says the same from them **exactly when** the sign is
  backslash-safe and the tracker has no closing bracket, and takes it in under the peer and
  the sign (`chunk_survives_iff`).

  Nothing but the sign and the tracker can go wrong: numbers are digits, and Base64 has no
  backslashes. The equals signs that pad it are structural, and so escaped. The sign is the
  first stuff of all, and if it is not safe, another text stays at this place
  (`sign_of_scan_of_not_safe`).
-/

namespace Parley

open Ascii

/-! ## Section 1: How chunks come to be -/

namespace Chunk

/-- How a chunk comes to be: it is made of bytes, or filled from any stuffs, or given other
    bookkeeping. -/
inductive Formed : Chunk → Prop where
  | made (sign : String) (total : UInt64) (index num : UInt32) (data : Bytes) :
      Formed (make sign total index num data)
  | built (fresh : Chunk) (s : Stuffs) : Formed (fresh.build s)
  | kept {c : Chunk} (h : Formed c) (info : Meta) : Formed { c with info }

/-- **A chunk never counts more bytes than it holds.** -/
theorem Formed.length_le {c : Chunk} (h : c.Formed) : c.length ≤ c.data.length := by
  induction h with
  | made sign total index num data => exact Nat.le_refl _
  | built fresh s => exact length_build_le fresh s
  | kept h info ih => exact ih

theorem length_payload {c : Chunk} (h : c.length ≤ c.data.length) : c.payload.length = c.length :=
  List.length_take_of_le h

/-- The sign of a chunk that is filled is the text of the first subject. -/
theorem sign_build {s : Stuffs} {l : Literal} (h : (s.of .subject)[0]? = some l) (fresh : Chunk) :
    (fresh.build s).sign = l.text := by
  unfold build
  dsimp only
  rw [h]
  rfl

/-- Two chunks say the same: all but the bytes that do not count, and the bookkeeping beside the
    tracker. -/
structure Same (a b : Chunk) : Prop where
  tracker : a.info.tracker = b.info.tracker
  sign : a.sign = b.sign
  index : a.index = b.index
  num : a.num = b.num
  payload : a.payload = b.payload
  length : a.length = b.length
  total : a.total = b.total

/-- A chunk that a strict reader can be sent. -/
structure Sendable (c : Chunk) : Prop where
  sign : Wire.BackslashSafe (Text.bytes c.sign)
  tracker : closeBracket ∉ Text.bytes c.info.tracker

/-- A chunk as it is filled from what came from a peer: with the bytes that counted. -/
def received (peer : Option String) (c : Chunk) : Chunk :=
  { c with info := { tracker := c.info.tracker, owner := peer }, data := c.payload }

theorem same_received (c : Chunk) (peer : Option String) : c.Same (c.received peer) := by
  refine ⟨rfl, rfl, rfl, rfl, ?_, rfl, rfl⟩
  show c.data.take c.length = (c.data.take c.length).take c.length
  rw [List.take_take, Nat.min_self]

end Chunk

/-! ## Section 2: What the sign becomes -/

namespace Wire

variable {κ : Type}

/-- A sign that is not safe is read as another one: the first subject has another text. -/
theorem sign_of_scan_of_not_safe {p : Primitive κ} {d : Dialect κ} {c : Chunk}
    (hd : p.dialect = some d) (hp : p.stuffs = c.stuffs)
    (h : ¬ BackslashSafe (Text.bytes c.sign))
    {header rest : Bytes} {s : Stuffs}
    (hscan : scan .strict .start {} (serialize p) = .finished header s rest) :
    ∃ l : Literal, (s.of .subject)[0]? = some l ∧ l.text ≠ c.sign := by
  have hwire := serialize_append hd []
  rw [List.append_nil] at hwire
  have hblocks : p.stuffs.toList.flatMap stuffBlock = stuffBlock (.subject (.ofString c.sign)) ++
      p.stuffs.toList.tail.flatMap stuffBlock := by
    rw [hp]
    rfl
  rw [hwire, scan_versionBlock, hblocks, List.append_assoc] at hscan
  have hunsafe : ¬ BackslashSafe (Text.bytes (Stuff.subject (.ofString c.sign)).text) := h
  obtain ⟨other, hkind, htext, rest', hother⟩ :=
    scan_stuffBlock_of_not_safe {} _ false hunsafe _ (by rw [hscan]; rfl)
  rw [hscan] at hother
  have hsubject : other.kind = .subject := hkind
  -- what was committed in place of the sign is never taken back
  have hkept := prefix_of_scan .strict ⟨.between true, (Text.bytes protocolVersion).toArray⟩
    (Stuffs.commit {} other) rest' .subject
  rw [← hother, Stuffs.of_commit, if_pos hsubject] at hkept
  exact ⟨other.toLiteral, List.prefix_iff_getElem?.1 hkept 0 (by simp), htext⟩

end Wire

/-! ## Section 3: What comes back -/

variable {κ : Type} [Content κ]

/-- No other factory fills a chunk. -/
theorem Factory.eq_chunk {f : Factory κ} {tracker : String} {p : Primitive κ} {c : Chunk}
    (h : f.fill tracker p = .chunk c) : f = .chunk := by
  unfold fill at h
  cases f with
  | action => cases hp : p.owner <;> rw [hp] at h <;> cases h
  | chunk => rfl
  | custom f => cases hp : p.owner <;> rw [hp] at h <;> cases h

/-- The primitive of a chunk. -/
def Chunk.primitive (c : Chunk) : Primitive κ :=
  { stuffs := c.stuffs, owner := c.info.owner, dialect := some (.chunk c) }

/-- A reading that has brought a chunk from a peer. -/
structure Received.BringsChunk (r : Received κ) (c : Chunk) (peer : Option String) : Prop where
  error : r.error = none
  owner : r.primitive.owner = peer
  dialect : ∃ b, r.primitive.dialect = some (.chunk b) ∧ c.Same b ∧ b.info.owner = peer

/-- What becomes of a cache that takes in a chunk from a peer: the chunk is placed under the peer
    and its sign and no other key is touched, and then the oldest sign may have to go. -/
structure ChunkCache.Admits (c : ChunkCache) (tag : String) (chunk : Chunk) (after : ChunkCache) :
    Prop where
  keys : ∀ t s, (c.insert tag chunk).fragments? t s =
    if t = tag ∧ s = chunk.sign then
      some (place c.order chunk ((c.fragments? tag chunk.sign).getD [])).2
    else c.fragments? t s
  cache : after =
    if c.threshold.toNat < (c.insert tag chunk).memory then (c.insert tag chunk).evict.2
    else c.insert tag chunk

namespace Codec

variable {c : Codec κ} {r : Registry κ} {k : Chunk}

/-- **A chunk is read back** in either mode, and its factory is told of what was filled. -/
theorem deserialize_chunk (hr : c.registry = some r)
    (hfactory : r.factory? Chunk.dialectName = some .chunk) {p : Primitive κ}
    (hd : p.dialect = some (.chunk k)) (hp : p.stuffs = k.stuffs) (hlength : k.length < UInt64.size)
    (hdata : k.length ≤ k.data.length) (h : k.Sendable) (peer : Option String) :
    c.deserialize (Wire.serialize p) peer =
      { error := none
        primitive :=
          { stuffs := k.stuffs, owner := peer, dialect := some (.chunk (k.received peer)) }
        codec := { c with registry := some { r with cache := r.cache.write (k.received peer) } }
        calls := [Factory.chunk.call (.built (.chunk (k.received peer)))] } := by
  have hread : c.deserialize (Wire.serialize p) peer =
      c.bind { stuffs := p.stuffs, owner := peer } Chunk.dialectName k.info.tracker :=
    c.deserialize_serialize_bound hd (hp ▸ Chunk.backslashSafe_stuffs h.sign)
      (by decide : closeBracket ∉ Text.bytes Chunk.dialectName)
      (by decide : '@' ∉ Chunk.dialectName.toList) h.tracker peer
  have hfill : (Factory.chunk : Factory κ).fill k.info.tracker
      { stuffs := k.stuffs, owner := peer } = .chunk (k.received peer) := by
    rw [Factory.fill_chunk, Chunk.build_stuffs hlength hdata]
    rfl
  rw [hread, hp, bind_eq_of_some hr hfactory, hfill]
  rfl

theorem sendable_of_bringsChunk (hmode : c.mode = .strict) {peer : Option String}
    (h : (c.deserialize (Wire.serialize (k.primitive : Primitive κ)) peer).BringsChunk k peer) :
    k.Sendable := by
  obtain ⟨b, hdialect, hsame, -⟩ := h.dialect
  obtain ⟨f, header, s, rest, hscan, hfill⟩ :=
    c.eq_fill_of_deserialize (Wire.serialize_ne_nil _) hdialect
  obtain rfl := Factory.eq_chunk hfill.symm
  rw [Factory.fill_chunk] at hfill
  obtain rfl := Dialect.chunk.inj hfill
  rw [hmode] at hscan
  have hsign : Wire.BackslashSafe (Text.bytes k.sign) := by
    by_contra hnot
    obtain ⟨l, hl, htext⟩ := Wire.sign_of_scan_of_not_safe
      (p := k.primitive) (d := .chunk k) rfl rfl hnot hscan
    exact htext ((Chunk.sign_build hl _).symm.trans hsame.sign.symm)
  refine ⟨hsign, ?_⟩
  rw [hsame.tracker]
  exact Wire.tracker_closed_of_scan (p := k.primitive) (d := .chunk k) rfl
    (Chunk.backslashSafe_stuffs hsign) hscan

/-- **Chunks survive the wire exactly when they can be sent.** However a chunk came to be, the
    bytes that count are there. If it has a sign, and holds no more bytes than a length can
    tell, then a strict reader that knows chunks brings it back from any peer, or from none, if
    and only if its sign is backslash-safe and its tracker has no closing bracket. Then the
    cache of the reader takes in what was brought, under the peer and the sign, and nothing
    else; without a peer it stays as it is. -/
theorem chunk_survives_iff (c : Codec κ) (hmode : c.mode = .strict) {r : Registry κ}
    (hr : c.registry = some r) (hfactory : r.factory? Chunk.dialectName = some .chunk)
    {k : Chunk} (hk : k.Formed) :
    k.length ≤ k.data.length ∧ k.payload.length = k.length ∧
    (k.sign ≠ "" → k.data.length < UInt64.size →
      ∃ p : Primitive κ, Primitive.ofDialect? (.chunk k) = some p ∧
      ∀ peer : Option String,
        ((c.deserialize (Wire.serialize p) peer).BringsChunk k peer ↔ k.Sendable) ∧
        (k.Sendable → ∃ b cache,
          (c.deserialize (Wire.serialize p) peer).primitive.dialect = some (.chunk b) ∧
          k.Same b ∧ b.info.owner = peer ∧
          (c.deserialize (Wire.serialize p) peer).codec.registry = some { r with cache } ∧
          match peer with
          | none => cache = r.cache
          | some tag => r.cache.Admits tag b cache)) := by
  have hle := hk.length_le
  refine ⟨hle, Chunk.length_payload hle, fun hsign hsize => ⟨k.primitive, ?_, fun peer => ?_⟩⟩
  · show k.translate?.map _ = _
    rw [Chunk.translate?_of_sign hsign]
    rfl
  · have hread := deserialize_chunk (p := k.primitive) hr hfactory rfl rfl
      (Nat.lt_of_le_of_lt hle hsize) hle
    refine ⟨⟨sendable_of_bringsChunk hmode, fun h => ?_⟩, fun h => ?_⟩
    · rw [hread h peer]
      exact ⟨rfl, rfl, k.received peer, rfl, k.same_received peer, rfl⟩
    · rw [hread h peer]
      refine ⟨k.received peer, r.cache.write (k.received peer), rfl, k.same_received peer, rfl,
        rfl, ?_⟩
      cases peer with
      | none => rfl
      | some tag =>
        exact ⟨fun t s => r.cache.fragments?_insert tag _ t s, ChunkCache.write_of_owner rfl _⟩

/-- A chunk of five bytes that counts three of them, filled from stuffs that leave out how long
    the payload is. The sign has structural bytes and a pair of backslashes. -/
def partlyCounted : Chunk :=
  Chunk.build { info := { tracker := "t@1" } } (.ofList
    [.subject (.ofString "a:\\\\=\x7b"), .subject (.ofUInt32 1), .subject (.ofUInt32 2),
      .objective (.ofString "AQIDBAU="), .objective (.ofUInt64 3)])

/-- The same chunk, but the sign has lost a backslash. -/
def unpaired : Chunk :=
  Chunk.build partlyCounted (.ofList [.subject (.ofString "a:\\=\x7b")])

theorem chunk_survives_iff_partlyCounted :
    strictOfChunks.mode = .strict ∧
    strictOfChunks.registry = some (Registry.add {} .chunk) ∧
    (Registry.add {} .chunk : Registry Empty).factory? Chunk.dialectName = some .chunk ∧
    (partlyCounted.Formed ∧ partlyCounted.sign ≠ "" ∧ partlyCounted.data.length < UInt64.size ∧
      partlyCounted.data = [1, 2, 3, 4, 5] ∧ partlyCounted.payload = [1, 2, 3] ∧
      ∃ p : Primitive Empty, Primitive.ofDialect? (.chunk partlyCounted) = some p ∧
        (strictOfChunks.deserialize (Wire.serialize p) (some "peer")).BringsChunk partlyCounted
          (some "peer")) ∧
    (unpaired.Formed ∧ unpaired.sign ≠ "" ∧ unpaired.data.length < UInt64.size ∧
      ∃ p : Primitive Empty, Primitive.ofDialect? (.chunk unpaired) = some p ∧
        ¬ (strictOfChunks.deserialize (Wire.serialize p) none).BringsChunk unpaired none) := by
  have hfactory : (Registry.add {} .chunk : Registry Empty).factory? Chunk.dialectName =
      some .chunk := Registry.factory?_add {} .chunk
  have hformed : partlyCounted.Formed := .built _ _
  have hformed' : unpaired.Formed := .built _ _
  have hsign : partlyCounted.sign ≠ "" := by decide +kernel
  have hsign' : unpaired.sign ≠ "" := by decide +kernel
  have hsize : partlyCounted.data.length < UInt64.size := by decide +kernel
  have hsize' : unpaired.data.length < UInt64.size := by decide +kernel
  have hsendable : partlyCounted.Sendable := ⟨by decide +kernel, by decide +kernel⟩
  have hunsafe : ¬ unpaired.Sendable := fun h => absurd h.sign (by decide +kernel)
  obtain ⟨-, -, hsurvives⟩ := chunk_survives_iff strictOfChunks rfl rfl hfactory hformed
  obtain ⟨-, -, hsurvives'⟩ := chunk_survives_iff strictOfChunks rfl rfl hfactory hformed'
  obtain ⟨p, hp, hpeers⟩ := hsurvives hsign hsize
  obtain ⟨q, hq, hpeers'⟩ := hsurvives' hsign' hsize'
  exact ⟨rfl, rfl, hfactory,
    ⟨hformed, hsign, hsize, by decide +kernel, by decide +kernel, p, hp,
      (hpeers (some "peer")).1.2 hsendable⟩,
    ⟨hformed', hsign', hsize', q, hq, fun h => hunsafe ((hpeers' none).1.1 h)⟩⟩

end Codec

end Parley
