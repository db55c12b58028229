import Parley.Proofs.Text.ReadBack
import Parley.Proofs.Text.Repair
import Parley.Proofs.Wire.Binding
import Parley.Proofs.Wire.RoundTrip

/-! # Primitives with a dialect, read back

  Where every value is safe, a primitive that has a dialect is read back in either
  mode, and the name and tracker of the dialect with it. A **chunk** that travels in
  this way is filled from the stuffs that it was turned into: it has the same sign,
  index and number, and the bytes that counted.
-/

namespace Parley

open Ascii

/-! ## Headers -/

namespace Text

theorem bytes_append (a b : String) : bytes (a ++ b) = bytes a ++ bytes b := by
  unfold bytes
  rw [String.toByteArray_append, ByteArray.data_append, Array.toList_append]

@[simp] theorem repair_bytes (s : String) : repair (bytes s) = s := by
  unfold repair
  rw [ofBytes?_bytes]

end Text

namespace Wire

/-- A header tells the name and the tracker that it was made of. -/
theorem headerParts_eq {name : String} (h : '@' ∉ name.toList) (tracker : String) :
    headerParts (Text.bytes name ++ atSign :: Text.bytes tracker) = (name, tracker) := by
  -- a header is split as text, so its bytes are first seen to be one
  have hbytes : Text.bytes name ++ atSign :: Text.bytes tracker
      = Text.bytes (name ++ "@" ++ tracker) := by
    rw [Text.bytes_append, Text.bytes_append, List.append_assoc]
    rfl
  have hchars : (name ++ "@" ++ tracker).toList = name.toList ++ '@' :: tracker.toList := by
    rw [String.toList_append, String.toList_append, List.append_assoc]
    rfl
  have hname : ∀ c ∈ name.toList, decide (c ≠ '@') = true := by
    intro c hc
    exact decide_eq_true fun e => h (e ▸ hc)
  unfold headerParts
  rw [hbytes, Text.repair_bytes, hchars]
  dsimp only
  rw [List.dropWhile_append_of_pos hname, List.takeWhile_append_of_pos hname]
  simp

/-- The tracker in a header has a closing bracket only if the header has one. -/
theorem headerParts_closed {header : Bytes} (h : closeBracket ∉ header) :
    closeBracket ∉ Text.bytes (headerParts header).2 := by
  unfold headerParts
  dsimp only
  split
  · exact (by decide : closeBracket ∉ Text.bytes defaultTracker)
  · next c tracker hdrop =>
    intro hmem
    rw [Text.bytes_ofList] at hmem
    -- the tracker is the end of the header as a text, and a repair adds no bracket
    have hsuffix : tracker <:+ (Text.repair header).toList :=
      (List.suffix_cons c tracker).trans (hdrop ▸ List.dropWhile_suffix _)
    have hrepaired : closeBracket ∈ Text.bytes (Text.repair header) := by
      rw [← @String.ofList_toList (Text.repair header), Text.bytes_ofList]
      obtain ⟨ch, hch, hbyte⟩ := List.mem_flatMap.1 hmem
      exact List.mem_flatMap.2 ⟨ch, hsuffix.subset hch, hbyte⟩
    exact h ((Text.mended_repair header).mem (by decide) hrepaired)

/-- A dialect block ends a reading in a header without a closing bracket, whatever the name
    and the tracker are. -/
theorem scan_dialectBlock_closed (mode : Mode) (s : Stuffs) (version : Array UInt8)
    (afterStuff : Bool) (name tracker : String) (rest : Bytes) :
    ∃ header rest', closeBracket ∉ header ∧
      scan mode ⟨.between afterStuff, version⟩ s (dialectBlock name tracker ++ rest) =
        .finished header s rest' := by
  have hmem : closeBracket ∈
      (Text.bytes name ++ atSign :: Text.bytes tracker) ++ closeBracket :: rest :=
    List.mem_append_right _ List.mem_cons_self
  obtain ⟨header, rest', hsplit, hheader⟩ := List.eq_append_cons_of_mem hmem
  refine ⟨header, rest', hheader, ?_⟩
  rw [scan_dialectBlock_header, hsplit, scan_header mode s version #[] afterStuff hheader]
  rfl

/-! ## Bound primitives -/

variable {κ : Type}

/-- The wire form of a primitive that has a dialect, and what follows it. -/
theorem serialize_append {p : Primitive κ} {d : Dialect κ} (hd : p.dialect = some d)
    (rest : Bytes) :
    serialize p ++ rest = versionBlock ++ (p.stuffs.toList.flatMap stuffBlock ++
      (dialectBlock d.name d.tracker ++ rest)) := by
  unfold serialize
  rw [hd, List.append_assoc, List.append_assoc]

/-- Reading a primitive that has a dialect ends behind the dialect block, whatever follows. -/
theorem scan_serialize (mode : Mode) {p : Primitive κ} {d : Dialect κ} (hd : p.dialect = some d)
    (hsafe : ∀ stuff ∈ p.stuffs.toList, BackslashSafe (Text.bytes stuff.text))
    (hname : closeBracket ∉ Text.bytes d.name) (htracker : closeBracket ∉ Text.bytes d.tracker)
    (rest : Bytes) :
    scan mode .start {} (serialize p ++ rest)
      = .finished (Text.bytes d.name ++ atSign :: Text.bytes d.tracker) p.stuffs rest := by
  have hall : Stuffs.commitAll {} p.stuffs.toList = p.stuffs := Stuffs.ofList_toList p.stuffs
  rw [serialize_append hd, scan_versionBlock, scan_stuffBlocks mode _ _ _ hsafe, hall,
    scan_dialectBlock mode _ _ _ hname htracker]

/-- Where safe stuffs and a dialect block were sent, the tracker that was read has no closing
    bracket. -/
theorem tracker_closed_of_scan {mode : Mode} {p : Primitive κ} {d : Dialect κ}
    (hd : p.dialect = some d)
    (hsafe : ∀ stuff ∈ p.stuffs.toList, BackslashSafe (Text.bytes stuff.text)) {header rest : Bytes}
    {s : Stuffs} (hscan : scan mode .start {} (serialize p) = .finished header s rest) :
    closeBracket ∉ Text.bytes (headerParts header).2 := by
  -- the stuffs are read as they are, so the header is that of the dialect block
  have hwire := serialize_append hd []
  rw [List.append_nil] at hwire
  rw [hwire, scan_versionBlock, scan_stuffBlocks mode _ _ _ hsafe] at hscan
  obtain ⟨header', rest', hclosed, hscan'⟩ := scan_dialectBlock_closed mode
    (Stuffs.commitAll {} p.stuffs.toList) (Text.bytes protocolVersion).toArray
    (false || !p.stuffs.toList.isEmpty) d.name d.tracker []
  rw [hscan'] at hscan
  obtain rfl : header' = header := by
    injection hscan
  exact headerParts_closed hclosed

end Wire

/-- **A primitive that has a dialect is read back** in either mode, and its dialect is bound
    again under its name and tracker. -/
theorem Codec.deserialize_serialize_bound {κ : Type} [Content κ] (c : Codec κ) {p : Primitive κ}
    {d : Dialect κ} (hd : p.dialect = some d)
    (hsafe : ∀ stuff ∈ p.stuffs.toList, Wire.BackslashSafe (Text.bytes stuff.text))
    (hname : closeBracket ∉ Text.bytes d.name) (hat : '@' ∉ d.name.toList)
    (htracker : closeBracket ∉ Text.bytes d.tracker) (owner : Option String) :
    c.deserialize (Wire.serialize p) owner
      = c.bind { stuffs := p.stuffs, owner } d.name d.tracker := by
  have hscan := Wire.scan_serialize c.mode hd hsafe hname htracker []
  rw [List.append_nil] at hscan
  rw [deserialize_eq c (Wire.serialize_ne_nil p), hscan]
  dsimp only
  unfold conclude
  dsimp only
  rw [Wire.headerParts_eq hat]

/-- A dialect that came out of a reading was filled by a factory at the end of a scan, with the
    tracker in its header and the stuffs that it had committed. -/
theorem Codec.eq_fill_of_deserialize {κ : Type} [Content κ] (c : Codec κ) {bs : Bytes}
    (hne : bs ≠ []) {peer : Option String} {d : Dialect κ}
    (h : (c.deserialize bs peer).primitive.dialect = some d) :
    ∃ (f : Factory κ) (header : Bytes) (s : Stuffs) (rest : Bytes),
      Wire.scan c.mode .start {} bs = .finished header s rest ∧
      d = f.fill (Wire.headerParts header).2 { stuffs := s, owner := peer } := by
  rw [deserialize_eq c hne] at h
  cases hscan : Wire.scan c.mode .start {} bs with
  | running a s =>
    rw [hscan] at h
    dsimp only [Wire.ending] at h
    split at h <;> cases h
  | failed e s =>
    rw [hscan] at h
    cases h
  | finished header s rest =>
    rw [hscan] at h
    obtain ⟨f, hfill⟩ := eq_fill_of_bind rfl h
    exact ⟨f, header, s, rest, rfl, hfill⟩

/-! ## Chunks -/

namespace Chunk

/-- The stuffs of a chunk. -/
def stuffs (c : Chunk) : Stuffs :=
  { subjects := #[.ofString c.sign, .ofUInt32 c.index, .ofUInt32 c.num]
    objectives :=
      #[.ofString (Base64.encode c.payload), .ofUInt64 (UInt64.ofNat c.length),
        .ofUInt64 c.total] }

theorem translate?_of_sign {c : Chunk} (h : c.sign ≠ "") : c.translate? = some c.stuffs := by
  unfold translate?
  rw [if_neg h]
  rfl

/-- **A chunk is filled from its own stuffs**: with what it says of itself, and with the
    bytes that count. -/
theorem build_stuffs {c : Chunk} (hlength : c.length < UInt64.size)
    (hdata : c.length ≤ c.data.length) (fresh : Chunk) :
    fresh.build c.stuffs = { c with info := fresh.info, data := c.payload } := by
  have hpayload : c.payload.length = c.length := by
    unfold payload
    rw [List.length_take]
    omega
  have hcounted : (UInt64.ofNat c.length).toNat = c.length := UInt64.toNat_ofNat_of_lt' hlength
  simp [build, stuffs, Stuffs.of, Literal.ofString, Base64.decode?_encode, hpayload, hcounted]

/-- All stuffs of a chunk are safe if its sign is. -/
theorem backslashSafe_stuffs {c : Chunk} (h : Wire.BackslashSafe (Text.bytes c.sign)) :
    ∀ stuff ∈ c.stuffs.toList, Wire.BackslashSafe (Text.bytes stuff.text) := by
  intro stuff hmem
  simp only [stuffs, Stuffs.toList, Kind.all, Stuffs.of, List.flatMap_cons, List.flatMap_nil,
    List.map_cons, List.map_nil, List.nil_append, List.append_nil, List.cons_append,
    List.mem_cons, List.not_mem_nil, or_false] at hmem
  rcases hmem with rfl | rfl | rfl | rfl | rfl | rfl
  · exact h
  · exact Text.backslashSafe_decimal _
  · exact Text.backslashSafe_decimal _
  · exact Base64.backslashSafe_encode _
  · exact Text.backslashSafe_decimal _
  · exact Text.backslashSafe_decimal _

end Chunk

/-- The factory for chunks fills a chunk with the tracker and the owner. -/
theorem Factory.fill_chunk {κ : Type} [Content κ] (tracker : String) (p : Primitive κ) :
    (Factory.chunk : Factory κ).fill tracker p =
      .chunk (Chunk.build { info := { tracker, owner := p.owner } } p.stuffs) := by
  unfold fill
  cases p.owner <;> rfl

end Parley
