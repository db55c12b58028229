import Parley.Codec
import Parley.Proofs.Wire.Backslash

/-! # Scanning, block by block

  The automaton reads byte by byte; this module says what `scan` makes of whole
  pieces of the wire form: the version block, a stuff, a dialect block. Pieces are
  stated with **whatever follows them**, so that they can be put together.

  The stuff of a piece may be read differently from how it was sent. The two
  cases are `scan_stuffBlock` (its value is safe: it is committed as it is) and
  `scan_stuffBlock_of_not_safe` (it is not: the reading fails, or never gets to the
  end of the value, or commits another literal).
-/

namespace Parley

open Ascii

/-! ## Text and tags -/

namespace Text

/-- Text that was sent as UTF-8 is read as it was. -/
@[simp] theorem ofBytes?_bytes (s : String) : ofBytes? (bytes s) = some s := by
  have h : s.toByteArray.data.toList.toByteArray = s.toByteArray := by
    rw [ByteArray.ext_iff]
    simp
  unfold ofBytes? bytes
  rw [h]
  simp [String.fromUTF8?, String.fromUTF8, s.isValidUTF8]

/-- Bytes that are read as a text are its UTF-8 form. -/
theorem bytes_of_ofBytes? {bs : Bytes} {s : String} (h : ofBytes? bs = some s) :
    bytes s = bs := by
  unfold ofBytes? at h
  simp only [String.fromUTF8?, Option.dite_none_right_eq_some, Option.some.injEq] at h
  obtain ⟨_, rfl⟩ := h
  simp [bytes, String.fromUTF8]

/-- Texts with the same bytes are the same. -/
theorem bytes_inj {a b : String} : bytes a = bytes b ↔ a = b := by
  constructor
  · intro h
    have hread := ofBytes?_bytes a
    rw [h, ofBytes?_bytes] at hread
    exact (Option.some.inj hread).symm
  · rintro rfl
    rfl

end Text

/-- The tag of a kind names it, also when it is cut to three bytes. -/
@[simp] theorem Kind.ofTag?_tag (kind : Kind) :
    Kind.ofTag? ((Text.bytes kind.tag).take 3) = some kind := by
  cases kind <;> rfl

/-- No tag of a kind holds the byte that ends it. -/
theorem Kind.equals_not_mem_tag (kind : Kind) : equals ∉ Text.bytes kind.tag := by
  cases kind <;> decide

/-- The tag of a base names it. -/
@[simp] theorem Base.ofTag?_tag (base : Base) : Base.ofTag? (Text.bytes base.tag) = some base := by
  cases base <;> rfl

/-- No tag of a base holds the byte that ends it. -/
theorem Base.closeBrace_not_mem_tag (base : Base) : closeBrace ∉ Text.bytes base.tag := by
  cases base <;> decide

namespace Wire

/-! ## Pieces of a block -/

/-- The tag of a kind is read up to its equals sign and cut to three bytes. -/
theorem scan_tag (mode : Mode) (s : Stuffs) (version read : Array UInt8) {tag : Bytes}
    (h : equals ∉ tag) (rest : Bytes) :
    scan mode ⟨.tag read, version⟩ s (tag ++ equals :: rest) =
      scan mode ⟨.value ((read.toList ++ tag).take 3) #[] false, version⟩ s rest := by
  induction tag generalizing read with
  | nil => simp [scan, Automaton.feed]
  | cons b tag ih =>
    have hb : b ≠ equals := by
      intro e
      exact h (by simp [e])
    have htail : equals ∉ tag := fun hmem => h (List.mem_cons_of_mem b hmem)
    have := ih (read.push b) htail
    simpa [scan, Automaton.feed, hb] using this

/-- A value that ends: the tag of its base comes next. -/
theorem scan_value_some (mode : Mode) (s : Stuffs) (version read : Array UInt8) (tag : Bytes)
    {pending : Bool} {bs w rest : Bytes} (h : unescapeUpTo pending bs = some (w, rest)) :
    scan mode ⟨.value tag read pending, version⟩ s bs =
      scan mode ⟨.base tag (read.toList ++ w) #[], version⟩ s rest := by
  induction bs generalizing read pending w with
  | nil => simp [unescapeUpTo] at h
  | cons b bs ih =>
    cases pending with
    | true =>
      simp only [unescapeUpTo, if_true, Option.map_eq_some_iff, Prod.mk.injEq] at h
      obtain ⟨⟨w', r'⟩, hrec, rfl, rfl⟩ := h
      -- the byte says what the backslash before it means
      have := ih (Automaton.unescape read b) hrec
      rw [show scan mode ⟨.value tag read true, version⟩ s (b :: bs) =
        scan mode ⟨.value tag (Automaton.unescape read b) false, version⟩ s bs from rfl, this]
      unfold Automaton.unescape
      split <;> simp
    | false =>
      by_cases hb : b = backslash
      · simp only [unescapeUpTo, hb, Bool.false_eq_true, if_false, if_true] at h
        have := ih read h
        simpa [scan, Automaton.feed, hb] using this
      · by_cases hc : b = colon
        · simp only [unescapeUpTo, hc, Bool.false_eq_true, if_false, if_true,
            show ¬ colon = backslash by decide, Option.some.injEq, Prod.mk.injEq] at h
          obtain ⟨rfl, rfl⟩ := h
          simp [scan, Automaton.feed, hc, show ¬ colon = backslash by decide]
        · -- any other byte stands for itself
          simp only [unescapeUpTo, hb, hc, Bool.false_eq_true, if_false,
            Option.map_eq_some_iff, Prod.mk.injEq] at h
          obtain ⟨⟨w', r'⟩, hrec, rfl, rfl⟩ := h
          have := ih (read.push b) hrec
          simpa [scan, Automaton.feed, hb, hc] using this

/-- A value that does not end: the reading is still inside it when the bytes are
    used up. -/
theorem scan_value_none (mode : Mode) (s : Stuffs) (version read : Array UInt8) (tag : Bytes)
    {pending : Bool} {bs : Bytes} (h : unescapeUpTo pending bs = none) :
    ∃ read' pending',
      scan mode ⟨.value tag read pending, version⟩ s bs =
        .running ⟨.value tag read' pending', version⟩ s := by
  induction bs generalizing read pending with
  | nil => exact ⟨read, pending, rfl⟩
  | cons b bs ih =>
    cases pending with
    | true =>
      simp only [unescapeUpTo, if_true, Option.map_eq_none_iff] at h
      exact ih (Automaton.unescape read b) h
    | false =>
      by_cases hb : b = backslash
      · simp only [unescapeUpTo, hb, Bool.false_eq_true, if_false, if_true] at h
        simpa [scan, Automaton.feed, hb] using ih read h
      · by_cases hc : b = colon
        · simp [unescapeUpTo, hc, show ¬ colon = backslash by decide] at h
        · simp only [unescapeUpTo, hb, hc, Bool.false_eq_true, if_false,
            Option.map_eq_none_iff] at h
          simpa [scan, Automaton.feed, hb, hc] using ih (read.push b) h

/-- The tag of a base is read up to its closing brace, and the stuff is judged. -/
theorem scan_base (mode : Mode) (s : Stuffs) (version read : Array UInt8) (tag value : Bytes)
    {base : Bytes} (h : closeBrace ∉ base) (rest : Bytes) :
    scan mode ⟨.base tag value read, version⟩ s (base ++ closeBrace :: rest) =
      match RawStuff.accept mode { tag, value, base := read.toList ++ base } with
      | .error e => .failed e s
      | .ok none => scan mode ⟨.between true, version⟩ s rest
      | .ok (some stuff) => scan mode ⟨.between true, version⟩ (s.commit stuff) rest := by
  induction base generalizing read with
  | nil =>
    rw [List.append_nil]
    rfl
  | cons b base ih =>
    have hb : b ≠ closeBrace := by
      intro e
      exact h (by simp [e])
    have htail : closeBrace ∉ base := fun hmem => h (List.mem_cons_of_mem b hmem)
    have := ih (read.push b) htail
    simpa [scan, Automaton.feed, hb] using this

/-- The tag of a base that does not end: the reading is still inside it when the
    bytes are used up. -/
theorem scan_base_open (mode : Mode) (s : Stuffs) (version read : Array UInt8)
    (tag value : Bytes) {bs : Bytes} (h : closeBrace ∉ bs) :
    ∃ read',
      scan mode ⟨.base tag value read, version⟩ s bs =
        .running ⟨.base tag value read', version⟩ s := by
  induction bs generalizing read with
  | nil => exact ⟨read, rfl⟩
  | cons b bs ih =>
    have hb : b ≠ closeBrace := by
      intro e
      exact h (by simp [e])
    have htail : closeBrace ∉ bs := fun hmem => h (List.mem_cons_of_mem b hmem)
    simpa [scan, Automaton.feed, hb] using ih (read.push b) htail

/-- The header of a dialect is read up to its closing bracket. -/
theorem scan_header (mode : Mode) (s : Stuffs) (version read : Array UInt8) (afterStuff : Bool)
    {header : Bytes} (h : closeBracket ∉ header) (rest : Bytes) :
    scan mode ⟨.header afterStuff read, version⟩ s (header ++ closeBracket :: rest) =
      .finished (read.toList ++ header) s rest := by
  induction header generalizing read with
  | nil => simp [scan, Automaton.feed]
  | cons b header ih =>
    have hb : b ≠ closeBracket := by
      intro e
      exact h (by simp [e])
    have htail : closeBracket ∉ header := fun hmem => h (List.mem_cons_of_mem b hmem)
    have := ih (read.push b) htail
    simpa [scan, Automaton.feed, hb] using this

/-! ## Whole blocks -/

/-- The version is read off. -/
theorem scan_versionBlock (mode : Mode) (s : Stuffs) (rest : Bytes) :
    scan mode .start s (versionBlock ++ rest) =
      scan mode ⟨.between false, (Text.bytes protocolVersion).toArray⟩ s rest := rfl

/-- A stuff block up to the colon. -/
theorem scan_stuffBlock_value (mode : Mode) (s : Stuffs) (version : Array UInt8)
    (afterStuff : Bool) (stuff : Stuff) (rest : Bytes) :
    scan mode ⟨.between afterStuff, version⟩ s (stuffBlock stuff ++ rest) =
      scan mode ⟨.value ((Text.bytes stuff.kind.tag).take 3) #[] false, version⟩ s
        (escape (Text.bytes stuff.text) ++
          colon :: (Text.bytes stuff.base.tag ++ closeBrace :: rest)) := by
  have hopen : scan mode ⟨.between afterStuff, version⟩ s (stuffBlock stuff ++ rest) =
      scan mode ⟨.tag #[], version⟩ s (Text.bytes stuff.kind.tag ++ equals ::
        (escape (Text.bytes stuff.text) ++
          colon :: (Text.bytes stuff.base.tag ++ closeBrace :: rest))) := by
    simp [stuffBlock, scan, Automaton.feed]
  rw [hopen, scan_tag mode s version #[] stuff.kind.equals_not_mem_tag]
  rfl

/-- What was sent in known tags and a UTF-8 value is accepted in either mode. -/
theorem accept_sent (mode : Mode) (stuff : Stuff) :
    RawStuff.accept mode
      { tag := (Text.bytes stuff.kind.tag).take 3
        value := Text.bytes stuff.text
        base := Text.bytes stuff.base.tag } = .ok (some stuff) := by
  cases mode with
  | strict => simp [RawStuff.accept, RawStuff.judge, RawStuff.tags, Except.map]
  | lenient => simp [RawStuff.accept, RawStuff.salvage?, RawStuff.tags, Text.repair]

/-- **A stuff with a safe value** is committed as it was sent. -/
theorem scan_stuffBlock (mode : Mode) (s : Stuffs) (version : Array UInt8) (afterStuff : Bool)
    {stuff : Stuff} (h : BackslashSafe (Text.bytes stuff.text)) (rest : Bytes) :
    scan mode ⟨.between afterStuff, version⟩ s (stuffBlock stuff ++ rest) =
      scan mode ⟨.between true, version⟩ (s.commit stuff) rest := by
  have hread := (unescapeUpTo_escape false (Text.bytes stuff.text)
    (Text.bytes stuff.base.tag ++ closeBrace :: rest) _).2 ⟨(backslashSafe_iff _).1 h, rfl⟩
  rw [scan_stuffBlock_value, scan_value_some mode s version #[] _ hread,
    scan_base mode s version #[] _ _ stuff.base.closeBrace_not_mem_tag]
  simp [owed, accept_sent]

/-- Stuffs with safe values are committed one after the other. -/
theorem scan_stuffBlocks (mode : Mode) (s : Stuffs) (version : Array UInt8) (afterStuff : Bool)
    {stuffs : List Stuff} (h : ∀ stuff ∈ stuffs, BackslashSafe (Text.bytes stuff.text))
    (rest : Bytes) :
    scan mode ⟨.between afterStuff, version⟩ s (stuffs.flatMap stuffBlock ++ rest) =
      scan mode ⟨.between (afterStuff || !stuffs.isEmpty), version⟩ (s.commitAll stuffs) rest := by
  induction stuffs generalizing s afterStuff with
  | nil => simp [Stuffs.commitAll]
  | cons stuff stuffs ih =>
    rw [List.flatMap_cons, List.append_assoc,
      scan_stuffBlock mode s version afterStuff (h stuff List.mem_cons_self),
      ih (s.commit stuff) true fun x hx => h x (List.mem_cons_of_mem stuff hx)]
    simp [Stuffs.commitAll]

/-- A dialect block behind its opening bracket. -/
theorem scan_dialectBlock_header (mode : Mode) (s : Stuffs) (version : Array UInt8)
    (afterStuff : Bool) (name tracker : String) (rest : Bytes) :
    scan mode ⟨.between afterStuff, version⟩ s (dialectBlock name tracker ++ rest) =
      scan mode ⟨.header afterStuff #[], version⟩ s
        ((Text.bytes name ++ atSign :: Text.bytes tracker) ++ closeBracket :: rest) := by
  simp [dialectBlock, scan, Automaton.feed, show ¬ openBracket = openBrace by decide]

/-- A dialect block ends the reading. -/
theorem scan_dialectBlock (mode : Mode) (s : Stuffs) (version : Array UInt8) (afterStuff : Bool)
    {name tracker : String} (hname : closeBracket ∉ Text.bytes name)
    (htracker : closeBracket ∉ Text.bytes tracker) (rest : Bytes) :
    scan mode ⟨.between afterStuff, version⟩ s (dialectBlock name tracker ++ rest) =
      .finished (Text.bytes name ++ atSign :: Text.bytes tracker) s rest := by
  rw [scan_dialectBlock_header, scan_header mode s version #[] afterStuff]
  · rfl
  · simp [hname, htracker, show ¬ closeBracket = atSign by decide]

end Wire

end Parley
