import Parley.Proofs.Wire.Bound
import Parley.Proofs.Wire.Modes
import Parley.Proofs.Wire.Unambiguous

/-! # The wire form, cut off anywhere

  The bytes of a primitive may break off at any place: in the version or a tag, between a
  backslash and its byte, inside a character, behind a brace or a bracket that belongs to a
  value. If all values are safe, the reader always knows where it stands:

  * **Behind the version and behind each stuff** the bytes may end, and behind the dialect block
    too. A strict reading fails at every other place, with an unexpected end.
  * What is read before the cut are the stuffs that stand whole in front of it, in either mode,
    and no dialect is bound unless all of its block is there.

  A stuff that is cut off is left open by the grammar, wherever the cut is (`openStuff_of_cut`).
  That a brace in front of the cut does not close the stuff, nor a colon its value, is because
  safe values are spelled by what the writer makes of them (`spells_escape`), and so is every
  first part of one, but for a backslash that has lost its byte (`Spells.cut`).
-/

namespace Parley

open Ascii

namespace Wire

/-! ## Section 1: First parts of a block -/

/-- Where bytes that stand behind one another are cut off. -/
theorem prefix_append_cases {u a b : Bytes} (h : u <+: a ++ b) :
    (u <+: a ∧ u ≠ a) ∨ ∃ w, u = a ++ w ∧ w <+: b := by
  rcases List.prefix_or_prefix_of_prefix h (List.prefix_append a b) with hfirst | ⟨w, rfl⟩
  · by_cases hall : u = a
    · exact .inr ⟨[], by rw [hall, List.append_nil], List.nil_prefix⟩
    · exact .inl ⟨hfirst, hall⟩
  · exact .inr ⟨w, rfl, (List.prefix_append_right_inj a).1 h⟩

/-- The same where a single byte stands between. -/
theorem prefix_append_cons_cases {u a b : Bytes} {stop : UInt8} (h : u <+: a ++ stop :: b) :
    u <+: a ∨ ∃ w, u = a ++ stop :: w ∧ w <+: b := by
  rcases prefix_append_cases h with ⟨hfirst, -⟩ | ⟨w, rfl, hw⟩
  · exact .inl hfirst
  · rcases List.prefix_cons_iff.1 hw with rfl | ⟨t, rfl, ht⟩
    · rw [List.append_nil]
      exact .inl List.prefix_rfl
    · exact .inr ⟨t, rfl, ht⟩

/-- What is in front of a cut behind a backslash or in front of it. -/
theorem prefix_pair_cases {u w : Bytes} {b : UInt8} (h : u <+: backslash :: b :: w) :
    u = [] ∨ u = [backslash] ∨ ∃ t, u = backslash :: b :: t ∧ t <+: w := by
  rcases List.prefix_cons_iff.1 h with rfl | ⟨t, rfl, ht⟩
  · exact .inl rfl
  · rcases List.prefix_cons_iff.1 ht with rfl | ⟨t, rfl, htail⟩
    · exact .inr (.inl rfl)
    · exact .inr (.inr ⟨t, rfl, htail⟩)

/-- The first part of a spelled value is spelled too, but for a backslash at the cut. -/
theorem Spells.cut {w v u : Bytes} (h : Spells w v) (hu : u <+: w) :
    ∃ spelled value last, u = spelled ++ last ∧ Spells spelled value ∧
      (last = [] ∨ last = [backslash]) := by
  -- a cut between a backslash and its byte leaves the backslash
  induction h generalizing u with
  | nil =>
    obtain rfl := List.prefix_nil.1 hu
    exact ⟨[], [], [], rfl, .nil, .inl rfl⟩
  | structural hb more ih =>
    rcases prefix_pair_cases hu with rfl | rfl | ⟨t, rfl, ht⟩
    · exact ⟨[], [], [], rfl, .nil, .inl rfl⟩
    · exact ⟨[], [], [backslash], rfl, .nil, .inr rfl⟩
    · obtain ⟨spelled, value, last, rfl, hvalue, hlast⟩ := ih ht
      exact ⟨_, _, last, rfl, .structural hb hvalue, hlast⟩
  | both hb more ih =>
    rcases prefix_pair_cases hu with rfl | rfl | ⟨t, rfl, ht⟩
    · exact ⟨[], [], [], rfl, .nil, .inl rfl⟩
    · exact ⟨[], [], [backslash], rfl, .nil, .inr rfl⟩
    · obtain ⟨spelled, value, last, rfl, hvalue, hlast⟩ := ih ht
      exact ⟨_, _, last, rfl, .both hb hvalue, hlast⟩
  | plain hb hc more ih =>
    rcases List.prefix_cons_iff.1 hu with rfl | ⟨t, rfl, ht⟩
    · exact ⟨[], [], [], rfl, .nil, .inl rfl⟩
    · obtain ⟨spelled, value, last, rfl, hvalue, hlast⟩ := ih ht
      exact ⟨_, _, last, rfl, .plain hb hc hvalue, hlast⟩

/-- Balanced bytes are spelled as they are sent, also behind a backslash without a partner. -/
theorem spells_escape_of_balanced (v : Bytes) :
    (balanced false v = true → Spells (escape v) v) ∧
      (balanced true v = true → Spells (backslash :: escape v) (backslash :: v)) := by
  have hcolon : isStructural colon = true := by decide
  induction v with
  | nil =>
    refine ⟨fun _ => .nil, ?_⟩
    -- a backslash without a partner must not be the last byte
    intro h
    cases h
  | cons b v ih =>
    obtain ⟨ihEven, ihOdd⟩ := ih
    rw [escape_cons]
    by_cases hb : b = backslash
    · subst hb
      simp only [balanced, isStructural_backslash, if_true, Bool.false_eq_true, if_false]
      exact ⟨ihOdd, fun h => .both isStructural_backslash (ihEven h)⟩
    · cases hs : isStructural b with
      | true =>
        simp only [balanced, hb, hs, if_true, if_false]
        exact ⟨fun h => .structural hs (ihEven (by simpa using h)), fun h => by simp at h⟩
      | false =>
        have hc : b ≠ colon := by
          rintro rfl
          rw [hcolon] at hs
          cases hs
        simp only [balanced, hb, hs, if_false, Bool.false_eq_true]
        exact ⟨fun h => .plain hb hc (ihEven (by simpa using h)),
          fun h => .both hs (ihEven (by simpa using h))⟩

/-- **A safe value is spelled as it is sent.** -/
theorem spells_escape {v : Bytes} (h : BackslashSafe v) : Spells (escape v) v :=
  (spells_escape_of_balanced v).1 ((backslashSafe_iff v).1 h)

/-- **A stuff that is cut off is left open**, wherever the cut is. -/
theorem openStuff_of_cut {stuff : Stuff} (hsafe : BackslashSafe (Text.bytes stuff.text))
    {w : Bytes} (hw : w <+: stuffBlock stuff) (hne : w ≠ stuffBlock stuff) :
    w = [] ∨ ∃ rest piece, w = openBrace :: rest ∧ OpenStuff rest piece := by
  have hblock := stuffBlock_append stuff []
  rw [List.append_nil] at hblock
  have htag := stuff.kind.equals_not_mem_tag
  have hvalue := spells_escape hsafe
  rw [hblock] at hw hne
  rcases List.prefix_cons_iff.1 hw with rfl | ⟨rest, rfl, hrest⟩
  · exact .inl rfl
  refine .inr ⟨rest, ?_⟩
  -- one byte after the other that ends a part of the block
  rcases prefix_append_cons_cases hrest with hcut | ⟨behindTag, rfl, hbehindTag⟩
  · exact ⟨_, rfl, .tag fun hmem => htag (hcut.subset hmem)⟩
  rcases prefix_append_cons_cases hbehindTag with hcut | ⟨behindValue, rfl, hbehindValue⟩
  · obtain ⟨spelled, value, last, rfl, hspelled, hlast⟩ := hvalue.cut hcut
    exact ⟨_, rfl, .value htag hspelled hlast⟩
  rcases prefix_append_cons_cases hbehindValue with hcut | ⟨behind, rfl, hbehind⟩
  · exact ⟨_, rfl,
      .base htag hvalue fun hmem => stuff.base.closeBrace_not_mem_tag (hcut.subset hmem)⟩
  · rw [List.prefix_nil.1 hbehind] at hne
    exact absurd rfl hne

/-! ## Section 2: Bytes that close nothing -/

/-- Behind the version or a block, these bytes close nothing, and they leave something open if
    there are any. -/
def Unclosed (w : Bytes) : Prop :=
  ∀ (after : Bool) (version : Array UInt8), ∃ a,
    Automaton.run ⟨.between after, version⟩ 0 w = (a, []) ∧ (a.atBoundary = true ↔ w = [])

theorem unclosed_nil : Unclosed [] := by
  intro after version
  exact ⟨⟨.between after, version⟩, rfl, iff_of_true rfl rfl⟩

theorem Unclosed.stuff {rest : Bytes} {piece : Piece} (h : OpenStuff rest piece) :
    Unclosed (openBrace :: rest) := by
  intro after version
  have hagrees : Agrees (Automaton.run ⟨.between after, version⟩ 0 (openBrace :: rest))
      ⟨version.toList, [], piece⟩ := run_openStuff (List.forall_mem_nil _) h
  -- a piece of a stuff is never one between blocks
  have hopen : piece.closed = false := by
    cases h <;> rfl
  refine ⟨_, Prod.ext rfl hagrees.events, ?_⟩
  rw [hagrees.boundary.trans hopen]
  simp

theorem Unclosed.header {header : Bytes} (h : closeBracket ∉ header) :
    Unclosed (openBracket :: header) := by
  intro after version
  have hrun : Automaton.run ⟨.between after, version⟩ 0 (openBracket :: header) =
      (⟨.header after header.toArray, version⟩, []) :=
    Automaton.run_header (List.forall_mem_nil _) h
  exact ⟨_, hrun, by simp [Automaton.atBoundary]⟩

/-- Bytes in which nothing closes are scanned to their end. -/
theorem scan_of_run {mode : Mode} {a a' : Automaton} {s : Stuffs} {bs : Bytes}
    (h : a.run 0 bs = (a', [])) : scan mode a s bs = .running a' s := by
  have hleads := scan_leads mode a s 0 bs
  rw [h] at hleads
  cases hscan : scan mode a s bs with
  | running a'' s' =>
    rw [hscan] at hleads
    obtain ⟨hfollow, -, rfl⟩ := hleads
    cases hfollow
    rfl
  | finished header s' rest =>
    rw [hscan] at hleads
    cases hleads.2
  | failed e s' =>
    rw [hscan] at hleads
    cases hleads

/-! ## Section 3: Where a reading stops -/

/-- The wire form up to the end of so many stuffs; up to the end of the version, if of none. -/
def upTo (stuffs : List Stuff) (k : Nat) : Bytes :=
  versionBlock ++ (stuffs.take k).flatMap stuffBlock

section Stuffs

variable {stuffs : List Stuff}

theorem upTo_succ {k : Nat} (hk : k < stuffs.length) :
    upTo stuffs (k + 1) = upTo stuffs k ++ stuffBlock stuffs[k] := by
  unfold upTo
  rw [← List.take_append_getElem hk, List.flatMap_append, List.append_assoc]
  simp

theorem prefix_upTo {j k : Nat} (h : j ≤ k) : upTo stuffs j <+: upTo stuffs k := by
  obtain ⟨more, hmore⟩ : stuffs.take j <+: stuffs.take k := List.take_prefix_take_left h
  refine ⟨more.flatMap stuffBlock, ?_⟩
  unfold upTo
  rw [← hmore, List.flatMap_append, List.append_assoc]

/-- A cut in the blocks of stuffs is in one of them, or else all of them stand before it. -/
theorem prefix_blocks {u rest : Bytes} (h : u <+: stuffs.flatMap stuffBlock ++ rest) :
    (∃ (k : Nat) (hk : k < stuffs.length) (w : Bytes),
      u = (stuffs.take k).flatMap stuffBlock ++ w ∧ w <+: stuffBlock stuffs[k] ∧
        w ≠ stuffBlock stuffs[k]) ∨
      ∃ w, u = stuffs.flatMap stuffBlock ++ w ∧ w <+: rest := by
  induction stuffs generalizing u with
  | nil => exact .inr ⟨u, rfl, h⟩
  | cons stuff stuffs ih =>
    rw [List.flatMap_cons, List.append_assoc] at h
    rcases prefix_append_cases h with ⟨hcut, hne⟩ | ⟨v, rfl, hv⟩
    · exact .inl ⟨0, Nat.zero_lt_succ _, u, rfl, hcut, hne⟩
    · rcases ih hv with ⟨k, hk, w, rfl, hcut, hne⟩ | ⟨w, rfl, hw⟩
      · refine .inl ⟨k + 1, Nat.succ_lt_succ hk, w, ?_, hcut, hne⟩
        rw [List.take_succ_cons, List.flatMap_cons, List.append_assoc]
      · refine .inr ⟨w, ?_, hw⟩
        rw [List.flatMap_cons, List.append_assoc]

/-- The stuffs that stand whole in front of a cut. -/
theorem lt_iff_prefix_upTo {k : Nat} {w : Bytes}
    (hw : ∀ h : k < stuffs.length, ¬ stuffBlock stuffs[k] <+: w) {i : Nat}
    (hi : i < stuffs.length) : i < k ↔ upTo stuffs (i + 1) <+: upTo stuffs k ++ w := by
  constructor
  · intro hlt
    exact (prefix_upTo hlt).trans (List.prefix_append _ _)
  · intro hprefix
    by_contra hge
    -- else the next one would stand whole in what is left
    have hk : k < stuffs.length := by omega
    have hle : k + 1 ≤ i + 1 := by omega
    have hnext : upTo stuffs (k + 1) <+: upTo stuffs k ++ w := (prefix_upTo hle).trans hprefix
    rw [upTo_succ hk, List.prefix_append_right_inj] at hnext
    exact hw hk hnext

/-- Up to the end of a stuff, the stuffs are read as they are. -/
theorem scan_upTo (mode : Mode) (hsafe : ∀ stuff ∈ stuffs, BackslashSafe (Text.bytes stuff.text))
    (k : Nat) (rest : Bytes) :
    ∃ after, scan mode .start {} (upTo stuffs k ++ rest) =
      scan mode ⟨.between after, (Text.bytes protocolVersion).toArray⟩ (.ofList (stuffs.take k))
        rest := by
  have hfirst : ∀ stuff ∈ stuffs.take k, BackslashSafe (Text.bytes stuff.text) :=
    fun stuff hmem => hsafe stuff (List.mem_of_mem_take hmem)
  have hblocks := scan_stuffBlocks mode {} (Text.bytes protocolVersion).toArray false hfirst rest
  unfold upTo
  rw [List.append_assoc, scan_versionBlock]
  exact ⟨_, hblocks⟩

end Stuffs

variable {κ : Type}

/-- A reading of the first bytes of a primitive has come through so many of its stuffs. -/
structure Stops (mode : Mode) (p : Primitive κ) (u : Bytes) (k : Nat) : Prop where
  /-- They are those that stand whole in the bytes. -/
  whole : ∀ i < p.stuffs.toList.length, i < k ↔ upTo p.stuffs.toList (i + 1) <+: u
  /-- The bytes end behind them or in what follows, or all is there, a dialect block too. -/
  progress :
    (∃ a, scan mode .start {} u = .running a (.ofList (p.stuffs.toList.take k)) ∧
      (a.atBoundary = true ↔ u = upTo p.stuffs.toList k)) ∨
    ∃ header rest, header? p = some header ∧ u = serialize p ∧
      scan mode .start {} u = .finished header (.ofList (p.stuffs.toList.take k)) rest

section Primitive

variable {p : Primitive κ}

/-- A reading that stops in the version has come through no stuff. -/
theorem stops_version (mode : Mode) {u : Bytes} (hu : u <+: versionBlock) (hne : u ≠ versionBlock) :
    Stops mode p u 0 where
  whole := by
    intro i hi
    constructor
    · intro hlt
      cases hlt
    · intro hprefix
      have hversion : versionBlock <+: u := (List.prefix_append _ _).trans hprefix
      exact absurd (hu.eq_of_length_le hversion.length_le) hne
  progress := by
    have hopen : u ≠ upTo p.stuffs.toList 0 := by
      unfold upTo
      rwa [List.take_zero, List.flatMap_nil, List.append_nil]
    rcases List.prefix_cons_iff.1 hu with rfl | ⟨t, rfl, ht⟩
    · exact .inl ⟨.start, rfl, iff_of_false Bool.false_ne_true hopen⟩
    · rcases prefix_append_cons_cases ht with hcut | ⟨w, rfl, hw⟩
      · have hclose : closeBracket ∉ Text.bytes protocolVersion := by decide
        have hrun : Automaton.run .start 0 (openBracket :: t) = (⟨.version, t.toArray⟩, []) :=
          run_version (List.not_mem_nil) fun hmem => hclose (hcut.subset hmem)
        exact .inl ⟨_, scan_of_run hrun, iff_of_false Bool.false_ne_true hopen⟩
      · rw [List.prefix_nil.1 hw] at hne
        exact absurd rfl hne

theorem serialize_eq_upTo (p : Primitive κ) :
    serialize p = upTo p.stuffs.toList p.stuffs.toList.length ++ headerBlock (header? p) := by
  rw [serialize_eq, upTo, List.take_length, List.append_assoc]

variable (hsafe : ∀ stuff ∈ p.stuffs.toList, BackslashSafe (Text.bytes stuff.text))

include hsafe

/-- A reading stops behind the stuffs that were closed, in bytes that close nothing. -/
theorem stops_of_unclosed (mode : Mode) {k : Nat} {w : Bytes} (hw : Unclosed w)
    (hcut : ∀ h : k < p.stuffs.toList.length, ¬ stuffBlock p.stuffs.toList[k] <+: w) :
    Stops mode p (upTo p.stuffs.toList k ++ w) k where
  whole := fun i hi => lt_iff_prefix_upTo hcut hi
  progress := by
    obtain ⟨after, hscan⟩ := scan_upTo mode hsafe k w
    obtain ⟨a, hrun, hboundary⟩ := hw after (Text.bytes protocolVersion).toArray
    refine .inl ⟨a, hscan.trans (scan_of_run hrun), hboundary.trans ?_⟩
    simp

/-- All the bytes of a primitive that has a header are scanned to this header. -/
theorem scan_serialize_of_header (mode : Mode) {header : Bytes} (hp : header? p = some header)
    (hclose : closeBracket ∉ header) :
    scan mode .start {} (serialize p) = .finished header p.stuffs [] := by
  obtain ⟨d, hd, rfl⟩ := Option.map_eq_some_iff.1 hp
  have hparts := not_or.1 fun h => hclose (List.mem_append.2 h)
  have hscan := scan_serialize mode hd hsafe hparts.1
    (fun hmem => hparts.2 (List.mem_cons_of_mem _ hmem)) []
  rwa [List.append_nil] at hscan

/-- A reading of all of them stops behind all stuffs. -/
theorem stops_serialize (mode : Mode) {header : Bytes} (hp : header? p = some header)
    (hclose : closeBracket ∉ header) :
    Stops mode p (serialize p) p.stuffs.toList.length where
  whole := by
    intro i hi
    rw [serialize_eq_upTo]
    exact lt_iff_prefix_upTo (fun h => absurd h (Nat.lt_irrefl _)) hi
  progress := by
    refine .inr ⟨header, [], hp, rfl, ?_⟩
    rw [scan_serialize_of_header hsafe mode hp hclose, List.take_length, Stuffs.ofList_toList]

/-- Behind all stuffs, a reading stops in the header or behind it. -/
theorem stops_behind_stuffs (mode : Mode) (hheader : ∀ header ∈ header? p, closeBracket ∉ header)
    {w : Bytes} (hw : w <+: headerBlock (header? p)) :
    Stops mode p (upTo p.stuffs.toList p.stuffs.toList.length ++ w) p.stuffs.toList.length := by
  have hopen : Unclosed w →
      Stops mode p (upTo p.stuffs.toList p.stuffs.toList.length ++ w) p.stuffs.toList.length :=
    fun hw => stops_of_unclosed hsafe mode hw fun h => absurd h (Nat.lt_irrefl _)
  cases hp : header? p with
  | none =>
    rw [hp] at hw
    obtain rfl := List.prefix_nil.1 hw
    exact hopen unclosed_nil
  | some header =>
    have hclose := hheader header hp
    rw [hp, headerBlock] at hw
    rcases List.prefix_cons_iff.1 hw with rfl | ⟨t, rfl, ht⟩
    · exact hopen unclosed_nil
    · rcases prefix_append_cons_cases ht with hcut | ⟨rest, rfl, hrest⟩
      · exact hopen (.header fun hmem => hclose (hcut.subset hmem))
      · -- the whole block
        obtain rfl := List.prefix_nil.1 hrest
        have hstops := stops_serialize hsafe mode hp hclose
        rwa [serialize_eq_upTo, hp] at hstops

/-- **Wherever the bytes of a primitive are cut off**, a reading stops behind the stuffs that
    stand whole in front of the cut. -/
theorem exists_stops (hheader : ∀ header ∈ header? p, closeBracket ∉ header) {u : Bytes}
    (hu : u <+: serialize p) : ∃ k, ∀ mode, Stops mode p u k := by
  rw [serialize_eq] at hu
  rcases prefix_append_cases hu with ⟨hcut, hne⟩ | ⟨v, rfl, hv⟩
  · exact ⟨0, fun mode => stops_version mode hcut hne⟩
  rcases prefix_blocks hv with ⟨k, hk, w, rfl, hcut, hne⟩ | ⟨w, rfl, hw⟩
  · -- in a stuff, which does not stand whole in front of the cut
    refine ⟨k, fun mode => ?_⟩
    have hshort : ¬ stuffBlock p.stuffs.toList[k] <+: w := by
      intro hwhole
      exact hne (hcut.eq_of_length_le hwhole.length_le)
    rw [← List.append_assoc]
    apply stops_of_unclosed hsafe mode _ fun _ => hshort
    rcases openStuff_of_cut (hsafe _ (List.getElem_mem hk)) hcut hne with
      rfl | ⟨rest, piece, rfl, hopen⟩
    · exact unclosed_nil
    · exact .stuff hopen
  · refine ⟨p.stuffs.toList.length, fun mode => ?_⟩
    have hstops := stops_behind_stuffs hsafe mode hheader hw
    rwa [upTo, List.take_length, List.append_assoc] at hstops

end Primitive

end Wire

/-! ## Section 4: Both modes -/

namespace Codec

open Wire

variable {κ : Type} [Content κ]

/-- Reading bytes that are there at once is one scan of them, also if there are none. -/
theorem deserialize_eq_scan (c : Codec κ) (bs : Bytes) (owner : Option String) :
    c.deserialize bs owner =
      match Wire.scan c.mode .start {} bs with
      | .running a s => c.conclude { stuffs := s, owner } (Wire.ending c.mode a)
      | .finished header s _ => c.conclude { stuffs := s, owner } (.ok (some header))
      | .failed e s => c.conclude { stuffs := s, owner } (.error e) := by
  cases bs with
  | nil => rfl
  | cons b bs => exact c.deserialize_eq (List.cons_ne_nil b bs) owner

variable (c : Codec κ) {p : Primitive κ}
  (hsafe : ∀ stuff ∈ p.stuffs.toList, BackslashSafe (Text.bytes stuff.text))

include hsafe in
/-- Bytes that end behind the version or a stuff are accepted. -/
theorem error_upTo (k : Nat) (owner : Option String) :
    (c.deserialize (upTo p.stuffs.toList k) owner).error = none := by
  obtain ⟨after, hscan⟩ := scan_upTo c.mode hsafe k []
  have hending : ∀ version, Wire.ending c.mode ⟨.between after, version⟩ = .ok none := by
    intro version
    exact if_neg fun h => absurd h.2 (by simp [Wire.Automaton.atBoundary])
  rw [List.append_nil] at hscan
  rw [deserialize_eq_scan, hscan, Wire.scan]
  dsimp only
  rw [hending]
  exact error_conclude_ok _ _ _

include hsafe in
/-- All the bytes of a primitive are accepted. -/
theorem error_serialize (hheader : ∀ header ∈ header? p, closeBracket ∉ header)
    (owner : Option String) : (c.deserialize (serialize p) owner).error = none := by
  cases hp : header? p with
  | none =>
    rw [serialize_eq_upTo, hp, headerBlock, List.append_nil]
    exact c.error_upTo hsafe _ owner
  | some header =>
    rw [deserialize_eq_scan, scan_serialize_of_header hsafe c.mode hp (hheader header hp)]
    exact error_conclude_ok _ _ _

/-- Where the bytes end without a header, a reading fails for nothing but this end; strictly it
    does, if something is left open. No dialect is bound. -/
theorem conclude_ending (q : Primitive κ) (a : Automaton) :
    let got := c.conclude q (ending c.mode a)
    (∀ e, got.error = some e → ∃ state, e = .unexpectedEnd state) ∧
    (c.mode = .strict → got.error = none → a.atBoundary = true) ∧
    got.primitive.dialect = q.dialect := by
  unfold ending
  split
  · refine ⟨?_, ?_, rfl⟩
    · intro e he
      exact ⟨_, (Option.some.inj he).symm⟩
    · intro _ hnone
      cases hnone
  · next hclosed =>
    refine ⟨?_, ?_, rfl⟩
    · intro e he
      cases he
    · intro hmode _
      simpa [hmode] using hclosed

/-- What a reading that stopped leaves: the stuffs it came through; and if it fails, or succeeds
    strictly, or binds a dialect, where the bytes ended. -/
theorem stops_received {u : Bytes} {k : Nat} (h : Stops c.mode p u k) (owner : Option String) :
    let got := c.deserialize u owner
    got.primitive.stuffs = .ofList (p.stuffs.toList.take k) ∧
    (∀ e, got.error = some e → ∃ state, e = .unexpectedEnd state) ∧
    (c.mode = .strict → got.error = none → u = upTo p.stuffs.toList k ∨ u = serialize p) ∧
    (got.primitive.dialect ≠ none → p.dialect ≠ none ∧ u = serialize p) := by
  rw [deserialize_eq_scan]
  rcases h.progress with ⟨a, hscan, hboundary⟩ | ⟨header, rest, hp, hu, hscan⟩
  · rw [hscan]
    obtain ⟨herror, hstrict, hdialect⟩ :=
      c.conclude_ending { stuffs := .ofList (p.stuffs.toList.take k), owner } a
    refine ⟨(c.conclude_keeps _ _).1, herror, ?_, fun hbound => absurd hdialect hbound⟩
    intro hmode hnone
    exact .inl (hboundary.1 (hstrict hmode hnone))
  · rw [hscan]
    have hdialect : p.dialect ≠ none := by
      intro hunbound
      rw [header?, hunbound] at hp
      cases hp
    refine ⟨(c.conclude_keeps _ _).1, ?_, fun _ _ => .inr hu, fun _ => ⟨hdialect, hu⟩⟩
    intro e he
    cases (error_conclude_ok c _ _).symm.trans he

/-- **A primitive that is cut off anywhere.** Its values are safe, and its header, if it has one,
    has no closing bracket. Of the bytes that it is sent as, any first part is read:

    - strictly without an error exactly if it ends behind the version, behind a stuff or at the
      very end; the error is an unexpected end;
    - leniently without an error in any case;
    - in either mode to the stuffs that stand whole in it, and to a dialect only if it is all
      of the bytes, with a dialect block. -/
theorem truncation_keeps_whole_stuffs
    (hsafe : ∀ stuff ∈ p.stuffs.toList, BackslashSafe (Text.bytes stuff.text))
    (hheader : ∀ header ∈ header? p, closeBracket ∉ header) {u : Bytes} (hu : u <+: serialize p)
    (owner : Option String) :
    let stuffs := p.stuffs.toList
    let read := fun mode => (c.inMode mode).deserialize u owner
    ((read .strict).error = none ↔ (∃ k, u = upTo stuffs k) ∨ u = serialize p) ∧
    (∀ e, (read .strict).error = some e → ∃ state, e = .unexpectedEnd state) ∧
    (read .lenient).error = none ∧
    ∃ k, (∀ i < stuffs.length, i < k ↔ upTo stuffs (i + 1) <+: u) ∧
      ∀ mode, (read mode).primitive.stuffs = .ofList (stuffs.take k) ∧
        ((read mode).primitive.dialect ≠ none → p.dialect ≠ none ∧ u = serialize p) := by
  intro stuffs read
  obtain ⟨k, hstops⟩ := exists_stops hsafe hheader hu
  have hreceived := fun mode => (c.inMode mode).stops_received (hstops mode) owner
  obtain ⟨-, herror, haccepted, -⟩ := hreceived .strict
  refine ⟨⟨?_, ?_⟩, herror, c.error_lenient u owner, k, (hstops .strict).whole, ?_⟩
  · intro hnone
    rcases haccepted rfl hnone with hend | hend
    · exact .inl ⟨k, hend⟩
    · exact .inr hend
  · rintro (⟨j, rfl⟩ | rfl)
    · exact (c.inMode .strict).error_upTo hsafe j owner
    · exact (c.inMode .strict).error_serialize hsafe hheader owner
  · intro mode
    obtain ⟨hstuffs, -, -, hdialect⟩ := hreceived mode
    exact ⟨hstuffs, hdialect⟩

/-- Two stuffs that have closing braces and brackets in their values, and a dialect. -/
def guarded : Primitive Empty :=
  { stuffs := .ofList [.subject (.ofString "\x7d\\\\:"), .objective (.ofString "]=\x7d")]
    dialect := some (.action (Action.withTracker "t")) }

/-- Cut off between a backslash and its byte, behind a bracket and a brace that close nothing. -/
def tornPair : Bytes := (serialize guarded).take 31

theorem truncation_keeps_whole_stuffs_tornPair :
    (∀ stuff ∈ guarded.stuffs.toList, BackslashSafe (Text.bytes stuff.text)) ∧
      (∀ header ∈ header? guarded, closeBracket ∉ header) ∧ tornPair <+: serialize guarded ∧
      let got := (ofActions.inMode .lenient).deserialize tornPair none
      got.error = none ∧
        got.primitive.stuffs = .ofList [.subject (.ofString "\x7d\\\\:")] ∧
        got.primitive.dialect = none := by
  have hsafe : ∀ stuff ∈ guarded.stuffs.toList, BackslashSafe (Text.bytes stuff.text) := by
    decide +kernel
  have hheader : ∀ header ∈ header? guarded, closeBracket ∉ header := by
    decide +kernel
  have hprefix : tornPair <+: serialize guarded := List.take_prefix _ _
  obtain ⟨-, -, hnone, k, hwhole, hread⟩ :=
    ofActions.truncation_keeps_whole_stuffs hsafe hheader hprefix none
  obtain ⟨hstuffs, hdialect⟩ := hread .lenient
  -- the first stuff is there, the second is not
  have hfirst : 0 < k := (hwhole 0 (by decide)).2 (by decide +kernel)
  have hsecond : ¬ 1 < k := fun h => absurd ((hwhole 1 (by decide)).1 h) (by decide +kernel)
  obtain rfl : k = 1 := by omega
  refine ⟨hsafe, hheader, hprefix, hnone, hstuffs, ?_⟩
  by_contra hbound
  exact absurd (hdialect hbound).2 (by decide +kernel)

/-- The cut is in a value, and a strict reading says so. -/
example :
    ((ofActions.inMode .strict).deserialize tornPair none).error =
      some (.unexpectedEnd "value") := by
  decide +kernel

end Codec

end Parley
