import Parley.Proofs.Wire.Modes

/-! # What a reader takes in

  A reader goes through pieces one by one, stuffs off the wire or entries of a document, and
  commits what they give. A piece that gives nothing is left out in lenient mode; in strict
  mode the reader stops there, for what is wrong with it. `Taken` says this of any pieces; of
  either kind it says what the reader has committed and whether it was stopped
  (`taken_follow`, `taken_commitEntries`).
-/

namespace Parley

/-- Pieces one by one, the stuffs that they have given, and what stopped the reader, if anything
    did. -/
inductive Taken {α : Type} (mode : Mode) (gives : α → Stuff → Prop)
    (fault : α → ProtocolError → Prop) : List α → List Stuff → Option ProtocolError → Prop where
  /-- All pieces have been read. -/
  | done : Taken mode gives fault [] [] none
  /-- A piece gives a stuff. -/
  | given {x : α} {rest : List α} {stuff : Stuff} {stuffs : List Stuff}
      {stop : Option ProtocolError} (h : gives x stuff)
      (more : Taken mode gives fault rest stuffs stop) :
      Taken mode gives fault (x :: rest) (stuff :: stuffs) stop
  /-- A piece gives nothing, and the reader goes on. -/
  | leftOut {x : α} {rest : List α} {stuffs : List Stuff} {stop : Option ProtocolError}
      (hmode : mode = .lenient) (h : ∀ stuff, ¬ gives x stuff)
      (more : Taken mode gives fault rest stuffs stop) :
      Taken mode gives fault (x :: rest) stuffs stop
  /-- Something is wrong with a piece, and the reader stops. -/
  | stopped {x : α} {rest : List α} {e : ProtocolError} (hmode : mode = .strict)
      (h : fault x e) : Taken mode gives fault (x :: rest) [] (some e)

/-- What was taken in was given by some piece. -/
theorem Taken.exists_of_mem {α : Type} {mode : Mode} {gives : α → Stuff → Prop}
    {fault : α → ProtocolError → Prop} {pieces : List α} {stuffs : List Stuff}
    {stop : Option ProtocolError} (h : Taken mode gives fault pieces stuffs stop) {stuff : Stuff}
    (hmem : stuff ∈ stuffs) : ∃ x ∈ pieces, gives x stuff := by
  induction h with
  | done => cases hmem
  | @given x rest stuff' stuffs stop hgives more ih =>
    rcases List.mem_cons.1 hmem with rfl | hmem
    · exact ⟨x, List.mem_cons_self, hgives⟩
    · obtain ⟨y, hy, hgives'⟩ := ih hmem
      exact ⟨y, List.mem_cons_of_mem x hy, hgives'⟩
  | @leftOut x rest stuffs stop hmode hnone more ih =>
    obtain ⟨y, hy, hgives⟩ := ih hmem
    exact ⟨y, List.mem_cons_of_mem x hy, hgives⟩
  | stopped hmode hfault => cases hmem

/-! ## Section 1: Stuffs off the wire -/

namespace Wire

namespace RawStuff

/-- What a stuff off the wire gives in a mode. Its tags must be known. Its text must be UTF-8 in
    strict mode, and is repaired in lenient mode. -/
structure Gives (mode : Mode) (raw : RawStuff) (stuff : Stuff) : Prop where
  kind : raw.tag.take 3 = Text.bytes stuff.kind.tag
  base : raw.base = Text.bytes stuff.base.tag
  text : match mode with
    | .strict => raw.value = Text.bytes stuff.text
    | .lenient => stuff.text = Text.repair raw.value

theorem gives_strict_iff {raw : RawStuff} {stuff : Stuff} :
    raw.Gives .strict stuff ↔ raw.Says stuff :=
  ⟨fun h => ⟨h.kind, h.base, h.text⟩, fun h => ⟨h.kind, h.base, h.text⟩⟩

/-- A stuff is accepted for what it gives; without that it is passed over or rejected, as the
    mode is. -/
theorem accept_cases (mode : Mode) (raw : RawStuff) :
    (∃ stuff, raw.Gives mode stuff ∧ raw.accept mode = .ok (some stuff)) ∨
    (mode = .lenient ∧ (∀ stuff, ¬ raw.Gives mode stuff) ∧ raw.accept mode = .ok none) ∨
    (mode = .strict ∧ ∃ e, raw.Fault e ∧ raw.accept mode = .error e) := by
  cases mode with
  | strict =>
    rcases raw.says_or_fault with ⟨stuff, hsays⟩ | ⟨e, hfault⟩
    · exact .inl ⟨stuff, gives_strict_iff.2 hsays, hsays.accept .strict⟩
    · exact .inr (.inr ⟨rfl, e, hfault, hfault.accept⟩)
  | lenient =>
    cases htags : raw.tags with
    | ok known =>
      -- whatever its bytes are, there is a text for them
      obtain ⟨kind, base⟩ := known
      have hsalvage : raw.salvage? = some { kind, base, text := Text.repair raw.value } := by
        unfold salvage?
        rw [htags]
      refine .inl ⟨{ kind, base, text := Text.repair raw.value }, ?_, congrArg _ hsalvage⟩
      unfold tags at htags
      split at htags
      · cases htags
      · next hkind =>
        split at htags
        · cases htags
        · next hbase =>
          cases htags
          exact ⟨Kind.ofTag?_eq_some_iff.1 hkind, Base.ofTag?_eq_some_iff.1 hbase, rfl⟩
    | error e =>
      have hsalvage : raw.salvage? = none := by
        unfold salvage?
        rw [htags]
      refine .inr (.inl ⟨rfl, fun stuff hgives => ?_, congrArg _ hsalvage⟩)
      rw [tags_of_known hgives.kind hgives.base] at htags
      cases htags

end RawStuff

/-- Stuffs off the wire, each with the offset of the byte that closed it, as a reader takes them
    in. -/
abbrev TakenOff (mode : Mode) : List (Nat × RawStuff) → List Stuff → Option ProtocolError → Prop :=
  Taken mode (fun raw => raw.2.Gives mode) fun raw => raw.2.Fault

/-- **A reader of the wire** commits what the stuffs give, up to the first that stops it. -/
theorem taken_follow (mode : Mode) (s : Stuffs) (raws : List (Nat × RawStuff)) :
    ∃ said stop, TakenOff mode raws said stop ∧ follow mode s raws = (s.commitAll said, stop) := by
  induction raws generalizing s with
  | nil => exact ⟨[], none, .done, rfl⟩
  | cons raw raws ih =>
    obtain ⟨n, raw⟩ := raw
    rw [follow]
    rcases raw.accept_cases mode with ⟨stuff, hgives, haccept⟩ | ⟨hmode, hnone, haccept⟩ |
      ⟨hmode, e, hfault, haccept⟩
    · obtain ⟨said, stop, htaken, hfollow⟩ := ih (s.commit stuff)
      refine ⟨stuff :: said, stop, .given hgives htaken, ?_⟩
      rw [haccept]
      exact hfollow
    · obtain ⟨said, stop, htaken, hfollow⟩ := ih s
      refine ⟨said, stop, .leftOut hmode hnone htaken, ?_⟩
      rw [haccept]
      exact hfollow
    · refine ⟨[], some e, .stopped hmode hfault, ?_⟩
      rw [haccept]
      rfl

end Wire

/-! ## Section 2: Entries of a document -/

namespace Document

/-- The entry of a document is one of a stuff: its tags are known, its base has values in
    documents, and its value is of this base, written in the canonical way. -/
structure Entry.Says (entry : Entry) (stuff : Stuff) : Prop where
  kind : (Text.bytes entry.kind).take 3 = Text.bytes stuff.kind.tag
  base : entry.base = stuff.base.tag
  text : canonical? stuff.base entry.value = some stuff.text

/-- What is wrong with an entry: its kind, its base or its value, looked for in this order. -/
inductive Entry.Fault (entry : Entry) : ProtocolError → Prop where
  | kind (hkind : ∀ kind : Kind, (Text.bytes entry.kind).take 3 ≠ Text.bytes kind.tag) :
      Fault entry (.unknownKind entry.kind)
  | base {kind : Kind} (hkind : (Text.bytes entry.kind).take 3 = Text.bytes kind.tag)
      (hbase : ∀ base : Base, entry.base ≠ base.tag) : Fault entry (.unknownBase entry.base)
  | xml {kind : Kind} (hkind : (Text.bytes entry.kind).take 3 = Text.bytes kind.tag)
      (hbase : entry.base = Base.xml.tag) :
      Fault entry (.unsupported "XML stuffs in JSON documents")
  | value {kind : Kind} {base : Base}
      (hkind : (Text.bytes entry.kind).take 3 = Text.bytes kind.tag)
      (hbase : entry.base = base.tag) (hxml : base ≠ .xml)
      (hvalue : canonical? base entry.value = none) :
      Fault entry (.invalidValue base entry.value.compact)

/-- An entry is judged to be the stuff that it says, or to have a fault. -/
theorem Entry.judge_cases (entry : Entry) :
    (∃ stuff, entry.Says stuff ∧ entry.judge = .ok stuff) ∨
    ∃ e, entry.Fault e ∧ (∀ stuff, ¬ entry.Says stuff) ∧ entry.judge = .error e := by
  have hread : ∀ base : Base, Base.ofTag? (Text.bytes entry.base) = some base ↔
      entry.base = base.tag :=
    fun base => Base.ofTag?_eq_some_iff.trans Text.bytes_inj
  unfold Entry.judge
  cases hkind? : Kind.ofTag? (Text.bytes entry.kind) with
  | none =>
    have hkind : ∀ kind : Kind, (Text.bytes entry.kind).take 3 ≠ Text.bytes kind.tag := by
      intro kind htag
      rw [Kind.ofTag?_eq_some_iff.2 htag] at hkind?
      cases hkind?
    exact .inr ⟨_, .kind hkind, fun stuff hsays => hkind stuff.kind hsays.kind, rfl⟩
  | some kind =>
    have hkind := Kind.ofTag?_eq_some_iff.1 hkind?
    cases hbase? : Base.ofTag? (Text.bytes entry.base) with
    | none =>
      have hbase : ∀ base : Base, entry.base ≠ base.tag := by
        intro base htag
        rw [(hread base).2 htag] at hbase?
        cases hbase?
      exact .inr ⟨_, .base hkind hbase, fun stuff hsays => hbase stuff.base hsays.base, rfl⟩
    | some base =>
      have hbase := (hread base).1 hbase?
      -- a stuff that the entry says has this base
      have hsame : ∀ stuff, entry.Says stuff → stuff.base = base := by
        intro stuff hsays
        rw [(hread stuff.base).2 hsays.base] at hbase?
        exact Option.some.inj hbase?
      by_cases hxml : base = .xml
      · subst hxml
        refine .inr ⟨_, .xml hkind hbase, fun stuff hsays => ?_, rfl⟩
        have htext := hsays.text
        rw [hsame stuff hsays] at htext
        cases htext
      · cases hvalue : canonical? base entry.value with
        | none =>
          refine .inr ⟨_, .value hkind hbase hxml hvalue, fun stuff hsays => ?_, ?_⟩
          · have htext := hsays.text
            rw [hsame stuff hsays, hvalue] at htext
            cases htext
          · cases base <;> first | exact absurd rfl hxml | (dsimp only; rw [hvalue])
        | some text =>
          refine .inl ⟨{ kind, base, text }, ⟨hkind, hbase, hvalue⟩, ?_⟩
          cases base <;> first | exact absurd rfl hxml | (dsimp only; rw [hvalue])

/-- Entries as a reader takes them in. -/
abbrev TakenOut (mode : Mode) : List Entry → List Stuff → Option ProtocolError → Prop :=
  Taken mode Entry.Says Entry.Fault

/-- **A reader of a document** commits what the entries say, up to the first that stops it. -/
theorem taken_commitEntries (mode : Mode) (s : Stuffs) (entries : List Entry) :
    ∃ said stop, TakenOut mode entries said stop ∧
      commitEntries mode s entries = (s.commitAll said, stop) := by
  induction entries generalizing s with
  | nil => exact ⟨[], none, .done, rfl⟩
  | cons entry entries ih =>
    rw [commitEntries]
    rcases entry.judge_cases with ⟨stuff, hsays, hjudge⟩ | ⟨e, hfault, hnone, hjudge⟩
    · obtain ⟨said, stop, htaken, hcommit⟩ := ih (s.commit stuff)
      refine ⟨stuff :: said, stop, .given hsays htaken, ?_⟩
      rw [hjudge]
      exact hcommit
    · rw [hjudge]
      cases mode with
      | strict => exact ⟨[], some e, .stopped rfl hfault, rfl⟩
      | lenient =>
        obtain ⟨said, stop, htaken, hcommit⟩ := ih s
        exact ⟨said, stop, .leftOut rfl hnone htaken, hcommit⟩

end Document

end Parley
