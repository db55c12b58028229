import Parley.Proofs.Wire.Bound
import Parley.Proofs.Wire.Refills

/-! # Primitives one after the other

  Primitives that have a dialect can follow one another on one stream: the dialect block tells
  where a primitive ends, and whatever stands in front of the next version is skipped
  as long as no bracket opens in it.

  A source may hand out the stream in any pieces and be interrupted at any time. A
  **steady** source never fails and hands out no empty piece, and then a read from it
  is a scan of all the bytes that it still has (`readOn_of_finished`). So every read
  gets its own primitive and leaves the stream right behind it (`readEach_frames`).
-/

namespace Parley

open Ascii

namespace Wire

/-! ## Section 1: What stands in front -/

/-- Bytes without an opening bracket are skipped before the version. -/
theorem scan_junk (mode : Mode) (s : Stuffs) {junk : Bytes} (h : openBracket ∉ junk)
    (rest : Bytes) : scan mode .start s (junk ++ rest) = scan mode .start s rest := by
  induction junk with
  | nil => rfl
  | cons b junk ih =>
    have hb : b ≠ openBracket := fun e => h (e ▸ List.mem_cons_self)
    have hstay : Automaton.start.feed b = (.start, none) := by
      simp [Automaton.start, Automaton.feed, hb]
    rw [List.cons_append, scan, hstay]
    exact ih fun hmem => h (List.mem_cons_of_mem b hmem)

end Wire

/-! ## Section 2: Primitives on a stream -/

variable {κ : Type}

/-- A primitive that can be told from what follows it on a stream, and the bytes that stand
    in front of it. -/
structure Framed (κ : Type) where
  junk : Bytes := []
  primitive : Primitive κ
  dialect : Dialect κ
  junk_free : openBracket ∉ junk
  bound : primitive.dialect = some dialect
  safe : ∀ stuff ∈ primitive.stuffs.toList, Wire.BackslashSafe (Text.bytes stuff.text)
  name : closeBracket ∉ Text.bytes dialect.name
  tracker : closeBracket ∉ Text.bytes dialect.tracker

namespace Framed

/-- What stands on the stream. -/
def wire (frame : Framed κ) : Bytes := frame.junk ++ Wire.serialize frame.primitive

/-- The header of the dialect block. -/
def header (frame : Framed κ) : Bytes :=
  Text.bytes frame.dialect.name ++ atSign :: Text.bytes frame.dialect.tracker

theorem scan_wire (frame : Framed κ) (mode : Mode) (rest : Bytes) :
    Wire.scan mode .start {} (frame.wire ++ rest) =
      .finished frame.header frame.primitive.stuffs rest := by
  rw [wire, List.append_assoc, Wire.scan_junk mode {} frame.junk_free,
    Wire.scan_serialize mode frame.bound frame.safe frame.name frame.tracker]
  rfl

end Framed

/-! ## Section 3: One read after the other -/

variable [Content κ]

namespace Codec

/-- Some reads from one source, each into a fresh primitive: what every read came to, and the
    source after it. -/
def readEach (c : Codec κ) (owner : Option String) :
    Nat → Wire.Source → List (Received κ × Wire.Source)
  | 0, _ => []
  | n + 1, source =>
    let reading := c.read { owner } source
    reading :: reading.1.codec.readEach owner n reading.2

/-- A read that got its own primitive, of which nothing is left on the stream, and nothing of
    what stands behind it. -/
structure Delivers (c : Codec κ) (frame : Framed κ) (behind : Bytes)
    (reading : Received κ × Wire.Source) : Prop where
  succeeds : reading.1.error = none
  stuffs : reading.1.primitive.stuffs = frame.primitive.stuffs
  unread : reading.2.unread = behind
  tracker : (c.factory? frame.dialect.name).isSome = true → '@' ∉ frame.dialect.name.toList →
    ∃ d, reading.1.primitive.dialect = some d ∧ d.tracker = frame.dialect.tracker

/-- **One read** gets the primitive that stands first, and the next read can follow. -/
theorem read_frame (c : Codec κ) (owner : Option String) (frame : Framed κ) {source : Wire.Source}
    {behind : Bytes} (hsteady : source.Steady) (hunread : source.unread = frame.wire ++ behind) :
    c.Delivers frame behind (c.read { owner } source) ∧
      (c.read { owner } source).2.Steady ∧
      ∀ name, (c.read { owner } source).1.codec.factory? name = c.factory? name := by
  have hscan := frame.scan_wire c.mode behind
  rw [← hunread] at hscan
  obtain ⟨source', hread, hsteady', hunread'⟩ := Wire.readOn_of_finished hsteady hscan
  -- what is left is to bind the dialect
  have hbind : c.read { owner } source =
      (c.bind { stuffs := frame.primitive.stuffs, owner } (Wire.headerParts frame.header).1
        (Wire.headerParts frame.header).2, source') := by
    unfold read Wire.read
    rw [hread]
    rfl
  rw [hbind]
  obtain ⟨herror, hstuffs, -⟩ := c.bind_keeps { stuffs := frame.primitive.stuffs, owner }
    (Wire.headerParts frame.header).1 (Wire.headerParts frame.header).2
  refine ⟨⟨herror, hstuffs, hunread', ?_⟩, hsteady', fun name => c.factory?_bind _ _ _ name⟩
  intro hregistered hat
  obtain ⟨f, hf⟩ := Option.isSome_iff_exists.1 hregistered
  have hparts : Wire.headerParts frame.header = (frame.dialect.name, frame.dialect.tracker) :=
    Wire.headerParts_eq hat frame.dialect.tracker
  rw [hparts]
  refine ⟨_, congrArg Primitive.dialect (bind_of_some hf _ _), ?_⟩
  show (f.fill _ _).info.tracker = _
  rw [f.info_fill]

/-- **Primitives follow one another.** From a stream of primitives that have a dialect, with
    or without other bytes in between, and however it is cut, as many reads get these
    primitives in their order. Each read takes what stands in front of its primitive,
    the primitive up to the end of its dialect block, and not a byte more. -/
theorem readEach_frames (c : Codec κ) (owner : Option String) (frames : List (Framed κ))
    {source : Wire.Source} (hsteady : source.Steady)
    (hunread : source.unread = frames.flatMap Framed.wire) (i : Nat) (hi : i < frames.length) :
    ∃ reading, (c.readEach owner frames.length source)[i]? = some reading ∧
      c.Delivers frames[i] ((frames.drop (i + 1)).flatMap Framed.wire) reading := by
  -- with any codec, since every read hands on one that may remember more
  induction frames generalizing c source i with
  | nil => cases hi
  | cons frame frames ih =>
    obtain ⟨hdelivers, hsteady', hfactories⟩ := c.read_frame owner frame hsteady hunread
    cases i with
    | zero => exact ⟨_, rfl, hdelivers⟩
    | succ i =>
      obtain ⟨reading, hreading, hnext⟩ := ih (c.read { owner } source).1.codec hsteady'
        hdelivers.unread i (Nat.lt_of_succ_lt_succ hi)
      refine ⟨reading, hreading, hnext.succeeds, hnext.stuffs, hnext.unread, ?_⟩
      -- the codec knows the same dialects as it did at first
      intro hregistered
      apply hnext.tracker
      rw [hfactories]
      exact hregistered

/-- An action whose name holds a structural byte, behind a line end. -/
def openTick : Framed Empty where
  junk := Text.ascii "\n"
  primitive :=
    { stuffs := .ofList [.predicate (.ofString "tick:\x7b")]
      dialect := some (.action (Action.withTracker "t@1")) }
  dialect := .action (Action.withTracker "t@1")
  junk_free := by decide
  bound := rfl
  safe := by decide +kernel
  name := by decide
  tracker := by decide

/-- An action whose name ends in a pair of backslashes, behind a closing bracket. -/
def lateTick : Framed Empty where
  junk := Text.ascii "]"
  primitive :=
    { stuffs := .ofList [.predicate (.ofString "tock\\\\")]
      dialect := some (.action (Action.withTracker "t-2")) }
  dialect := .action (Action.withTracker "t-2")
  junk_free := by decide
  bound := rfl
  safe := by decide +kernel
  name := by decide
  tracker := by decide

/-- Both actions, cut behind a backslash and inside the header of the first one. -/
def ticking : Wire.Source :=
  let wire := openTick.wire ++ lateTick.wire
  [.interrupted, .bytes (wire.take 16), .bytes ((wire.drop 16).take 25), .interrupted,
    .bytes (wire.drop 41)]

theorem readEach_frames_ticking :
    ticking.Steady ∧ ticking.unread = [openTick, lateTick].flatMap Framed.wire ∧
      1 < [openTick, lateTick].length ∧
      ∃ reading, (ofActions.readEach none 2 ticking)[1]? = some reading ∧
        ofActions.Delivers lateTick [] reading ∧
        (reading.1.primitive.dialect.map Dialect.tracker) = some "t-2" := by
  have hsteady : ticking.Steady := by
    simp only [ticking, Wire.Source.Steady, List.forall_mem_cons, List.not_mem_nil,
      false_implies, implies_true, and_true, true_or, true_and]
    exact ⟨.inr ⟨_, by decide +kernel, rfl⟩, .inr ⟨_, by decide +kernel, rfl⟩,
      .inr ⟨_, by decide +kernel, rfl⟩⟩
  have hunread : ticking.unread = [openTick, lateTick].flatMap Framed.wire := by decide +kernel
  obtain ⟨reading, hreading, hdelivers⟩ :=
    readEach_frames ofActions none [openTick, lateTick] hsteady hunread 1 (by decide)
  obtain ⟨d, hd, htracker⟩ := hdelivers.tracker (by decide +kernel) (by decide)
  refine ⟨hsteady, hunread, by decide, reading, hreading, hdelivers, ?_⟩
  rw [hd]
  exact congrArg some htracker

end Codec

end Parley
