import Parley.Proofs.Codec.Taken
import Parley.Proofs.Wire.Refills

/-! # Failing reads bind nothing

  Both readers commit stuffs as they come to them, and bind a dialect last of all. So a
  read that fails has told no factory of anything and has left owner, dialect, registry and
  fragment cache alone. It has only put stuffs behind those that were there
  (`Received.Settles`): the ones that the reader took in before the failure. Which these are,
  and whether there is a failure at all, is told apart from the readers: `Wire.Ends` by the
  grammar of the bytes that the source handed out, `Document.Ends` by the entries of the document.
-/

namespace Parley

namespace Wire

/-! ## Section 1: Any source -/

/-- The bytes that a source hands out before it fails or comes to its end. -/
def Source.handed : Source → Bytes
  | .interrupted :: source => Source.handed source
  | .bytes (b :: bs) :: source => b :: bs ++ Source.handed source
  | _ => []

/-- Whether a source fails before it comes to its end. -/
def Source.breaks : Source → Bool
  | .interrupted :: source => Source.breaks source
  | .bytes (_ :: _) :: source => Source.breaks source
  | .broken :: _ => true
  | _ => false

/-- What a read comes to whose bytes have led there, and then end or break off. -/
def Progress.outcomeOf (mode : Mode) (breaks : Bool) :
    Progress → Except ProtocolError (Option Bytes)
  | .running a s => if breaks then .error .stream else Progress.outcome mode (.running a s)
  | progress => progress.outcome mode

/-- **A read from any source** goes as a scan of what is handed out. -/
theorem readOn_handed (mode : Mode) (a : Automaton) (s : Stuffs) (source : Source) :
    (readOn mode a s source).outcome =
        (scan mode a s source.handed).outcomeOf mode source.breaks ∧
      (readOn mode a s source).stuffs = (scan mode a s source.handed).stuffs := by
  -- on the refills, each of which goes on where the one before it has led
  induction source generalizing a s with
  | nil => exact ⟨rfl, rfl⟩
  | cons refill source ih =>
    match refill with
    | .interrupted => exact ih a s
    | .broken => exact ⟨rfl, rfl⟩
    | .bytes [] => exact ⟨rfl, rfl⟩
    | .bytes (b :: bs) =>
      rw [Source.handed, Source.breaks, scan_append, readOn]
      cases scan mode a s (b :: bs) with
      | running a' s' => exact ih a' s'
      | finished header s' rest => exact ⟨rfl, rfl⟩
      | failed e s' => exact ⟨rfl, rfl⟩

/-- How a read of the wire form ends, by the grammar: what the stuffs before the end give, and the
    error, if there is one. Nothing behind a dialect block counts. -/
inductive Ends (mode : Mode) (source : Source) (o : Outline) :
    List Stuff → Option ProtocolError → Prop where
  /-- Something is wrong with a stuff. -/
  | fault {said : List Stuff} {e : ProtocolError}
      (h : TakenOff mode (stuffsBeforeDialect o.events) said (some e)) :
      Ends mode source o said (some e)
  /-- A dialect block is closed. -/
  | dialect {said : List Stuff} {header : Bytes}
      (h : TakenOff mode (stuffsBeforeDialect o.events) said none)
      (hheader : firstHeader? o.events = some header) : Ends mode source o said none
  /-- The source fails before that. -/
  | broken {said : List Stuff} (h : TakenOff mode (stuffsBeforeDialect o.events) said none)
      (hheader : firstHeader? o.events = none) (hbreaks : source.breaks = true) :
      Ends mode source o said (some .stream)
  /-- The source ends inside a piece, which strict mode does not allow. -/
  | cut {said : List Stuff} (h : TakenOff mode (stuffsBeforeDialect o.events) said none)
      (hheader : firstHeader? o.events = none) (hbreaks : source.breaks = false)
      (hmode : mode = .strict) (hopen : o.piece.closed = false) :
      Ends mode source o said (some (.unexpectedEnd o.piece.name))
  /-- The source ends where it may. -/
  | whole {said : List Stuff} (h : TakenOff mode (stuffsBeforeDialect o.events) said none)
      (hheader : firstHeader? o.events = none) (hbreaks : source.breaks = false)
      (hmay : mode = .lenient ∨ o.piece.closed = true) : Ends mode source o said none

/-- The error of an outcome, if it is one. -/
def stopOf : Except ProtocolError (Option Bytes) → Option ProtocolError
  | .ok _ => none
  | .error e => some e

/-- Where a reader does not complain, it is lenient or nothing is left open. -/
theorem may_end {mode : Mode} {result : Automaton × List (Nat × Event)} {o : Outline}
    (ho : Agrees result o) (h : ¬ (mode = .strict ∧ result.1.atBoundary = false)) :
    mode = .lenient ∨ o.piece.closed = true := by
  cases mode with
  | lenient => exact .inl rfl
  | strict =>
    rw [← ho.boundary]
    exact .inr (Bool.of_not_eq_false fun hopen => h ⟨rfl, hopen⟩)

/-- **A read of the wire form** puts behind the stuffs that were there what those before its end
    give, and ends as the grammar says. -/
theorem read_ends (mode : Mode) (s : Stuffs) {source : Source} {o : Outline}
    (ho : Agrees (Automaton.start.run 0 source.handed) o) :
    ∃ said, (read mode s source).stuffs = s.commitAll said ∧
      Ends mode source o said (stopOf (read mode s source).outcome) := by
  obtain ⟨houtcome, hstuffs⟩ := readOn_handed mode .start s source
  obtain ⟨said, stop, htaken, hfollow⟩ := taken_follow mode s (stuffsBeforeDialect o.events)
  have hleads := scan_leads mode .start s 0 source.handed
  unfold read
  rw [houtcome, hstuffs]
  refine ⟨said, ?_⟩
  -- wherever the scan has led, it has committed what the stuffs of the grammar give
  cases hscan : scan mode .start s source.handed with
  | running a s' =>
    rw [hscan] at hleads
    obtain ⟨hrun, hheader, rfl⟩ := hleads
    rw [ho.events] at hrun hheader
    obtain ⟨rfl, rfl⟩ := Prod.mk.inj (hrun.symm.trans hfollow)
    refine ⟨rfl, ?_⟩
    cases hbreaks : source.breaks with
    | true => exact .broken htaken hheader hbreaks
    | false =>
      show Ends mode source o said (stopOf (ending mode _))
      unfold ending
      split
      · next hcut =>
        rw [ho.state]
        exact .cut htaken hheader hbreaks hcut.1 (ho.boundary.symm.trans hcut.2)
      · next hmay => exact .whole htaken hheader hbreaks (may_end ho hmay)
  | finished header s' rest =>
    rw [hscan] at hleads
    rw [Leads, ho.events] at hleads
    obtain ⟨rfl, rfl⟩ := Prod.mk.inj (hleads.1.symm.trans hfollow)
    exact ⟨rfl, .dialect htaken hleads.2⟩
  | failed e s' =>
    rw [hscan] at hleads
    rw [Leads, ho.events] at hleads
    obtain ⟨rfl, rfl⟩ := Prod.mk.inj (hleads.symm.trans hfollow)
    exact ⟨rfl, .fault htaken⟩

end Wire

/-- How a reading of a document ends. -/
inductive Document.Ends (mode : Mode) (v : Json) : List Stuff → Option ProtocolError → Prop where
  /-- This is no document of a primitive. -/
  | structure (h : Document.parts? v = none) : Ends mode v [] (some .document)
  /-- The entries are taken in, up to the first that stops the reader. -/
  | entries {parts : Document.Parts} {said : List Stuff} {stop : Option ProtocolError}
      (hparts : Document.parts? v = some parts)
      (h : Document.TakenOut mode parts.entries said stop) : Ends mode v said stop

/-! ## Section 2: What a reading may touch -/

variable {κ : Type}

/-- What a reading by a codec into a primitive may touch, if it can end in these ways. With an error
    it has called no hook and left the codec, with its fragment cache, and the primitive alone,
    but for stuffs behind those that were there. Without one it has put the stuffs there too,
    and has bound nothing, or called the hook for what it has bound and nothing else. -/
structure Received.Settles (r : Received κ) (c : Codec κ) (p : Primitive κ)
    (ends : List Stuff → Option ProtocolError → Prop) : Prop where
  failed : ∀ e, r.error = some e → ∃ said, ends said (some e) ∧
    r = { error := some e, primitive := { p with stuffs := p.stuffs.commitAll said }, codec := c }
  succeeded : r.error = none →
    (∃ said, ends said none ∧ r.primitive.stuffs = p.stuffs.commitAll said) ∧
    r.primitive.owner = p.owner ∧
    ((r.calls = [] ∧ r.primitive.dialect = p.dialect ∧ r.codec = c) ∨
      ∃ (f : Factory κ) (d : Dialect κ),
        r.calls = [f.call (.built d)] ∧ r.primitive.dialect = some d)

namespace Codec

variable {c : Codec κ} {p : Primitive κ} {ends : List Stuff → Option ProtocolError → Prop}
  {said : List Stuff}

theorem settles_error {e : ProtocolError} (h : ends said (some e)) :
    Received.Settles
      { error := some e, primitive := { p with stuffs := p.stuffs.commitAll said }, codec := c }
      c p ends := by
  constructor
  · intro e' he'
    cases he'
    exact ⟨said, h, rfl⟩
  · intro hnone
    cases hnone

theorem settles_unbound (h : ends said none) :
    Received.Settles
      { error := none, primitive := { p with stuffs := p.stuffs.commitAll said }, codec := c }
      c p ends := by
  constructor
  · intro e he
    cases he
  · intro _
    exact ⟨⟨said, h, rfl⟩, rfl, .inl ⟨rfl, rfl, rfl⟩⟩

variable [Content κ]

/-- Binding comes last and never fails. -/
theorem settles_bind (h : ends said none) (name tracker : String) :
    (c.bind { p with stuffs := p.stuffs.commitAll said } name tracker).Settles c p ends := by
  obtain ⟨herror, hstuffs, howner⟩ :=
    c.bind_keeps { p with stuffs := p.stuffs.commitAll said } name tracker
  constructor
  · intro e he
    cases he.symm.trans herror
  · intro _
    refine ⟨⟨said, h, hstuffs⟩, howner, ?_⟩
    cases hname : c.factory? name with
    | none =>
      rw [bind_eq_of_none hname]
      exact .inl ⟨rfl, rfl, rfl⟩
    | some f =>
      obtain ⟨r, hr, hf⟩ := Option.bind_eq_some_iff.1 hname
      rw [bind_eq_of_some hr hf]
      exact .inr ⟨f, _, rfl, rfl⟩

theorem settles_read {source : Wire.Source} {o : Wire.Outline}
    (ho : Wire.Agrees (Wire.Automaton.start.run 0 source.handed) o) :
    (c.read p source).1.Settles c p (Wire.Ends c.mode source o) := by
  obtain ⟨said, hstuffs, hends⟩ := Wire.read_ends c.mode p.stuffs ho
  unfold read
  dsimp only
  rw [hstuffs]
  cases houtcome : (Wire.read c.mode p.stuffs source).outcome with
  | error e =>
    rw [houtcome] at hends
    exact settles_error hends
  | ok header? =>
    rw [houtcome] at hends
    cases header? with
    | none => exact settles_unbound hends
    | some header => exact settles_bind hends _ _

theorem settles_readDocument (c : Codec κ) (p : Primitive κ) (v : Json) :
    (c.readDocument p v).Settles c p (Document.Ends c.mode v) := by
  unfold readDocument
  cases hparts : Document.parts? v with
  | none => exact settles_error (Document.Ends.structure hparts)
  | some parts =>
    obtain ⟨said, stop, htaken, hcommit⟩ :=
      Document.taken_commitEntries c.mode p.stuffs parts.entries
    have hends : Document.Ends c.mode v said stop := .entries hparts htaken
    dsimp only
    rw [hcommit]
    cases stop with
    | some e => exact settles_error hends
    | none =>
      dsimp only
      cases parts.dialect with
      | none => exact settles_unbound hends
      | some header => exact settles_bind hends _ _

/-- **A failing read binds nothing.** It may start from any primitive and read any source or
    document. It ends as the bytes or entries say: if it fails, no hook was called, and codec,
    registry, fragment cache, owner and dialect are as before. Only the stuffs that were taken
    in before the failure have been put behind the first ones, and none if the document is no
    document of a primitive. If it succeeds, at most one hook was called, for the dialect that
    is bound now. -/
theorem failure_binds_nothing (c : Codec κ) (p : Primitive κ) :
    (∀ source : Wire.Source, ∃ o, (∀ o', Wire.Reads source.handed o' ↔ o' = o) ∧
      (c.read p source).1.Settles c p (Wire.Ends c.mode source o)) ∧
    ∀ v : Json, (c.readDocument p v).Settles c p (Document.Ends c.mode v) := by
  refine ⟨fun source => ?_, c.settles_readDocument p⟩
  obtain ⟨o, hreads⟩ := Wire.exists_reads source.handed
  refine ⟨o, fun o' => ⟨fun ho' => ho'.agrees.unique hreads.agrees, fun h => h ▸ hreads⟩, ?_⟩
  exact settles_read hreads.agrees

/-- The source fails behind a stuff of unknown kind and a stuff that can be read: in lenient mode
    only the second is put behind what was there, and the chunk that was bound stays. -/
example :
    let p : Primitive Empty :=
      { stuffs := .ofList [.complement (.ofString "f")], owner := some "p"
        dialect := some (.chunk { info := {}, sign := "f" }) }
    let source : Wire.Source :=
      [.bytes (Text.ascii "[1.0]\x7bxyz=b:int\x7d\x7bsub=a:in"), .interrupted,
        .bytes (Text.ascii "t\x7d[Chunk"), .broken, .bytes (Text.ascii "Dialect@t]")]
    let r := (ofChunks.read p source).1
    r.error = some .stream ∧ r.calls.length = 0 ∧ r.primitive.owner = some "p" ∧
      r.primitive.dialect = p.dialect ∧
      r.primitive.stuffs = p.stuffs.commitAll [.subject { text := "a", base := .int }] := by
  decide +kernel

end Codec

end Parley
