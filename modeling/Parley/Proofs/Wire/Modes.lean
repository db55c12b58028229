import Mathlib.Data.List.Forall2
import Parley.Proofs.Wire.Binding
import Parley.Proofs.Wire.Grammar
import Parley.Proofs.Wire.RoundTrip

/-! # Strict and lenient reading

  A strict reading stops at the first stuff that cannot be read and at an end inside a
  structure; a lenient one goes on. This module says of **any bytes** what both come to, from
  what stands in them by the grammar: the stuffs that are closed before the first
  dialect block, the header of this block, and the piece that the bytes leave open.

  * A stuff **says** something if its tags and its text are those of a stuff, and otherwise
    it has a **fault**, which is looked for in the kind, in the base and in the text, in
    this order.
  * A reading goes along the events of the automaton (`scan_leads`) and both modes take a
    stuff that says something for what it says. So they can differ only from the first fault
    on (`modes_agree`).
-/

namespace Parley

/-! ## Section 1: What a stuff says -/

theorem Kind.ofTag?_eq_some_iff {tag : Bytes} {kind : Kind} :
    Kind.ofTag? tag = some kind ↔ tag.take 3 = Text.bytes kind.tag := by
  constructor
  · intro h
    unfold Kind.ofTag? at h
    have hfound : (tag.take 3 == Text.bytes kind.tag) = true :=
      List.find?_some (p := fun kind : Kind => tag.take 3 == Text.bytes kind.tag) h
    exact eq_of_beq hfound
  · intro h
    unfold Kind.ofTag?
    rw [h]
    cases kind <;> rfl

theorem Base.ofTag?_eq_some_iff {tag : Bytes} {base : Base} :
    Base.ofTag? tag = some base ↔ tag = Text.bytes base.tag := by
  constructor
  · intro h
    unfold Base.ofTag? at h
    have hfound : (tag == Text.bytes base.tag) = true :=
      List.find?_some (p := fun base : Base => tag == Text.bytes base.tag) h
    exact eq_of_beq hfound
  · intro h
    rw [h, Base.ofTag?_tag]

theorem Text.ofBytes?_eq_some_iff {bs : Bytes} {text : String} :
    Text.ofBytes? bs = some text ↔ bs = Text.bytes text := by
  constructor
  · intro h
    exact (Text.bytes_of_ofBytes? h).symm
  · intro h
    rw [h, Text.ofBytes?_bytes]

namespace Wire

/-- The bytes off the wire are those of a stuff. Of the tag of a kind only three count. -/
structure RawStuff.Says (raw : RawStuff) (stuff : Stuff) : Prop where
  kind : raw.tag.take 3 = Text.bytes stuff.kind.tag
  base : raw.base = Text.bytes stuff.base.tag
  text : raw.value = Text.bytes stuff.text

/-- What is wrong with a stuff off the wire. A fault of the kind hides the others, and a
    fault of the base hides one of the text. -/
inductive RawStuff.Fault (raw : RawStuff) : ProtocolError → Prop where
  | kind (hkind : ∀ kind : Kind, raw.tag.take 3 ≠ Text.bytes kind.tag) :
      Fault raw (.unknownKind (Text.repair raw.tag))
  | base {kind : Kind} (hkind : raw.tag.take 3 = Text.bytes kind.tag)
      (hbase : ∀ base : Base, raw.base ≠ Text.bytes base.tag) :
      Fault raw (.unknownBase (Text.repair raw.base))
  | text {kind : Kind} {base : Base} (hkind : raw.tag.take 3 = Text.bytes kind.tag)
      (hbase : raw.base = Text.bytes base.tag)
      (htext : ∀ text : String, raw.value ≠ Text.bytes text) :
      Fault raw (.invalidValue base (Text.repair raw.value))

namespace RawStuff

variable {raw : RawStuff} {stuff : Stuff} {e : ProtocolError}

theorem tags_of_known {kind : Kind} {base : Base} (hkind : raw.tag.take 3 = Text.bytes kind.tag)
    (hbase : raw.base = Text.bytes base.tag) : raw.tags = .ok (kind, base) := by
  unfold tags
  rw [Kind.ofTag?_eq_some_iff.2 hkind, Base.ofTag?_eq_some_iff.2 hbase]

/-- A stuff that says something is accepted as that, in either mode. -/
theorem Says.accept (h : raw.Says stuff) (mode : Mode) : raw.accept mode = .ok (some stuff) := by
  have htags := tags_of_known h.kind h.base
  have htext := Text.ofBytes?_eq_some_iff.2 h.text
  cases mode with
  | strict =>
    unfold RawStuff.accept judge
    rw [htags]
    simp only [htext]
    rfl
  | lenient =>
    unfold RawStuff.accept salvage? Text.repair
    rw [htags]
    simp only [htext]

/-- A stuff with a fault is rejected for it, in strict mode. -/
theorem Fault.accept (h : raw.Fault e) : raw.accept .strict = .error e := by
  unfold RawStuff.accept judge
  cases h with
  | kind hkind =>
    have hnone : Kind.ofTag? raw.tag = none := by
      rw [Option.eq_none_iff_forall_ne_some]
      intro kind hsome
      exact hkind kind (Kind.ofTag?_eq_some_iff.1 hsome)
    unfold tags
    rw [hnone]
    rfl
  | base hkind hbase =>
    have hnone : Base.ofTag? raw.base = none := by
      rw [Option.eq_none_iff_forall_ne_some]
      intro base hsome
      exact hbase base (Base.ofTag?_eq_some_iff.1 hsome)
    unfold tags
    rw [Kind.ofTag?_eq_some_iff.2 hkind, hnone]
    rfl
  | text hkind hbase htext =>
    have hnone : Text.ofBytes? raw.value = none := by
      rw [Option.eq_none_iff_forall_ne_some]
      intro text hsome
      exact htext text (Text.ofBytes?_eq_some_iff.1 hsome)
    rw [tags_of_known hkind hbase]
    simp only [hnone]
    rfl

/-- Any stuff off the wire says something or has a fault. -/
theorem says_or_fault (raw : RawStuff) : (∃ stuff, raw.Says stuff) ∨ ∃ e, raw.Fault e := by
  by_cases hkind : ∃ kind : Kind, raw.tag.take 3 = Text.bytes kind.tag
  · obtain ⟨kind, hkind⟩ := hkind
    by_cases hbase : ∃ base : Base, raw.base = Text.bytes base.tag
    · obtain ⟨base, hbase⟩ := hbase
      by_cases htext : ∃ text : String, raw.value = Text.bytes text
      · obtain ⟨text, htext⟩ := htext
        exact .inl ⟨{ kind, base, text }, hkind, hbase, htext⟩
      · exact .inr ⟨_, .text hkind hbase (not_exists.1 htext)⟩
    · exact .inr ⟨_, .base hkind (not_exists.1 hbase)⟩
  · exact .inr ⟨_, .kind (not_exists.1 hkind)⟩

end RawStuff

/-! ## Section 2: Stuffs one after the other -/

/-- Stuffs off the wire, each with the offset of the byte that closed it, and what they say. -/
def AllSay (raws : List (Nat × RawStuff)) (stuffs : List Stuff) : Prop :=
  List.Forall₂ (fun raw stuff => raw.2.Says stuff) raws stuffs

/-- The first fault among stuffs off the wire: what those before it say, the offset of the
    byte that closed the faulty one, and what is wrong with it. -/
inductive FirstFault : List (Nat × RawStuff) → List Stuff → Nat → ProtocolError → Prop where
  | here {n : Nat} {raw : RawStuff} {rest : List (Nat × RawStuff)} {e : ProtocolError}
      (h : raw.Fault e) : FirstFault ((n, raw) :: rest) [] n e
  | later {m n : Nat} {raw : RawStuff} {stuff : Stuff} {rest : List (Nat × RawStuff)}
      {said : List Stuff} {e : ProtocolError} (h : raw.Says stuff)
      (more : FirstFault rest said n e) : FirstFault ((m, raw) :: rest) (stuff :: said) n e

theorem allSay_or_firstFault (raws : List (Nat × RawStuff)) :
    (∃ stuffs, AllSay raws stuffs) ∨ ∃ said n e, FirstFault raws said n e := by
  induction raws with
  | nil => exact .inl ⟨[], .nil⟩
  | cons raw raws ih =>
    obtain ⟨n, raw⟩ := raw
    rcases raw.says_or_fault with ⟨stuff, hsays⟩ | ⟨e, hfault⟩
    · rcases ih with ⟨stuffs, hall⟩ | ⟨said, m, e, hfirst⟩
      · exact .inl ⟨stuff :: stuffs, .cons hsays hall⟩
      · exact .inr ⟨stuff :: said, m, e, .later hsays hfirst⟩
    · exact .inr ⟨[], n, e, .here hfault⟩

theorem exists_allSay_iff {raws : List (Nat × RawStuff)} :
    (∃ stuffs, AllSay raws stuffs) ↔ ∀ raw ∈ raws, ∃ stuff, raw.2.Says stuff := by
  induction raws with
  | nil => exact ⟨fun _ => List.forall_mem_nil _, fun _ => ⟨[], .nil⟩⟩
  | cons raw raws ih =>
    rw [List.forall_mem_cons, ← ih]
    constructor
    · rintro ⟨_, hall⟩
      cases hall with
      | @cons _ stuff _ stuffs hsays hrest => exact ⟨⟨stuff, hsays⟩, stuffs, hrest⟩
    · rintro ⟨⟨stuff, hsays⟩, stuffs, hrest⟩
      exact ⟨stuff :: stuffs, .cons hsays hrest⟩

/-- Commits stuffs as they come off the wire, up to an error. -/
def follow (mode : Mode) (s : Stuffs) : List (Nat × RawStuff) → Stuffs × Option ProtocolError
  | [] => (s, none)
  | (_, raw) :: raws =>
    match raw.accept mode with
    | .error e => (s, some e)
    | .ok none => follow mode s raws
    | .ok (some stuff) => follow mode (s.commit stuff) raws

variable {mode : Mode} {s : Stuffs} {raws : List (Nat × RawStuff)} {stuffs said : List Stuff}
  {n : Nat} {e : ProtocolError}

theorem AllSay.follow (h : AllSay raws stuffs) (mode : Mode) (s : Stuffs) :
    follow mode s raws = (s.commitAll stuffs, none) := by
  induction h generalizing s with
  | nil => rfl
  | @cons raw stuff raws stuffs hsays _ ih =>
    rw [Wire.follow, hsays.accept mode]
    exact ih (s.commit stuff)

theorem FirstFault.follow (h : FirstFault raws said n e) (s : Stuffs) :
    follow .strict s raws = (s.commitAll said, some e) := by
  induction h generalizing s with
  | here hfault =>
    rw [Wire.follow, hfault.accept]
    rfl
  | @later m n raw stuff rest said e hsays _ ih =>
    rw [Wire.follow, hsays.accept .strict]
    exact ih (s.commit stuff)

/-- In lenient mode nothing ends the reading. -/
theorem follow_lenient (s : Stuffs) (raws : List (Nat × RawStuff)) :
    (follow .lenient s raws).2 = none := by
  induction raws generalizing s with
  | nil => rfl
  | cons raw raws ih =>
    rw [follow]
    unfold RawStuff.accept
    cases raw.2.salvage? with
    | none => exact ih s
    | some stuff => exact ih (s.commit stuff)

/-! ## Section 3: Along the events of the automaton -/

/-- The stuffs that are closed before the first dialect block. -/
def stuffsBeforeDialect : List (Nat × Event) → List (Nat × RawStuff)
  | [] => []
  | (n, .stuff raw) :: events => (n, raw) :: stuffsBeforeDialect events
  | (_, .dialect _) :: _ => []

/-- The header of the first dialect block. -/
def firstHeader? : List (Nat × Event) → Option Bytes
  | [] => none
  | (_, .stuff _) :: events => firstHeader? events
  | (_, .dialect header) :: _ => some header

/-- Where a scan leads: to an error among the stuffs before the dialect block, through this
    block, or to the end. -/
def Leads (mode : Mode) (s : Stuffs) (result : Automaton × List (Nat × Event)) :
    Progress → Prop
  | .failed e s' => follow mode s (stuffsBeforeDialect result.2) = (s', some e)
  | .finished header s' _ =>
    follow mode s (stuffsBeforeDialect result.2) = (s', none) ∧
      firstHeader? result.2 = some header
  | .running a s' =>
    follow mode s (stuffsBeforeDialect result.2) = (s', none) ∧
      firstHeader? result.2 = none ∧ a = result.1

/-- A stuff in front is committed or left out, and the rest goes as without it. -/
theorem Leads.cons {result : Automaton × List (Nat × Event)} {progress : Progress} {s' : Stuffs}
    (h : Leads mode s' result progress) {m : Nat} {raw : RawStuff}
    (hraw : ∀ raws, follow mode s ((m, raw) :: raws) = follow mode s' raws) :
    Leads mode s (result.1, (m, .stuff raw) :: result.2) progress := by
  have hfollow : follow mode s (stuffsBeforeDialect ((m, .stuff raw) :: result.2)) =
      follow mode s' (stuffsBeforeDialect result.2) := hraw _
  cases progress with
  | running a s'' => exact ⟨hfollow.trans h.1, h.2⟩
  | finished header s'' rest => exact ⟨hfollow.trans h.1, h.2⟩
  | failed e s'' => exact hfollow.trans h

/-- **A scan goes along the events of the automaton.** -/
theorem scan_leads (mode : Mode) (a : Automaton) (s : Stuffs) (m : Nat) (bs : Bytes) :
    Leads mode s (a.run m bs) (scan mode a s bs) := by
  induction bs generalizing a s m with
  | nil => exact ⟨rfl, rfl, rfl⟩
  | cons b bs ih =>
    rw [scan, Automaton.run_cons]
    split
    · next next hfeed =>
      rw [hfeed]
      exact ih next s (m + 1)
    · next next header hfeed =>
      rw [hfeed]
      exact ⟨rfl, rfl⟩
    · next next raw hfeed =>
      rw [hfeed]
      split
      · next e haccept =>
        show follow mode s ((m, raw) :: _) = (s, some e)
        rw [follow, haccept]
      · next haccept =>
        apply (ih next s (m + 1)).cons
        intro raws
        rw [follow, haccept]
      · next stuff haccept =>
        apply (ih next (s.commit stuff) (m + 1)).cons
        intro raws
        rw [follow, haccept]

/-- The outcome of a reading in which no stuff was rejected. -/
def closing (mode : Mode) (result : Automaton × List (Nat × Event)) :
    Except ProtocolError (Option Bytes) :=
  match firstHeader? result.2 with
  | some header => .ok (some header)
  | none => ending mode result.1

/-- Where the first fault stands among the events. -/
theorem FirstFault.events {events : List (Nat × Event)}
    (h : FirstFault (stuffsBeforeDialect events) said n e) :
    ∃ before raw after, events = before ++ (n, .stuff raw) :: after ∧
      AllSay (stuffsBeforeDialect before) said := by
  induction events generalizing said with
  | nil => cases h
  | cons event events ih =>
    obtain ⟨m, event⟩ := event
    cases event with
    | dialect header => cases h
    | stuff raw =>
      cases h with
      | here hfault => exact ⟨[], raw, events, rfl, .nil⟩
      | later hsays more =>
        obtain ⟨before, faulty, after, rfl, hall⟩ := ih more
        exact ⟨(m, .stuff raw) :: before, faulty, after, rfl, .cons hsays hall⟩

/-- Cut in front of the byte that closed something, the bytes give the events before it. -/
theorem Automaton.run_take {a : Automaton} {m n : Nat} {bs : Bytes} {event : Event}
    {before after : List (Nat × Event)} (h : (a.run m bs).2 = before ++ (n, event) :: after) :
    m ≤ n ∧ (a.run m (bs.take (n - m))).2 = before := by
  induction bs generalizing a m before with
  | nil =>
    have hnil : [] = before ++ (n, event) :: after := h
    simp at hnil
  | cons b bs ih =>
    rw [run_cons] at h
    cases hfeed : a.feed b with
    | mk next closed =>
      rw [hfeed] at h
      have hrest : ∀ {before}, (next.run (m + 1) bs).2 = before ++ (n, event) :: after →
          m ≤ n ∧ (a.run m ((b :: bs).take (n - m))).2 =
            (closed.map fun e => (m, e)).toList ++ before := by
        intro before hbefore
        obtain ⟨hle, htake⟩ := ih hbefore
        refine ⟨by omega, ?_⟩
        rw [show n - m = n - (m + 1) + 1 by omega, List.take_succ_cons, run_cons, hfeed]
        exact congrArg ((closed.map fun e => (m, e)).toList ++ ·) htake
      cases closed with
      | none => exact hrest h
      | some first =>
        cases before with
        | nil =>
          -- the byte itself closed it
          obtain ⟨heq, -⟩ := List.cons.inj h
          obtain ⟨rfl, -⟩ := Prod.mk.inj heq
          rw [Nat.sub_self]
          exact ⟨Nat.le_refl m, rfl⟩
        | cons head before =>
          obtain ⟨rfl, hbefore⟩ := List.cons.inj h
          exact hrest hbefore

/-- Whether the bytes hold a whole dialect block or end between blocks. -/
def Outline.complete (o : Outline) : Bool := (firstHeader? o.events).isSome || o.piece.closed

section Closing

variable {result : Automaton × List (Nat × Event)} {o : Outline}

/-- In lenient mode the bytes may end anywhere. -/
theorem closing_lenient (result : Automaton × List (Nat × Event)) :
    closing .lenient result = .ok (firstHeader? result.2) := by
  unfold closing ending
  cases firstHeader? result.2 <;> rfl

theorem closing_of_complete (h : Agrees result o) (hcomplete : o.complete = true) (mode : Mode) :
    closing mode result = .ok (firstHeader? result.2) := by
  unfold Outline.complete at hcomplete
  rw [← h.events, ← h.boundary] at hcomplete
  unfold closing ending
  cases hheader : firstHeader? result.2 with
  | some header => rfl
  | none =>
    rw [hheader] at hcomplete
    have hboundary : result.1.atBoundary = true := hcomplete
    simp [hboundary]

theorem closing_of_not_complete (h : Agrees result o) (hopen : ¬ o.complete = true) :
    closing .strict result = .error (.unexpectedEnd o.piece.name) := by
  unfold Outline.complete at hopen
  rw [Bool.or_eq_true, not_or, ← h.events, ← h.boundary] at hopen
  obtain ⟨hheader, hboundary⟩ := hopen
  unfold closing ending
  rw [Option.not_isSome_iff_eq_none.1 hheader, ← h.state]
  simp [hboundary]

end Closing

end Wire

/-! ## Section 4: Both modes -/

namespace Codec

open Wire (AllSay FirstFault stuffsBeforeDialect follow)

variable {κ : Type} [Content κ] (c : Codec κ) {bs : Bytes} {s : Stuffs} {e : ProtocolError}

/-- The same codec in a mode. -/
def inMode (c : Codec κ) (mode : Mode) : Codec κ := { c with mode }

/-! ### From a scan to a reading -/

theorem deserialize_of_error (owner : Option String)
    (h : follow c.mode {} (stuffsBeforeDialect (Wire.Automaton.start.run 0 bs).2) = (s, some e)) :
    c.deserialize bs owner = c.conclude { stuffs := s, owner } (.error e) := by
  cases bs with
  | nil => cases h
  | cons b bs =>
    have hleads := Wire.scan_leads c.mode .start {} 0 (b :: bs)
    rw [c.deserialize_eq (List.cons_ne_nil b bs)]
    cases hscan : Wire.scan c.mode .start {} (b :: bs) with
    | running a s' =>
      rw [hscan] at hleads
      cases h.symm.trans hleads.1
    | finished header s' rest =>
      rw [hscan] at hleads
      cases h.symm.trans hleads.1
    | failed e' s' =>
      rw [hscan] at hleads
      cases h.symm.trans hleads
      rfl

theorem deserialize_of_none (owner : Option String)
    (h : follow c.mode {} (stuffsBeforeDialect (Wire.Automaton.start.run 0 bs).2) = (s, none)) :
    c.deserialize bs owner =
      c.conclude { stuffs := s, owner }
        (Wire.closing c.mode (Wire.Automaton.start.run 0 bs)) := by
  cases bs with
  | nil =>
    cases h
    rfl
  | cons b bs =>
    have hleads := Wire.scan_leads c.mode .start {} 0 (b :: bs)
    rw [c.deserialize_eq (List.cons_ne_nil b bs)]
    unfold Wire.closing
    cases hscan : Wire.scan c.mode .start {} (b :: bs) with
    | running a s' =>
      rw [hscan] at hleads
      obtain ⟨hfollow, hheader, rfl⟩ := hleads
      cases h.symm.trans hfollow
      rw [hheader]
    | finished header s' rest =>
      rw [hscan] at hleads
      obtain ⟨hfollow, hheader⟩ := hleads
      cases h.symm.trans hfollow
      rw [hheader]
    | failed e s' =>
      rw [hscan] at hleads
      cases h.symm.trans hleads

/-! ### From an outcome to what is received -/

/-- Two readings came to the same, but for what they do about stuffs that cannot be read. -/
structure SameReceived (r r' : Received κ) : Prop where
  error : r.error = r'.error
  primitive : r.primitive = r'.primitive
  registry : r.codec.registry = r'.codec.registry
  calls : r.calls = r'.calls

/-- The mode has no part in what an outcome comes to. -/
theorem conclude_inMode (mode mode' : Mode) (p : Primitive κ)
    (outcome : Except ProtocolError (Option Bytes)) :
    SameReceived ((c.inMode mode).conclude p outcome) ((c.inMode mode').conclude p outcome) := by
  match outcome with
  | .error e => exact ⟨rfl, rfl, rfl, rfl⟩
  | .ok none => exact ⟨rfl, rfl, rfl, rfl⟩
  | .ok (some header) =>
    unfold conclude bind inMode
    dsimp only
    cases c.registry with
    | none => exact ⟨rfl, rfl, rfl, rfl⟩
    | some r =>
      dsimp only
      split <;> exact ⟨rfl, rfl, rfl, rfl⟩

/-! ### What the stuffs make of a reading -/

variable {o : Wire.Outline} {stuffs said : List Stuff} {n : Nat}

/-- Bytes in which every stuff says something are read in either mode up to their end. -/
theorem deserialize_of_allSay (ho : Wire.Agrees (Wire.Automaton.start.run 0 bs) o)
    (h : AllSay (stuffsBeforeDialect o.events) stuffs) (owner : Option String) :
    c.deserialize bs owner = c.conclude { stuffs := .ofList stuffs, owner }
      (Wire.closing c.mode (Wire.Automaton.start.run 0 bs)) := by
  rw [← ho.events] at h
  exact c.deserialize_of_none owner (h.follow c.mode {})

/-- A strict reading ends at the first fault. -/
theorem deserialize_of_firstFault (ho : Wire.Agrees (Wire.Automaton.start.run 0 bs) o)
    (h : FirstFault (stuffsBeforeDialect o.events) said n e) (owner : Option String) :
    (c.inMode .strict).deserialize bs owner =
      (c.inMode .strict).conclude { stuffs := .ofList said, owner } (.error e) := by
  rw [← ho.events] at h
  exact (c.inMode .strict).deserialize_of_error owner (h.follow {})

/-- A reading of the bytes in front of the first faulty stuff commits what the stuffs there
    say. -/
theorem stuffs_deserialize_take (ho : Wire.Agrees (Wire.Automaton.start.run 0 bs) o)
    (h : FirstFault (stuffsBeforeDialect o.events) said n e) (owner : Option String) :
    (c.deserialize (bs.take n) owner).primitive.stuffs = .ofList said := by
  obtain ⟨before, raw, after, hevents, hall⟩ := h.events
  have htake := (Wire.Automaton.run_take (ho.events.trans hevents)).2
  rw [Nat.sub_zero] at htake
  rw [← htake] at hall
  rw [c.deserialize_of_none owner (hall.follow c.mode {})]
  exact (c.conclude_keeps _ _).1

/-- A lenient reading never fails. -/
theorem error_lenient (bs : Bytes) (owner : Option String) :
    ((c.inMode .lenient).deserialize bs owner).error = none := by
  have hfollow := Wire.follow_lenient {} (stuffsBeforeDialect (Wire.Automaton.start.run 0 bs).2)
  rw [(c.inMode .lenient).deserialize_of_none owner (Prod.ext rfl hfollow),
    show (c.inMode .lenient).mode = .lenient from rfl, Wire.closing_lenient]
  exact error_conclude_ok _ _ _

/-- Whole bytes in which every stuff says something are accepted in either mode. -/
theorem deserialize_of_complete (ho : Wire.Agrees (Wire.Automaton.start.run 0 bs) o)
    (h : AllSay (stuffsBeforeDialect o.events) stuffs) (hcomplete : o.complete = true)
    (owner : Option String) :
    c.deserialize bs owner = c.conclude { stuffs := .ofList stuffs, owner }
      (.ok (Wire.firstHeader? o.events)) := by
  rw [c.deserialize_of_allSay ho h, Wire.closing_of_complete ho hcomplete, ho.events]

/-- Bytes that are cut off are rejected for it in strict mode, if there is no fault. -/
theorem error_of_not_complete (ho : Wire.Agrees (Wire.Automaton.start.run 0 bs) o)
    (h : AllSay (stuffsBeforeDialect o.events) stuffs) (hopen : ¬ o.complete = true)
    (owner : Option String) :
    ((c.inMode .strict).deserialize bs owner).error = some (.unexpectedEnd o.piece.name) := by
  rw [(c.inMode .strict).deserialize_of_allSay ho h, error_conclude]
  exact Wire.closing_of_not_complete ho hopen

/-- **Strict and lenient reading agree wherever the strict one accepts.** Any bytes have one
    reading `o` by the grammar. The lenient reading of them always succeeds. The strict one
    succeeds exactly if each stuff that is closed before the first dialect block says
    something and the bytes hold a dialect block or end between blocks; then both come
    to the same, with what these stuffs say. Otherwise it fails with the first fault or, if
    there is none, with the piece that the bytes leave open. What it has committed before
    the first fault is what the lenient reading commits of the bytes in front of it. -/
theorem modes_agree (bs : Bytes) (owner : Option String) :
    ∃ o, (∀ o', Wire.Reads bs o' ↔ o' = o) ∧
      let closed := stuffsBeforeDialect o.events
      let strict := (c.inMode .strict).deserialize bs owner
      let lenient := (c.inMode .lenient).deserialize bs owner
      lenient.error = none ∧
      (strict.error = none ↔
        (∀ raw ∈ closed, ∃ stuff, raw.2.Says stuff) ∧ o.complete = true) ∧
      (∀ e, strict.error = some e ↔
        (∃ said n, FirstFault closed said n e) ∨
          (∀ raw ∈ closed, ∃ stuff, raw.2.Says stuff) ∧ ¬ o.complete = true ∧
            e = .unexpectedEnd o.piece.name) ∧
      (strict.error = none →
        SameReceived lenient strict ∧ strict.primitive.owner = owner ∧
        ∃ stuffs, AllSay closed stuffs ∧ strict.primitive.stuffs = .ofList stuffs) ∧
      ∀ said n e, FirstFault closed said n e →
        strict.primitive.stuffs = .ofList said ∧
        ((c.inMode .lenient).deserialize (bs.take n) owner).primitive.stuffs = .ofList said := by
  obtain ⟨o, hreads⟩ := Wire.exists_reads bs
  have ho := hreads.agrees
  refine ⟨o, fun o' => ⟨fun ho' => ho'.agrees.unique ho, fun h => h ▸ hreads⟩, ?_⟩
  intro closed strict lenient
  -- either all stuffs say something and the bytes are whole, or one of two things is wrong
  have hgood : ∀ {stuffs}, AllSay closed stuffs → o.complete = true → strict.error = none := by
    intro stuffs hall hcomplete
    show ((c.inMode .strict).deserialize bs owner).error = none
    rw [deserialize_of_complete _ ho hall hcomplete]
    exact error_conclude_ok _ _ _
  have hcut : ∀ {stuffs}, AllSay closed stuffs → ¬ o.complete = true →
      strict.error = some (.unexpectedEnd o.piece.name) := by
    intro stuffs hall hopen
    exact c.error_of_not_complete ho hall hopen owner
  have hbad : ∀ {said n e}, FirstFault closed said n e → strict =
      (c.inMode .strict).conclude { stuffs := .ofList said, owner } (.error e) := by
    intro said n e hfirst
    exact c.deserialize_of_firstFault ho hfirst owner
  have haccepted : strict.error = none → ∃ stuffs, AllSay closed stuffs ∧ o.complete = true := by
    intro hnone
    rcases Wire.allSay_or_firstFault closed with ⟨stuffs, hall⟩ | ⟨said, n, e, hfirst⟩
    · by_cases hcomplete : o.complete = true
      · exact ⟨stuffs, hall, hcomplete⟩
      · cases hnone.symm.trans (hcut hall hcomplete)
    · cases hnone.symm.trans (congrArg Received.error (hbad hfirst))
  refine ⟨c.error_lenient bs owner, ?_, ?_, ?_, ?_⟩
  · rw [← Wire.exists_allSay_iff]
    constructor
    · intro hnone
      obtain ⟨stuffs, hall, hcomplete⟩ := haccepted hnone
      exact ⟨⟨stuffs, hall⟩, hcomplete⟩
    · rintro ⟨⟨stuffs, hall⟩, hcomplete⟩
      exact hgood hall hcomplete
  · intro e
    rw [← Wire.exists_allSay_iff]
    constructor
    · intro he
      rcases Wire.allSay_or_firstFault closed with ⟨stuffs, hall⟩ | ⟨said, n, e', hfirst⟩
      · by_cases hcomplete : o.complete = true
        · cases he.symm.trans (hgood hall hcomplete)
        · exact .inr ⟨⟨stuffs, hall⟩, hcomplete,
            Option.some.inj (he.symm.trans (hcut hall hcomplete))⟩
      · have he' : strict.error = some e' := congrArg Received.error (hbad hfirst)
        obtain rfl : e = e' := Option.some.inj (he.symm.trans he')
        exact .inl ⟨said, n, hfirst⟩
    · rintro (⟨said, n, hfirst⟩ | ⟨⟨stuffs, hall⟩, hopen, rfl⟩)
      · exact congrArg Received.error (hbad hfirst)
      · exact hcut hall hopen
  · intro hnone
    obtain ⟨stuffs, hall, hcomplete⟩ := haccepted hnone
    -- both have the same outcome
    have hwhole := fun mode => (c.inMode mode).deserialize_of_complete ho hall hcomplete owner
    obtain ⟨hstuffs, howner⟩ := (c.inMode .strict).conclude_keeps
      { stuffs := .ofList stuffs, owner } (.ok (Wire.firstHeader? o.events))
    show SameReceived ((c.inMode .lenient).deserialize bs owner)
        ((c.inMode .strict).deserialize bs owner) ∧
      ((c.inMode .strict).deserialize bs owner).primitive.owner = owner ∧
      ∃ stuffs, AllSay closed stuffs ∧
        ((c.inMode .strict).deserialize bs owner).primitive.stuffs = .ofList stuffs
    rw [hwhole .lenient, hwhole .strict]
    exact ⟨c.conclude_inMode .lenient .strict _ _, howner, stuffs, hall, hstuffs⟩
  · intro said n e hfirst
    exact ⟨congrArg (fun r => r.primitive.stuffs) (hbad hfirst),
      (c.inMode .lenient).stuffs_deserialize_take ho hfirst owner⟩

/-- A kind that is not known hides a base that is not known, and both hide that the bytes end
    in a tag. In lenient mode only the first stuff is left. -/
example :
    let bs := Text.ascii "[1.0]\x7bsub=a:int\x7d\x7bxyz=b:none\x7d\x7bpre"
    ((ofActions.inMode .strict).deserialize bs none).error = some (.unknownKind "xyz") ∧
      ((ofActions.inMode .lenient).deserialize bs none).primitive.stuffs =
        .ofList [.subject { text := "a", base := .int }] := by
  decide +kernel

end Codec

end Parley
