import Parley.Proofs.Wire.Binding
import Parley.Proofs.Wire.RoundTrip

/-! # The entries of a document

  A document has one entry for each stuff that JSON has a value for. Read back, an entry is
  judged on its own: either it gives a stuff, the **echo** of the one it was written for, or it
  is faulty. So what a document is read back as is decided stuff by stuff, and a fault ends the
  reading in strict mode alone.
-/

namespace Parley.Document

/-- The entry of a stuff, if it has one. -/
def entryOf? (s : Stuff) : Option Entry :=
  (value? s.toLiteral).map fun v => { kind := s.kind.tag, value := v, base := s.base.tag }

/-- What a literal comes back as from a document, if it does: in the text that is canonical for
    its value. -/
def comeback? (l : Literal) : Option Literal :=
  (value? l).bind fun v => (canonical? l.base v).map fun text => { l with text }

/-- What a stuff comes back as from a document, if it does. -/
def echo? (s : Stuff) : Option Stuff := (comeback? s.toLiteral).map (Stuff.ofLiteral s.kind)

/-! ### Taking a document apart -/

theorem entry?_ofStuff? {s : Stuff} {item : Json} (h : ofStuff? s = some item) :
    entry? item = entryOf? s := by
  obtain ⟨v, hv, rfl⟩ := Option.map_eq_some_iff.1 h
  unfold entryOf?
  rw [hv]
  rfl

theorem mapM_entry? (stuffs : List Stuff) :
    (stuffs.filterMap ofStuff?).mapM entry? = some (stuffs.filterMap entryOf?) := by
  induction stuffs with
  | nil => rfl
  | cons s stuffs ih =>
    cases hs : ofStuff? s with
    | none =>
      have hentry : entryOf? s = none := by
        unfold entryOf?
        rw [Option.map_eq_none_iff.1 hs]
        rfl
      rw [List.filterMap_cons_none hs, List.filterMap_cons_none hentry, ih]
    | some item =>
      have hentry := entry?_ofStuff? hs
      obtain ⟨v, hv, -⟩ := Option.map_eq_some_iff.1 hs
      have hsome : ∃ e, entryOf? s = some e := ⟨_, by unfold entryOf?; rw [hv]; rfl⟩
      obtain ⟨e, he⟩ := hsome
      rw [List.filterMap_cons_some hs, List.filterMap_cons_some he, List.mapM_cons, hentry, he, ih]
      rfl

/-- **A document is taken apart into what it was made of.** -/
theorem parts?_ofPrimitive {κ : Type} (p : Primitive κ) : parts? (ofPrimitive p) =
    some { entries := p.stuffs.toList.filterMap entryOf?
           dialect := p.dialect.map fun d => (d.name, d.tracker) } := by
  have hentries : entries? (some (.array (p.stuffs.toList.filterMap ofStuff?)))
      = some (p.stuffs.toList.filterMap entryOf?) := mapM_entry? _
  unfold parts? ofPrimitive
  cases p.dialect with
  | none =>
    show (entries? (some (.array (p.stuffs.toList.filterMap ofStuff?)))).bind _ = _
    rw [hentries]
    rfl
  | some d =>
    show (entries? (some (.array (p.stuffs.toList.filterMap ofStuff?)))).bind _ = _
    rw [hentries]
    rfl

/-! ### Judging the entries -/

/-- **An entry is faulty or gives the echo** of the stuff that it was written for. -/
theorem judge_entryOf {s : Stuff} {e : Entry} (h : entryOf? s = some e) : e.judge =
    match echo? s with
    | none => .error (.invalidValue s.base e.value.compact)
    | some s' => .ok s' := by
  obtain ⟨v, hv, rfl⟩ := Option.map_eq_some_iff.1 h
  have hkind : Kind.ofTag? (Text.bytes s.kind.tag) = some s.kind := by cases s.kind <;> rfl
  unfold echo? comeback? Entry.judge
  dsimp only
  rw [hv, Option.bind_some, hkind, Base.ofTag?_tag]
  dsimp only
  split
  · next hbase => cases hbase
  · next hbase =>
    -- no value was written for XML
    unfold value? at hv
    rw [Option.some.inj hbase] at hv
    cases hv
  · next base hxml hbase =>
    obtain rfl := Option.some.inj hbase
    cases canonical? s.base v <;> rfl

/-- Entries are committed as echoes, unless one of them has none and the reader is strict. -/
theorem commitEntries_entryOf (mode : Mode) (s : Stuffs) (stuffs : List Stuff) :
    commitEntries mode s (stuffs.filterMap entryOf?) =
        (s.commitAll (stuffs.filterMap echo?), none) ∨
      (mode = .strict ∧ (commitEntries mode s (stuffs.filterMap entryOf?)).2 ≠ none ∧
        ∃ stuff ∈ stuffs, entryOf? stuff ≠ none ∧ echo? stuff = none) := by
  induction stuffs generalizing s with
  | nil => exact .inl rfl
  | cons stuff stuffs ih =>
    cases hentry : entryOf? stuff with
    | none =>
      have hecho : echo? stuff = none := by
        unfold echo? comeback?
        rw [Option.map_eq_none_iff.1 hentry]
        rfl
      rw [List.filterMap_cons_none hentry, List.filterMap_cons_none hecho]
      rcases ih s with h | ⟨hstrict, herror, stuff', hmem, hfault⟩
      · exact .inl h
      · exact .inr ⟨hstrict, herror, stuff', List.mem_cons_of_mem _ hmem, hfault⟩
    | some e =>
      have hjudge := judge_entryOf hentry
      rw [List.filterMap_cons_some hentry]
      unfold commitEntries
      cases hecho : echo? stuff with
      | some stuff' =>
        rw [hecho] at hjudge
        rw [hjudge, List.filterMap_cons_some hecho]
        rcases ih (s.commit stuff') with h | ⟨hstrict, herror, stuff'', hmem, hfault⟩
        · exact .inl h
        · exact .inr ⟨hstrict, herror, stuff'', List.mem_cons_of_mem _ hmem, hfault⟩
      | none =>
        rw [hecho] at hjudge
        rw [hjudge, List.filterMap_cons_none hecho]
        dsimp only
        by_cases hmode : mode = .strict
        · rw [if_pos hmode]
          refine .inr ⟨hmode, Option.some_ne_none _, stuff, List.mem_cons_self, ?_, hecho⟩
          rw [hentry]
          exact Option.some_ne_none e
        · rw [if_neg hmode]
          rcases ih s with h | ⟨hstrict, -⟩
          · exact .inl h
          · exact absurd hstrict hmode

/-! ### Reading a document -/

variable {κ : Type} [Content κ]

/-- A primitive whose stuffs have been read, bound to the dialect that the document names. -/
def bound (c : Codec κ) (read : Primitive κ) (dialect : Option (Dialect κ)) : Received κ :=
  match dialect with
  | none => { error := none, primitive := read, codec := c }
  | some d => c.bind read d.name d.tracker

theorem bound_keeps (c : Codec κ) (read : Primitive κ) (dialect : Option (Dialect κ)) :
    (bound c read dialect).error = none ∧ (bound c read dialect).primitive.stuffs = read.stuffs ∧
      (bound c read dialect).primitive.owner = read.owner := by
  cases dialect with
  | none => exact ⟨rfl, rfl, rfl⟩
  | some d => exact c.bind_keeps read d.name d.tracker

/-- **A document is read as the echoes of its stuffs**, and its dialect is bound again, unless
    the reader is strict and some stuff was written but has no echo. -/
theorem readDocument_ofPrimitive (c : Codec κ) (p : Primitive κ) (owner : Option String) :
    c.readDocument { owner } (ofPrimitive p) =
        bound c { stuffs := Stuffs.ofList (p.stuffs.toList.filterMap echo?), owner } p.dialect ∨
      (c.mode = .strict ∧ (c.readDocument { owner } (ofPrimitive p)).error ≠ none ∧
        ∃ stuff ∈ p.stuffs.toList, entryOf? stuff ≠ none ∧ echo? stuff = none) := by
  unfold Codec.readDocument
  rw [parts?_ofPrimitive]
  dsimp only
  rcases commitEntries_entryOf c.mode {} p.stuffs.toList with h | ⟨hstrict, herror, hfault⟩
  · rw [h]
    cases p.dialect <;> exact .inl rfl
  · refine .inr ⟨hstrict, ?_, hfault⟩
    split
    · exact Option.some_ne_none _
    · next hcommit =>
      rw [hcommit] at herror
      exact absurd rfl herror

end Parley.Document
