import Parley.Proofs.Codec.Taken
import Parley.Proofs.Document.RoundTrip
import Parley.Proofs.Json.Parsed

/-! # Documents of any origin

  A document may come from anywhere: with values of another type than their stuff, numbers out
  of range, texts in place of values, records as arrays. Whatever a reader takes from it, it
  keeps in the **canonical** text of its base, and never as XML. A primitive that was read in
  this way goes back into a document: if there are no fractions in it, it is read from this
  document as it was, in strict mode too (`parse_canonical`).

  Two things carry this. Every stuff was given by an entry (`Taken.exists_of_mem`), and the text
  that an entry gives is canonical (`Entry.Says.canonical`). And a value that came out of the
  reader nests 127 deep at most; three of these levels belong to the document, so a JSON stuff
  keeps the 124 that a document has room for (`whole_entries`).
-/

namespace Parley

/-! ## Section 1: Canonical literals -/

/-- Literals in the text that is canonical for their base. There is none for XML. -/
inductive Literal.Canonical : Literal → Prop where
  /-- A text, whatever its characters. -/
  | string (s : String) : Canonical (.ofString s)
  /-- The digits of a signed 32-bit word. -/
  | int32 (n : Int32) : Canonical (.ofInt32 n)
  /-- The digits of an unsigned 32-bit word. -/
  | uint32 (n : UInt32) : Canonical (.ofUInt32 n)
  /-- The digits of a signed 64-bit word. -/
  | int64 (n : Int64) : Canonical (.ofInt64 n)
  /-- The digits of an unsigned 64-bit word. -/
  | uint64 (n : UInt64) : Canonical (.ofUInt64 n)
  /-- Four places of a number. -/
  | float (x : Double) : Canonical { text := x.fixed, base := .float }
  /-- Four places of a number. -/
  | double (x : Double) : Canonical (.ofDouble x)
  /-- One of the words `true` and `false`. -/
  | bool (b : Bool) : Canonical (.ofBool b)
  /-- The compact form of a JSON value. -/
  | json (v : Json) : Canonical (.ofJson v)

namespace Literal.Canonical

variable {l : Literal}

theorem base_ne_xml (h : l.Canonical) : l.base ≠ .xml := by
  cases h <;> exact Base.noConfusion

/-- Without fractions, what is canonical could have been made by the makers. -/
theorem typed (h : l.Canonical)
    (hjson : l.base = .json → ∃ v, Json.Whole 124 v ∧ l.text = v.compact)
    (hfloat : l.base ≠ .float) (hdouble : l.base ≠ .double) : l.Typed := by
  cases h with
  | string s => exact .string s
  | int32 n => exact .int32 n
  | uint32 n => exact .uint32 n
  | int64 n => exact .int64 n
  | uint64 n => exact .uint64 n
  | float x => exact absurd rfl hfloat
  | double x => exact absurd rfl hdouble
  | bool b => exact .bool b
  | json v =>
    obtain ⟨v', hwhole, htext⟩ := hjson rfl
    have hsame : Literal.ofJson v = .ofJson v' := congrArg (Literal.mk · .json) htext
    rw [hsame]
    exact .json hwhole

end Literal.Canonical

namespace Document

/-! ## Section 2: Entries from anywhere -/

/-- **What an entry says is canonical.** -/
theorem Entry.Says.canonical {entry : Entry} {stuff : Stuff} (h : entry.Says stuff) :
    stuff.toLiteral.Canonical := by
  obtain ⟨⟨text, base⟩, kind⟩ := stuff
  -- for each base the text is one that its maker writes, of what the value was read as
  have htext : canonical? base entry.value = some text := h.text
  show Literal.Canonical { text, base }
  cases base with
  | string =>
    obtain rfl := Option.some.inj htext
    exact .string _
  | int =>
    obtain ⟨n, -, rfl⟩ := Option.map_eq_some_iff.1 htext
    exact .int32 n
  | uint =>
    obtain ⟨n, -, rfl⟩ := Option.map_eq_some_iff.1 htext
    exact .uint32 n
  | long =>
    obtain ⟨n, -, rfl⟩ := Option.map_eq_some_iff.1 htext
    exact .int64 n
  | ulong =>
    obtain ⟨n, -, rfl⟩ := Option.map_eq_some_iff.1 htext
    exact .uint64 n
  | float =>
    obtain ⟨x, -, rfl⟩ := Option.map_eq_some_iff.1 htext
    exact .float x
  | double =>
    obtain ⟨x, -, rfl⟩ := Option.map_eq_some_iff.1 htext
    exact .double x
  | bool =>
    obtain ⟨b, -, rfl⟩ := Option.map_eq_some_iff.1 htext
    exact .bool b
  | json =>
    obtain rfl := Option.some.inj htext
    exact .json _
  | xml => cases htext

/-- A JSON stuff is the compact form of the value in its entry. -/
theorem Entry.Says.text_json {entry : Entry} {stuff : Stuff} (h : entry.Says stuff)
    (hbase : stuff.base = .json) : stuff.text = entry.value.compact := by
  have htext := h.text
  rw [hbase] at htext
  exact (Option.some.inj htext).symm

theorem whole_entry? {n : Nat} {item : Json} {entry : Entry} (h : entry? item = some entry)
    (hwhole : Json.Whole (n + 1) item) : Json.Whole n entry.value := by
  unfold entry? at h
  split at h
  · next kind value base hrecord =>
    cases h
    exact hwhole.of_record? hrecord (by simp)
  · cases h

theorem exists_item_of_mem {items : List Json} {entries : List Entry}
    (h : items.mapM entry? = some entries) {entry : Entry} (hmem : entry ∈ entries) :
    ∃ item ∈ items, entry? item = some entry := by
  induction items generalizing entries with
  | nil =>
    cases h
    cases hmem
  | cons item items ih =>
    simp only [List.mapM_cons, Option.bind_eq_bind, Option.bind_eq_some_iff, Option.pure_def,
      Option.some.injEq] at h
    obtain ⟨first, hfirst, rest, hrest, rfl⟩ := h
    rcases List.mem_cons.1 hmem with rfl | hmem
    · exact ⟨item, List.mem_cons_self, hfirst⟩
    · obtain ⟨item', hitem', hentry⟩ := ih hrest hmem
      exact ⟨item', List.mem_cons_of_mem item hitem', hentry⟩

/-- **Three levels of a value are those of the document**, in whatever form its records are. -/
theorem whole_entries {n : Nat} {v : Json} {parts : Parts} (h : parts? v = some parts)
    (hwhole : Json.Whole (n + 3) v) : ∀ entry ∈ parts.entries, Json.Whole n entry.value := by
  unfold parts? at h
  split at h
  · next version stuffs dialect hrecord =>
    simp only [Option.bind_eq_bind, Option.bind_eq_some_iff, Option.some.injEq] at h
    obtain ⟨entries, hentries, -, -, rfl⟩ := h
    intro entry hmem
    unfold entries? at hentries
    split at hentries
    · cases hentries
      cases hmem
    · next items =>
      have hitems : Json.Whole (n + 2) (.array items) := hwhole.of_record? hrecord (by simp)
      obtain ⟨item, hitem, hentry⟩ := exists_item_of_mem hentries hmem
      exact whole_entry? hentry (hitems.of_mem_items hitem)
    · cases hentries
  · cases h

end Document

/-! ## Section 3: Reading, and reading again -/

namespace Codec

open Document

variable {κ : Type} [Content κ] {c : Codec κ} {text : String} {owner : Option String}

/-- What a document was read as, if it was: the stuffs that its entries gave, with the dialect that
    it named. -/
theorem parse_eq_of_error_none (h : (c.parse text owner).error = none) :
    ∃ v parts said, Json.read? text = some v ∧ parts? v = some parts ∧
      TakenOut c.mode parts.entries said none ∧
      c.parse text owner =
        match parts.dialect with
        | none => { error := none, primitive := { stuffs := .ofList said, owner }, codec := c }
        | some (name, tracker) => c.bind { stuffs := .ofList said, owner } name tracker := by
  unfold parse at h ⊢
  cases hread : Json.read? text with
  | none =>
    rw [hread] at h
    cases h
  | some v =>
    rw [hread] at h
    dsimp only at h ⊢
    unfold readDocument at h ⊢
    cases hparts : parts? v with
    | none =>
      rw [hparts] at h
      cases h
    | some parts =>
      obtain ⟨said, stop, htaken, hcommit⟩ := taken_commitEntries c.mode {} parts.entries
      rw [hparts] at h
      dsimp only at h ⊢
      rw [hcommit] at h ⊢
      cases stop with
      | some e => cases h
      | none => exact ⟨v, parts, said, rfl, hparts, htaken, rfl⟩

/-- A dialect that was bound is bound again from its name, its tracker and the stuffs, by a codec
    that knows the same factories. -/
theorem bound_bind {c' : Codec κ} (hsame : ∀ name, c'.factory? name = c.factory? name)
    (hkeyed : ∀ r, c.registry = some r → r.Keyed) {p : Primitive κ} (hp : p.dialect = none)
    (name tracker : String) :
    (bound c' p (c.bind p name tracker).primitive.dialect).primitive =
      (c.bind p name tracker).primitive := by
  cases hf : c.factory? name with
  | none =>
    rw [bind_of_none hf, hp]
    rfl
  | some f =>
    rw [bind_of_some hf]
    obtain ⟨r, hr, hname⟩ := Option.bind_eq_some_iff.1 hf
    -- a filled dialect bears the name of its factory, and has the tracker that it was filled with
    have hfactory : c'.factory? (f.fill tracker p).name = some f := by
      rw [f.name_fill, hkeyed r hr name f hname, hsame, hf]
    have htracker : (f.fill tracker p).tracker = tracker := by
      unfold Dialect.tracker
      rw [f.info_fill]
    show (c'.bind p (f.fill tracker p).name (f.fill tracker p).tracker).primitive = _
    rw [bind_of_some hfactory, htracker]

/-- The stuffs that were read without fractions from a document without fractions stand in a
    document again. -/
theorem stands_of_taken {mode : Mode} {v : Json} {parts : Parts} {said : List Stuff}
    {stop : Option ProtocolError} (hread : Json.read? text = some v) (hintegral : v.integral = true)
    (hparts : parts? v = some parts) (htaken : TakenOut mode parts.entries said stop)
    {stuff : Stuff} (hmem : stuff ∈ said) (hfloat : stuff.base ≠ .float)
    (hdouble : stuff.base ≠ .double) : Stands stuff.toLiteral := by
  obtain ⟨entry, hentry, hgives⟩ := htaken.exists_of_mem hmem
  have hwhole : Json.Whole 124 entry.value :=
    whole_entries hparts (Json.whole_of_read? hread hintegral) entry hentry
  exact stands_of_typed (hgives.canonical.typed
    (fun hbase => ⟨entry.value, hwhole, hgives.text_json hbase⟩) hfloat hdouble)

/-- **What is read from a document is canonical, and is read from its own document as it was.**
    Whatever the text, the mode and the factories are: if a primitive is read from it, then its
    stuffs are those that the entries say, every one is in the text that is canonical for its
    base, and none is XML. If every number in the text is an integer, and no stuff of the
    primitive is a fraction, then any codec, be it strict or lenient, reads the stuffs from the
    document of the primitive as they were. If it knows the same factories and reads for the
    same owner, it reads the whole primitive as it was, with its dialect. -/
theorem parse_canonical (c : Codec κ) (text : String) (owner : Option String)
    (h : (c.parse text owner).error = none) :
    let q := (c.parse text owner).primitive
    (∃ v parts said, Json.read? text = some v ∧ parts? v = some parts ∧
      TakenOut c.mode parts.entries said none ∧ q.stuffs = .ofList said) ∧
    (∀ stuff ∈ q.stuffs.toList, stuff.toLiteral.Canonical ∧ stuff.base ≠ .xml) ∧
    ((∀ v, Json.read? text = some v → v.integral = true) →
      (∀ stuff ∈ q.stuffs.toList, stuff.base ≠ .float ∧ stuff.base ≠ .double) →
      ∀ (c' : Codec κ) (owner' : Option String),
        let again := c'.parse (Document.text q) owner'
        again.error = none ∧ again.primitive.stuffs = q.stuffs ∧
        (owner' = owner → (∀ name, c'.factory? name = c.factory? name) →
          (∀ r, c.registry = some r → r.Keyed) → again.primitive = q)) := by
  intro q
  obtain ⟨v, parts, said, hread, hparts, htaken, hparse⟩ := parse_eq_of_error_none h
  have hstuffs : q.stuffs = .ofList said := by
    show (c.parse text owner).primitive.stuffs = _
    rw [hparse]
    cases parts.dialect with
    | none => rfl
    | some header => exact (c.bind_keeps _ header.1 header.2).2.1
  have hsaid : ∀ stuff ∈ q.stuffs.toList, stuff ∈ said := by
    intro stuff hmem
    rw [hstuffs] at hmem
    exact Stuffs.mem_of_mem_ofList hmem
  refine ⟨⟨v, parts, said, hread, hparts, htaken, hstuffs⟩, fun stuff hmem => ?_,
    fun hintegral hfractions c' owner' => ?_⟩
  · obtain ⟨entry, -, hgives⟩ := htaken.exists_of_mem (hsaid stuff hmem)
    exact ⟨hgives.canonical, hgives.canonical.base_ne_xml⟩
  · intro again
    -- all that was read stands in a document, so the document of it is read as what it is
    have hstands : ∀ stuff ∈ q.stuffs.toList, Stands stuff.toLiteral := fun stuff hmem =>
      stands_of_taken hread (hintegral v hread) hparts htaken (hsaid stuff hmem)
        (hfractions stuff hmem).1 (hfractions stuff hmem).2
    have hagain : again = bound c' { stuffs := q.stuffs, owner := owner' } q.dialect :=
      (c'.parse_text hstands owner').trans (c'.readDocument_of_stands hstands owner')
    obtain ⟨herror, hkeeps, -⟩ := bound_keeps c' { stuffs := q.stuffs, owner := owner' } q.dialect
    rw [← hagain] at herror hkeeps
    refine ⟨herror, hkeeps, fun howner hsame hkeyed => ?_⟩
    subst howner
    rw [hagain, hstuffs]
    show (bound c' _ (c.parse text owner').primitive.dialect).primitive =
      (c.parse text owner').primitive
    rw [hparse]
    cases parts.dialect with
    | none => rfl
    | some header => exact bound_bind hsame hkeyed rfl header.1 header.2

/-- A document with records as arrays, a value in place of a text, a repeated key, a number out of
    range and an XML stuff. -/
def foreign : String :=
  "[\"1.0\",[[\"subject\",\x7b\"b\":[1,-2],\"a\":true,\"a\":null\x7d,\"string\"],"
    ++ "[\"pre\",4294967296,\"uint\"],[\"adv\",\"<x/>\",\"xml\"],[\"adv\",-7,\"long\"],"
    ++ "\x7b\"type\":\"obj\",\"literal\":\"json\",\"value\":[\x7b\x7d,18446744073709551615]\x7d],"
    ++ "\x7b\"name\":\"ChunkDialect\",\"tracker\":\"t\"\x7d]"

/-- In lenient mode the number and the XML stuff are left out. What is left, with the chunk that was
    bound, is read from its own document in strict mode. -/
theorem parse_canonical_foreign :
    let q := (ofChunks.parse foreign (some "peer")).primitive
    (ofChunks.parse foreign (some "peer")).error = none ∧
    (Json.read? foreign).all Json.integral = true ∧
    q.stuffs.toList = [.subject (.ofString "\x7b\"a\":null,\"b\":[1,-2]\x7d"),
      .objective { text := "[\x7b\x7d,18446744073709551615]", base := .json },
      .adverbial (.ofInt64 (-7))] ∧
    q.dialect.isSome = true ∧
    (strictOfChunks.parse (Document.text q) (some "peer")).error = none ∧
    (strictOfChunks.parse (Document.text q) (some "peer")).primitive = q := by
  intro q
  obtain ⟨hnone, hstuffs, hbound⟩ : (ofChunks.parse foreign (some "peer")).error = none ∧
      q.stuffs.toList = [.subject (.ofString "\x7b\"a\":null,\"b\":[1,-2]\x7d"),
        .objective { text := "[\x7b\x7d,18446744073709551615]", base := .json },
        .adverbial (.ofInt64 (-7))] ∧
      q.dialect.isSome = true := by
    decide +kernel
  have hintegral : (Json.read? foreign).all Json.integral = true := by decide +kernel
  have hfractions : ∀ stuff ∈ q.stuffs.toList, stuff.base ≠ .float ∧ stuff.base ≠ .double := by
    rw [hstuffs]
    decide
  have hkeyed : ∀ r, ofChunks.registry = some r → r.Keyed := by
    rintro r ⟨⟩
    exact Registry.keyed_empty.add .chunk
  obtain ⟨-, -, hagain⟩ := parse_canonical ofChunks foreign (some "peer") hnone
  obtain ⟨herror, -, hsame⟩ :=
    hagain ((Option.all_eq_true _ _).1 hintegral) hfractions strictOfChunks (some "peer")
  exact ⟨hnone, hintegral, hstuffs, hbound, herror, hsame rfl (fun _ => rfl) hkeyed⟩

end Codec

end Parley
