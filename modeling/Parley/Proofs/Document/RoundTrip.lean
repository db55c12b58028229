import Mathlib.Data.List.Basic
import Parley.Proofs.Document.Entries
import Parley.Proofs.Json.Values
import Parley.Proofs.Wire.Actions

/-! # Documents, there and back

  A literal that one of the makers has made of a text, a word, a truth value or a JSON value
  goes into a document as a value of its own kind, and is read back by a reader of that kind:
  numbers as numbers of JSON, truth values as those of JSON, a JSON value as itself. Each of
  these pairs agrees, so a primitive of such literals is its own echo (`echo?_typed`); and its
  document is a value of integers, texts and ascending keys, so the text of it is read back
  too. Three levels of the document are its own, which leaves 124 to the values in it.
-/

namespace Parley

/-! ## Section 1: Literals with an echo -/

/-- Literals made of a text, a word, a truth value, or a JSON value in which every number is an
    integer and at most 124 arrays and objects lie inside one another. -/
inductive Literal.Typed : Literal → Prop where
  /-- A text, whatever its characters. -/
  | string (s : String) : Typed (.ofString s)
  /-- A signed 32-bit word. -/
  | int32 (n : Int32) : Typed (.ofInt32 n)
  /-- An unsigned 32-bit word. -/
  | uint32 (n : UInt32) : Typed (.ofUInt32 n)
  /-- A signed 64-bit word. -/
  | int64 (n : Int64) : Typed (.ofInt64 n)
  /-- An unsigned 64-bit word. -/
  | uint64 (n : UInt64) : Typed (.ofUInt64 n)
  /-- A truth value. -/
  | bool (b : Bool) : Typed (.ofBool b)
  /-- A JSON value. -/
  | json {v : Json} (h : v.Whole 124) : Typed (.ofJson v)

namespace Document

/-- A literal that is written as a whole value, from which its own text is read. -/
def Stands (l : Literal) : Prop :=
  ∃ v, value? l = some v ∧ Json.Whole 124 v ∧ canonical? l.base v = some l.text

/-- The text of a signed word, in a literal of any base, is written as its number. -/
theorem asInt64?_decimal (n : Int64) (base : Base) :
    Literal.asInt64? { text := Text.decimal n.toInt, base } = some n := by
  show Text.int64? (Text.decimal n.toInt) = some n
  rw [Text.int64?_decimal n.minValue_le_toInt n.toInt_le, Int64.ofInt_toInt]

theorem stands_int64 (n : Int64) : Stands (.ofInt64 n) := by
  refine ⟨.ofInt64 n, ?_, .integer _, ?_⟩
  · show some ((Literal.asInt64? (.ofInt64 n)).map Json.ofInt64 |>.getD _) = _
    rw [Literal.ofInt64, asInt64?_decimal]
    rfl
  · have hread : (Json.ofInt64 n).asInt64? = some n := by
      have hhigh : n.toInt < 9223372036854775808 := n.toInt_lt
      show (if n.toInt < 9223372036854775808 then some (Int64.ofInt n.toInt) else none) = some n
      rw [if_pos hhigh, Int64.ofInt_toInt]
    show ((Json.ofInt64 n).asInt64?.map fun n => (Literal.ofInt64 n).text) = _
    rw [hread]
    rfl

theorem stands_int32 (n : Int32) : Stands (.ofInt32 n) := by
  have hwide : Literal.ofInt32 n = { text := Text.decimal n.toInt64.toInt, base := .int } := by
    rw [Int32.toInt_toInt64]
    rfl
  refine ⟨.ofInt64 n.toInt64, ?_, .integer _, ?_⟩
  · show some ((Literal.asInt64? (.ofInt32 n)).map Json.ofInt64 |>.getD _) = _
    rw [hwide, asInt64?_decimal]
    rfl
  · have hread : (Json.ofInt64 n.toInt64).asInt32? = some n := by
      show (if -2147483648 ≤ n.toInt64.toInt ∧ n.toInt64.toInt < 2147483648 then
        some (Int32.ofInt n.toInt64.toInt) else none) = some n
      rw [Int32.toInt_toInt64, if_pos ⟨n.le_toInt, n.toInt_lt⟩, Int32.ofInt_toInt]
    show ((Json.ofInt64 n.toInt64).asInt32?.map fun n => (Literal.ofInt32 n).text) = _
    rw [hread]
    rfl

theorem stands_uint64 (n : UInt64) : Stands (.ofUInt64 n) := by
  refine ⟨.ofUInt64 n, ?_, .integer _, ?_⟩
  · show some ((Literal.asUInt64? (.ofUInt64 n)).map Json.ofUInt64 |>.getD _) = _
    rw [Literal.asUInt64?_ofUInt64]
    rfl
  · have hread : (Json.ofUInt64 n).asUInt64? = some n := by
      show (if (0 : Int) ≤ n.toNat then some (UInt64.ofNat (n.toNat : Int).toNat)
        else none) = some n
      rw [if_pos (Int.natCast_nonneg _), Int.toNat_natCast, UInt64.ofNat_toNat]
    show ((Json.ofUInt64 n).asUInt64?.map fun n => (Literal.ofUInt64 n).text) = _
    rw [hread]
    rfl

theorem stands_uint32 (n : UInt32) : Stands (.ofUInt32 n) := by
  have hwide : Literal.asUInt64? (.ofUInt32 n) = some n.toUInt64 := by
    show Text.uint64? (Text.decimal n.toNat) = some n.toUInt64
    rw [← UInt32.toNat_toUInt64, Text.uint64?_decimal]
  refine ⟨.ofUInt64 n.toUInt64, ?_, .integer _, ?_⟩
  · show some ((Literal.asUInt64? (.ofUInt32 n)).map Json.ofUInt64 |>.getD _) = _
    rw [hwide]
    rfl
  · have hread : (Json.ofUInt64 n.toUInt64).asUInt32? = some n := by
      have hhigh : n.toNat < 4294967296 := n.toNat_lt
      have hinteger : (Json.ofUInt64 n.toUInt64).asInteger? = some (n.toNat : Int) := by
        show some (n.toUInt64.toNat : Int) = _
        rw [UInt32.toNat_toUInt64]
      unfold Json.asUInt32?
      rw [hinteger, Option.bind_some, if_pos ⟨Int.natCast_nonneg _, by omega⟩, Int.toNat_natCast,
        UInt32.ofNat_toNat]
    show ((Json.ofUInt64 n.toUInt64).asUInt32?.map fun n => (Literal.ofUInt32 n).text) = _
    rw [hread]
    rfl

theorem stands_json {v : Json} (h : v.Whole 124) : Stands (.ofJson v) := by
  refine ⟨v, ?_, h, rfl⟩
  show some ((Json.read? v.compact).getD _) = some v
  rw [h.read?_compact (by decide)]
  rfl

/-- **What the makers make stands in a document.** -/
theorem stands_of_typed {l : Literal} (h : l.Typed) : Stands l := by
  cases h with
  | string s => exact ⟨.string s, rfl, .string s, rfl⟩
  | int32 n => exact stands_int32 n
  | uint32 n => exact stands_uint32 n
  | int64 n => exact stands_int64 n
  | uint64 n => exact stands_uint64 n
  | bool b => exact ⟨.bool b, by cases b <;> rfl, .bool b, rfl⟩
  | json h => exact stands_json h

/-- What stands in a document comes back as it was. -/
theorem comeback?_of_stands {l : Literal} (h : Stands l) : comeback? l = some l := by
  obtain ⟨v, hv, -, hcanonical⟩ := h
  unfold comeback?
  rw [hv, Option.bind_some, hcanonical]
  rfl

theorem echo?_of_stands {s : Stuff} (h : Stands s.toLiteral) : echo? s = some s := by
  unfold echo?
  rw [comeback?_of_stands h]
  rfl

/-! ## Section 2: The document as a value -/

/-- The item of a stuff that stands in a document. -/
theorem whole_item {s : Stuff} (h : Stands s.toLiteral) {item : Json}
    (hitem : ofStuff? s = some item) : Json.Whole 125 item := by
  obtain ⟨v, hv, hwhole, -⟩ := h
  unfold ofStuff? at hitem
  rw [hv] at hitem
  obtain rfl := Option.some.inj hitem
  refine .object (Json.ascending_of_keys ?_) ?_
  · show ["literal", "type", "value"].Pairwise (· < ·)
    decide
  · simp only [List.forall_mem_cons, List.not_mem_nil, false_imp_iff, implies_true, and_true]
    exact ⟨.string _, .string _, hwhole⟩

theorem whole_ofDialect (n : Nat) (name tracker : String) :
    Json.Whole (n + 1) (ofDialect name tracker) := by
  refine .object (Json.ascending_of_keys ?_) ?_
  · show ["name", "tracker"].Pairwise (· < ·)
    decide
  · simp only [List.forall_mem_cons, List.not_mem_nil, false_imp_iff, implies_true, and_true]
    exact ⟨.string _, .string _⟩

/-- **A document is a whole value**, with three levels of its own. -/
theorem whole_ofPrimitive {κ : Type} {p : Primitive κ}
    (h : ∀ stuff ∈ p.stuffs.toList, Stands stuff.toLiteral) : Json.Whole 127 (ofPrimitive p) := by
  have hstuffs : Json.Whole 126 (.array (p.stuffs.toList.filterMap ofStuff?)) := by
    refine .array fun item hitem => ?_
    obtain ⟨stuff, hmem, hstuff⟩ := List.mem_filterMap.1 hitem
    exact whole_item (h stuff hmem) hstuff
  unfold ofPrimitive
  cases p.dialect with
  | none =>
    refine .object (Json.ascending_of_keys ?_) ?_
    · show ["stuffs", "version"].Pairwise (· < ·)
      decide
    · simp only [Option.map_none, Option.toList_none, List.nil_append, List.forall_mem_cons,
        List.not_mem_nil, false_imp_iff, implies_true, and_true]
      exact ⟨hstuffs, .string _⟩
  | some d =>
    refine .object (Json.ascending_of_keys ?_) ?_
    · show ["dialect", "stuffs", "version"].Pairwise (· < ·)
      decide
    · simp only [Option.map_some, Option.toList_some, List.singleton_append, List.forall_mem_cons,
        List.not_mem_nil, false_imp_iff, implies_true, and_true]
      exact ⟨whole_ofDialect 125 d.name d.tracker, hstuffs, .string _⟩

end Document

/-! ## Section 3: Reading a document back -/

theorem Action.eq_of_translate? {a : Action} {s : Stuffs} (h : a.translate? = some s) :
    s = a.stuffs := (translate?_eq_some_iff.1 h).2

/-- An action is of typed literals if its values are. -/
theorem Action.typed_stuffs {a : Action} (h : ∀ param ∈ a.params, param.2.Typed) :
    ∀ stuff ∈ a.stuffs.toList, stuff.toLiteral.Typed := by
  rintro ⟨l, kind⟩ hmem
  rw [Stuffs.mem_toList] at hmem
  cases kind with
  | subject =>
    obtain ⟨param, -, rfl⟩ := List.mem_map.1 hmem
    exact .string param.1
  | objective =>
    obtain ⟨param, hparam, rfl⟩ := List.mem_map.1 hmem
    exact h param hparam
  | predicate =>
    obtain rfl := List.mem_singleton.1 hmem
    exact .string a.action
  | attributive => cases hmem
  | adverbial => cases hmem
  | complement => cases hmem

/-- A chunk is of typed literals. -/
theorem Chunk.typed_stuffs (k : Chunk) : ∀ stuff ∈ k.stuffs.toList, stuff.toLiteral.Typed := by
  rintro ⟨l, kind⟩ hmem
  rw [Stuffs.mem_toList] at hmem
  cases kind with
  | subject =>
    obtain rfl | rfl | rfl : l = _ ∨ l = _ ∨ l = _ := by simpa [Stuffs.of, stuffs] using hmem
    · exact .string k.sign
    · exact .uint32 k.index
    · exact .uint32 k.num
  | objective =>
    obtain rfl | rfl | rfl : l = _ ∨ l = _ ∨ l = _ := by simpa [Stuffs.of, stuffs] using hmem
    · exact .string _
    · exact .uint64 _
    · exact .uint64 k.total
  | predicate => cases hmem
  | attributive => cases hmem
  | adverbial => cases hmem
  | complement => cases hmem

theorem Chunk.eq_of_translate? {k : Chunk} {s : Stuffs} (h : k.translate? = some s) :
    s = k.stuffs := by
  unfold translate? at h
  split at h
  · cases h
  · exact (Option.some.inj h).symm

variable {κ : Type} [Content κ]

/-- The stuffs and the dialect of a primitive that was made of a dialect. -/
theorem Primitive.of_ofDialect? {d : Dialect κ} {p : Primitive κ} (h : ofDialect? d = some p) :
    d.translate? = some p.stuffs ∧ p.dialect = some d := by
  obtain ⟨stuffs, hstuffs, rfl⟩ := Option.map_eq_some_iff.1 h
  exact ⟨hstuffs, rfl⟩

/-- An action that has a name can be sent. -/
theorem Action.ofDialect?_primitive {a : Action} (h : a.action ≠ "") :
    Primitive.ofDialect? (.action a : Dialect κ) = some a.primitive := by
  show a.translate?.map _ = _
  rw [translate?_of_action h]
  rfl

namespace Codec

open Document

/-- The text of a document is read as the document. -/
theorem parse_text (c : Codec κ) {p : Primitive κ}
    (h : ∀ stuff ∈ p.stuffs.toList, Stands stuff.toLiteral) (owner : Option String) :
    c.parse (Document.text p) owner = c.readDocument { owner } (ofPrimitive p) := by
  unfold parse Document.text
  rw [(whole_ofPrimitive h).read?_pretty (by decide)]

/-- So is the text with a line feed behind it. -/
theorem parse_text_line (c : Codec κ) {p : Primitive κ}
    (h : ∀ stuff ∈ p.stuffs.toList, Stands stuff.toLiteral) (owner : Option String) :
    c.parse (Document.text p ++ "\n") owner = c.readDocument { owner } (ofPrimitive p) := by
  unfold parse Document.text
  rw [(whole_ofPrimitive h).read?_pretty_line (by decide)]

/-- The document of stuffs that stand in it is read as those stuffs, and its dialect is bound
    again. -/
theorem readDocument_of_stands (c : Codec κ) {p : Primitive κ}
    (h : ∀ stuff ∈ p.stuffs.toList, Stands stuff.toLiteral) (owner : Option String) :
    c.readDocument { owner } (ofPrimitive p) = bound c { stuffs := p.stuffs, owner } p.dialect := by
  have hechoes : p.stuffs.toList.filterMap echo? = p.stuffs.toList := by
    rw [List.filterMap_congr fun stuff hmem => echo?_of_stands (h stuff hmem), List.filterMap_some]
  rcases readDocument_ofPrimitive c p owner with hread | ⟨-, -, stuff, hmem, -, hnone⟩
  · rw [hread, hechoes, Stuffs.ofList_toList]
  · rw [echo?_of_stands (h stuff hmem)] at hnone
    cases hnone

/-- **A document of typed literals is read back as it was**, in either mode, whatever is in the
    texts and keys, and however deep the JSON values nest up to 124. If the document is of an
    action or a chunk, and the reader knows these, then it is built again: with the tracker and
    the contents that it had, and owned by the peer that the document came from. -/
theorem parse_text_of_typed (c : Codec κ) {p : Primitive κ}
    (h : ∀ stuff ∈ p.stuffs.toList, stuff.toLiteral.Typed) (owner : Option String) :
    let r := c.parse (Document.text p) owner
    r.error = none ∧ r.primitive.stuffs = p.stuffs ∧ r.primitive.owner = owner ∧
      (p.dialect = none → r.primitive.dialect = none) ∧
      (∀ a : Action, Primitive.ofDialect? (.action a) = some p →
        c.factory? Action.dialectName = some .action →
        r.primitive.dialect = some (.action
          { info := { tracker := a.info.tracker, owner }
            action := a.action, params := a.params })) ∧
      (∀ k : Chunk, Primitive.ofDialect? (.chunk k) = some p →
        k.length ≤ k.data.length → k.length < UInt64.size →
        c.factory? Chunk.dialectName = some .chunk →
        r.primitive.dialect = some (.chunk
          { k with info := { tracker := k.info.tracker, owner }, data := k.payload })) := by
  intro r
  have hstands : ∀ stuff ∈ p.stuffs.toList, Stands stuff.toLiteral := fun stuff hmem =>
    stands_of_typed (h stuff hmem)
  have hread : r = bound c { stuffs := p.stuffs, owner } p.dialect :=
    (c.parse_text hstands owner).trans (c.readDocument_of_stands hstands owner)
  have hbound : ∀ d, p.dialect = some d →
      r = c.bind { stuffs := p.stuffs, owner } d.name d.tracker := by
    intro d hd
    rw [hread, hd, bound]
  have hkeeps : r.error = none ∧ r.primitive.stuffs = p.stuffs ∧ r.primitive.owner = owner := by
    cases hdialect : p.dialect with
    | none =>
      rw [hread, hdialect]
      exact ⟨rfl, rfl, rfl⟩
    | some d =>
      rw [hbound d hdialect]
      exact c.bind_keeps _ d.name d.tracker
  refine ⟨hkeeps.1, hkeeps.2.1, hkeeps.2.2, ?_, ?_, ?_⟩
  · intro hdialect
    rw [hread, hdialect, bound]
  · intro a hp hfactory
    obtain ⟨hstuffs, hdialect⟩ := Primitive.of_ofDialect? hp
    rw [hbound _ hdialect, Action.eq_of_translate? hstuffs]
    show (c.bind _ Action.dialectName a.info.tracker).primitive.dialect = _
    rw [bind_of_some hfactory, Factory.fill_action, Action.build_stuffs]
    rfl
  · intro k hp hlength hsize hfactory
    obtain ⟨hstuffs, hdialect⟩ := Primitive.of_ofDialect? hp
    rw [hbound _ hdialect, Chunk.eq_of_translate? hstuffs]
    show (c.bind _ Chunk.dialectName k.info.tracker).primitive.dialect = _
    rw [bind_of_some hfactory, Factory.fill_chunk, Chunk.build_stuffs hsize hlength]
    rfl

/-- An action with a control character in its name, an escaped name, a word below zero and a JSON
    value of two levels. -/
def synced : Action where
  info := { tracker := "t\"1" }
  action := "sync\n"
  params :=
    [("\\u0000", .ofInt32 (-2147483648)),
      ("k", .ofJson (.object [("", .array [.null, .bool true]), ("é", .string "\u0007")]))]

/-- A chunk of three bytes. -/
def sentChunk : Chunk := Chunk.make "f" 3 0 1 [0, 255, 10]

theorem parse_text_of_typed_synced :
    (∃ p : Primitive Empty, Primitive.ofDialect? (.action synced) = some p ∧
      (∀ stuff ∈ p.stuffs.toList, stuff.toLiteral.Typed) ∧
      ofActions.factory? Action.dialectName = some .action ∧
      (ofActions.parse (Document.text p) (some "peer")).error = none ∧
      (ofActions.parse (Document.text p) (some "peer")).primitive.dialect =
        some (.action { synced with info := { tracker := "t\"1", owner := some "peer" } })) ∧
    (∃ p : Primitive Empty, Primitive.ofDialect? (.chunk sentChunk) = some p ∧
      (∀ stuff ∈ p.stuffs.toList, stuff.toLiteral.Typed) ∧
      sentChunk.length ≤ sentChunk.data.length ∧ sentChunk.length < UInt64.size ∧
      ofChunks.factory? Chunk.dialectName = some .chunk ∧
      (ofChunks.parse (Document.text p) none).primitive.dialect = some (.chunk sentChunk)) := by
  have hactions : ofActions.factory? Action.dialectName = some .action :=
    Registry.factory?_add {} .action
  have hchunks : ofChunks.factory? Chunk.dialectName = some .chunk :=
    Registry.factory?_add {} .chunk
  have hnested : Json.Whole 124
      (.object [("", .array [.null, .bool true]), ("é", .string "\u0007")]) := by
    refine .object (Json.ascending_of_keys (by decide)) ?_
    simp only [List.forall_mem_cons, List.not_mem_nil, false_imp_iff, implies_true, and_true]
    refine ⟨.array ?_, .string _⟩
    simp only [List.forall_mem_cons, List.not_mem_nil, false_imp_iff, implies_true, and_true]
    exact ⟨.null, .bool true⟩
  have hparams : ∀ param ∈ synced.params, param.2.Typed := by
    simp only [synced, List.forall_mem_cons, List.not_mem_nil, false_imp_iff, implies_true,
      and_true]
    exact ⟨.int32 _, .json hnested⟩
  have hlength : sentChunk.length ≤ sentChunk.data.length := Nat.le_refl 3
  have hsize : sentChunk.length < UInt64.size := by
    show 3 < 18446744073709551616
    omega
  have hp : Primitive.ofDialect? (.action synced : Dialect Empty) = some synced.primitive :=
    Action.ofDialect?_primitive (by decide)
  have hq : Primitive.ofDialect? (.chunk sentChunk : Dialect Empty) =
      some { stuffs := sentChunk.stuffs, dialect := some (.chunk sentChunk) } := by
    show sentChunk.translate?.map _ = _
    rw [Chunk.translate?_of_sign (by decide)]
    rfl
  have htyped := Action.typed_stuffs hparams
  have hchunk := Chunk.typed_stuffs sentChunk
  obtain ⟨herror, -, -, -, haction, -⟩ :=
    parse_text_of_typed ofActions (p := synced.primitive) htyped (some "peer")
  obtain ⟨-, -, -, -, -, hk⟩ := parse_text_of_typed ofChunks
    (p := { stuffs := sentChunk.stuffs, dialect := some (.chunk sentChunk) }) hchunk none
  exact ⟨⟨_, hp, htyped, hactions, herror, haction synced hp hactions⟩,
    ⟨_, hq, hchunk, hlength, hsize, hchunks, hk sentChunk hq hlength hsize hchunks⟩⟩

end Codec

end Parley
