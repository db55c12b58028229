import Mathlib.Data.List.Basic
import Parley.Proofs.Document.Losses
import Parley.Proofs.Wire.JsonValues

/-! # What a strict reader takes of a document

  Whatever a maker has made goes into a document, XML apart, and a strict reader takes it out
  again, with **one exception**: fractions that are no numbers. JSON has no numbers for them, so a
  document has their text in the place of one, and a strict reader refuses a text there. What it
  has read before stays read.

  So each literal that a maker has made is of one of three sorts: left out of the document
  (`comeback?_xml`), refused (`comeback?_of_noNumber`), or read (`isSome_comeback?`).
-/

namespace Parley

/-! ## Section 1: What the makers make -/

/-- Literals made of anything: a text, a value, or XML text. -/
inductive Literal.Built : Literal → Prop where
  /-- A text, whatever its characters. -/
  | text (s : String) : Built (.ofString s)
  /-- A number, finite or not, a truth value, or a JSON value, however deep. -/
  | value {l : Literal} (h : l.OfValue) : Built l
  /-- XML text. -/
  | xml (s : String) : Built (.ofXml s)

/-- Literals made of a fraction that is no number: of an infinity, or of none at all. -/
inductive Literal.NoNumber : Literal → Prop where
  /-- Of 32 bits. -/
  | single {x : Single} (h : x.datum.isFinite = false) : NoNumber (.ofSingle x)
  /-- Of 64 bits. -/
  | double {x : Double} (h : x.datum.isFinite = false) : NoNumber (.ofDouble x)

namespace Document

variable {l : Literal}

/-- A JSON value stands in a document in some form, and every value is one of JSON. -/
theorem isSome_comeback?_ofJson (v : Json) : (comeback? (.ofJson v)).isSome = true := rfl

theorem comeback?_xml (h : l.base = .xml) : comeback? l = none := by
  unfold comeback? value?
  rw [h]
  rfl

/-- **What is no number is written as its text and refused.** -/
theorem comeback?_of_noNumber (h : l.NoNumber) :
    value? l = some (.string l.text) ∧ comeback? l = none := by
  have htext {x : Double} (hx : x.isFinite = false) (s : String) :
      (Json.ofDouble? x).getD (.string s) = .string s := by
    unfold Json.ofDouble?
    rw [dif_neg (by rw [hx]; exact Bool.false_ne_true)]
    rfl
  cases h with
  | @single x h =>
    obtain ⟨y, -, hfinite, hvalue⟩ := value?_fixed x.fits_datum (.inl rfl : Base.float = _ ∨ _)
    refine ⟨hvalue.trans ?_, ?_⟩
    · rw [htext (hfinite.trans h)]
      rfl
    · rw [comeback?_ofSingle, if_neg (by rw [h]; exact Bool.false_ne_true)]
  | @double x h =>
    obtain ⟨y, -, hfinite, hvalue⟩ := value?_fixed x.fits_datum (.inr rfl : Base.double = _ ∨ _)
    refine ⟨hvalue.trans ?_, ?_⟩
    · rw [htext (hfinite.trans h)]
      rfl
    · rw [comeback?_ofDouble, if_neg (by rw [h]; exact Bool.false_ne_true)]

/-- **All else that is made comes back**, XML apart. -/
theorem isSome_comeback? (h : l.Built) (hnumber : ¬ l.NoNumber) (hxml : l.base ≠ .xml) :
    (comeback? l).isSome = true := by
  have hstands {l : Literal} (h : l.Typed) : (comeback? l).isSome = true := by
    rw [comeback?_of_stands (stands_of_typed h)]
    rfl
  cases h with
  | text s => exact hstands (.string s)
  | xml s => exact absurd rfl hxml
  | value h =>
    cases h with
    | int32 n => exact hstands (.int32 n)
    | uint32 n => exact hstands (.uint32 n)
    | int64 n => exact hstands (.int64 n)
    | uint64 n => exact hstands (.uint64 n)
    | bool b => exact hstands (.bool b)
    | json v => exact isSome_comeback?_ofJson v
    | single x =>
      rw [comeback?_ofSingle]
      cases hfinite : x.datum.isFinite with
      | true => rfl
      | false => exact absurd (.single hfinite) hnumber
    | double x =>
      rw [comeback?_ofDouble]
      cases hfinite : x.datum.isFinite with
      | true => rfl
      | false => exact absurd (.double hfinite) hnumber

/-- **Of what is made, just what is no number is written and refused.** -/
theorem noNumber_iff (h : l.Built) :
    l.NoNumber ↔ l.base ≠ .xml ∧ (comeback? l).isSome = false := by
  constructor
  · intro hnumber
    refine ⟨?_, by rw [(comeback?_of_noNumber hnumber).2]; rfl⟩
    cases hnumber <;> exact Base.noConfusion
  · rintro ⟨hxml, hlost⟩
    by_contra hnumber
    rw [isSome_comeback? h hnumber hxml] at hlost
    cases hlost

/-- Of literals that are made, with numbers for numbers, those come back that are not XML. -/
theorem length_filterMap_comeback? {ls : List Literal}
    (h : ∀ l ∈ ls, l.Built ∧ ¬ l.NoNumber) :
    (ls.filterMap comeback?).length = (ls.filter fun l => l.base ≠ .xml).length := by
  have hsort : ∀ l ∈ ls, ((comeback? l).isSome = true ↔ decide (l.base ≠ .xml) = true) := by
    intro l hmem
    obtain ⟨hbuilt, hnumber⟩ := h l hmem
    rw [decide_eq_true_iff]
    refine ⟨fun hsome hxml => ?_, isSome_comeback? hbuilt hnumber⟩
    rw [comeback?_xml hxml] at hsome
    cases hsome
  rw [List.length_filterMap_eq_countP, List.countP_congr hsort, List.countP_eq_length_filter]

/-! ## Section 2: Entries in strict mode -/

/-- Entries behind others that have all been taken. -/
theorem commitEntries_append {mode : Mode} {s t : Stuffs} {before : List Entry}
    (h : commitEntries mode s before = (t, none)) (after : List Entry) :
    commitEntries mode s (before ++ after) = commitEntries mode t after := by
  induction before generalizing s with
  | nil =>
    cases h
    rfl
  | cons e before ih =>
    rw [commitEntries] at h
    rw [List.cons_append, commitEntries]
    cases hjudge : e.judge with
    | ok stuff =>
      rw [hjudge] at h
      exact ih h
    | error error =>
      rw [hjudge] at h
      dsimp only at h ⊢
      split at h
      · cases h
      · next hmode =>
        rw [if_neg hmode]
        exact ih h

/-- Entries are all taken if each has an echo. -/
theorem commitEntries_of_echoes (mode : Mode) (s : Stuffs) {stuffs : List Stuff}
    (h : ∀ stuff ∈ stuffs, entryOf? stuff ≠ none → echo? stuff ≠ none) :
    commitEntries mode s (stuffs.filterMap entryOf?) =
      (s.commitAll (stuffs.filterMap echo?), none) := by
  rcases commitEntries_entryOf mode s stuffs with hall | ⟨-, -, stuff, hmem, hentry, hecho⟩
  · exact hall
  · exact absurd hecho (h stuff hmem hentry)

/-- In strict mode the first entry without an echo ends the reading. -/
theorem commitEntries_stopped (s : Stuffs) {before : List Stuff} {x : Stuff} {e : Entry}
    (hbefore : ∀ stuff ∈ before, entryOf? stuff ≠ none → echo? stuff ≠ none)
    (hentry : entryOf? x = some e) (hecho : echo? x = none) (after : List Stuff) :
    commitEntries .strict s ((before ++ x :: after).filterMap entryOf?) =
      (s.commitAll (before.filterMap echo?), some (.invalidValue x.base e.value.compact)) := by
  have hjudge := judge_entryOf hentry
  rw [hecho] at hjudge
  rw [List.filterMap_append, commitEntries_append (commitEntries_of_echoes .strict s hbefore),
    List.filterMap_cons_some hentry]
  unfold commitEntries
  rw [hjudge]
  rfl

/-- A stuff that is made has an echo, unless it is no number or has no entry. -/
theorem echo?_ne_none {stuff : Stuff} (h : stuff.toLiteral.Built)
    (hnumber : ¬ stuff.toLiteral.NoNumber) (hentry : entryOf? stuff ≠ none) :
    echo? stuff ≠ none := by
  have hxml : stuff.base ≠ .xml := by
    intro hbase
    apply hentry
    unfold entryOf? value?
    rw [hbase]
    rfl
  obtain ⟨l, hl⟩ := Option.isSome_iff_exists.1 (isSome_comeback? h hnumber hxml)
  unfold echo?
  rw [hl]
  exact Option.some_ne_none _

/-- A fraction that is no number has an entry and no echo. -/
theorem echo?_of_noNumber {stuff : Stuff} (h : stuff.toLiteral.NoNumber) :
    entryOf? stuff =
        some { kind := stuff.kind.tag, value := .string stuff.text, base := stuff.base.tag } ∧
      echo? stuff = none := by
  obtain ⟨hvalue, hcomeback⟩ := comeback?_of_noNumber h
  unfold entryOf? echo?
  rw [hvalue, hcomeback]
  exact ⟨rfl, rfl⟩

/-- In strict mode a document is read up to its first entry without an echo. -/
theorem readDocument_stopped {κ : Type} [Content κ] {c : Codec κ} (hmode : c.mode = .strict)
    {p : Primitive κ} {before after : List Stuff} {x : Stuff} {e : Entry}
    (hlist : p.stuffs.toList = before ++ x :: after)
    (hbefore : ∀ stuff ∈ before, entryOf? stuff ≠ none → echo? stuff ≠ none)
    (hentry : entryOf? x = some e) (hecho : echo? x = none) (owner : Option String) :
    c.readDocument { owner } (ofPrimitive p) =
      { error := some (.invalidValue x.base e.value.compact)
        primitive := { stuffs := .ofList (before.filterMap echo?), owner }
        codec := c } := by
  unfold Codec.readDocument
  rw [parts?_ofPrimitive, hmode, hlist]
  dsimp only
  rw [commitEntries_stopped {} hbefore hentry hecho]
  rfl

end Document

/-! ## Section 3: Documents in strict mode -/

namespace Codec

open Document

variable {κ : Type} [Content κ]

/-- **A strict reader takes whatever was made, as long as its fractions are numbers.** The stuffs
    of a primitive have been made of any texts, numbers, truth values, JSON values and XML
    texts. If each number among them is finite, then its document is read without an error, and in
    every role there are as many stuffs as before, those of XML apart. If there are fractions that
    are no numbers, then the first of them ends the reading as an invalid value, since its text
    stands in the place of a number; the stuffs in front of it have been read. -/
theorem strict_reads_built (c : Codec κ) (hmode : c.mode = .strict) {p : Primitive κ}
    (h : ∀ stuff ∈ p.stuffs.toList, stuff.toLiteral.Built) (owner : Option String) :
    let r := c.readDocument { owner } (ofPrimitive p)
    ((∀ stuff ∈ p.stuffs.toList, ¬ stuff.toLiteral.NoNumber) →
      r.error = none ∧ ∀ kind, (r.primitive.stuffs.of kind).length =
        ((p.stuffs.of kind).filter fun l => l.base ≠ .xml).length) ∧
    (∀ before x after, p.stuffs.toList = before ++ x :: after →
      (∀ stuff ∈ before, ¬ stuff.toLiteral.NoNumber) → x.toLiteral.NoNumber →
      r.error = some (.invalidValue x.base (Json.string x.text).compact) ∧
        r.primitive.stuffs = .ofList (before.filterMap echo?)) := by
  intro r
  constructor
  · intro hnumber
    have hread : r = bound c
        { stuffs := Stuffs.ofList (p.stuffs.toList.filterMap echo?), owner } p.dialect := by
      rcases readDocument_ofPrimitive c p owner with hread | ⟨-, -, stuff, hmem, hentry, hecho⟩
      · exact hread
      · exact absurd hecho (echo?_ne_none (h stuff hmem) (hnumber stuff hmem) hentry)
    obtain ⟨herror, hstuffs, -⟩ := bound_keeps c
      { stuffs := Stuffs.ofList (p.stuffs.toList.filterMap echo?), owner } p.dialect
    rw [← hread] at herror hstuffs
    refine ⟨herror, fun kind => ?_⟩
    rw [hstuffs, ofList_echoes, Stuffs.of_ofRoles]
    apply length_filterMap_comeback?
    intro l hmem
    have hstuff : Stuff.ofLiteral kind l ∈ p.stuffs.toList := Stuffs.mem_toList.2 hmem
    exact ⟨h _ hstuff, hnumber _ hstuff⟩
  · intro before x after hlist hbefore hx
    obtain ⟨hentry, hecho⟩ := echo?_of_noNumber hx
    have hfront : ∀ stuff ∈ before, entryOf? stuff ≠ none → echo? stuff ≠ none := by
      intro stuff hmem
      refine echo?_ne_none (h stuff ?_) (hbefore stuff hmem)
      rw [hlist]
      exact List.mem_append_left _ hmem
    have hread : r = _ := readDocument_stopped hmode hlist hfront hentry hecho owner
    rw [hread]
    exact ⟨rfl, rfl⟩

/-- Stuffs of many makers: a text that reads like a fraction, XML, a JSON value with a fraction, a
    number, and a fraction that is to be filled in. -/
def mixed (x : Double) : Primitive Empty where
  stuffs := .ofList [.subject (.ofString "NaN"), .objective (.ofXml "<x/>"),
    .objective (.ofJson (.array [(Json.ofDouble? ⟨0x3FF8000000000000⟩).getD .null])),
    .adverbial (.ofUInt64 18446744073709551615), .complement (.ofDouble x)]

/-- A fraction that is a number, and one that is none. -/
theorem strict_reads_built_mixed :
    let c : Codec Empty := strict
    let quarter : Primitive Empty := mixed ⟨0x3FD0000000000000⟩
    let infinite : Primitive Empty := mixed ⟨0xFFF0000000000000⟩
    c.mode = .strict ∧
    (∀ stuff ∈ quarter.stuffs.toList, stuff.toLiteral.Built ∧ ¬ stuff.toLiteral.NoNumber) ∧
    (c.readDocument {} (ofPrimitive quarter)).error = none ∧
    ((c.readDocument {} (ofPrimitive quarter)).primitive.stuffs.of .objective).length = 1 ∧
    (∀ stuff ∈ infinite.stuffs.toList, stuff.toLiteral.Built) ∧
    (c.readDocument {} (ofPrimitive infinite)).error =
      some (.invalidValue .double "\"-inf\"") := by
  intro c quarter infinite
  have hlist (x : Double) : (mixed x).stuffs.toList = [.subject (.ofString "NaN"),
      .objective (.ofXml "<x/>"),
      .objective (.ofJson (.array [(Json.ofDouble? ⟨0x3FF8000000000000⟩).getD .null])),
      .adverbial (.ofUInt64 18446744073709551615), .complement (.ofDouble x)] := rfl
  have hmade (x : Double) : ∀ stuff ∈ (mixed x).stuffs.toList, stuff.toLiteral.Built := by
    rw [hlist]
    simp only [List.forall_mem_cons, List.not_mem_nil, false_imp_iff, implies_true, and_true]
    exact ⟨.text _, .xml _, .value (.json _), .value (.uint64 _), .value (.double x)⟩
  have hnumber : ∀ stuff ∈ quarter.stuffs.toList, ¬ stuff.toLiteral.NoNumber := by
    intro stuff hmem
    rw [noNumber_iff (hmade _ stuff hmem)]
    revert stuff
    decide +kernel
  obtain ⟨herror, hcount⟩ := (strict_reads_built c rfl (hmade _) none).1 hnumber
  have hfront : ∀ stuff ∈ quarter.stuffs.toList.take 4, ¬ stuff.toLiteral.NoNumber :=
    fun stuff hmem => hnumber stuff (List.mem_of_mem_take hmem)
  have hstopped := (strict_reads_built c rfl (hmade ⟨0xFFF0000000000000⟩) none).2 _ _ []
    (hlist _) hfront (.double (by decide +kernel))
  refine ⟨rfl, fun stuff hmem => ⟨hmade _ stuff hmem, hnumber stuff hmem⟩, herror, ?_,
    hmade _, hstopped.1.trans ?_⟩
  · rw [hcount]
    decide +kernel
  · decide +kernel

/-- A subject made of no number at all. -/
def undefinedSubject : Primitive Empty where
  stuffs := .ofList [.subject (.ofDouble ⟨0x7FF8000000000000⟩)]

/-- **Not all that is written is accepted**: a fraction may be no number. -/
theorem strict_refuses_undefined :
    (∀ stuff ∈ undefinedSubject.stuffs.toList, stuff.toLiteral.Built) ∧
    ((strict : Codec Empty).readDocument {} (ofPrimitive undefinedSubject)).error =
      some (.invalidValue .double "\"NaN\"") := by
  have hlist : undefinedSubject.stuffs.toList =
      [.subject (.ofDouble ⟨0x7FF8000000000000⟩)] := rfl
  constructor
  · intro stuff hmem
    rw [hlist] at hmem
    obtain rfl := List.mem_singleton.1 hmem
    exact .value (.double _)
  · decide +kernel

end Codec

end Parley
