import Parley.Proofs.Wire.RoundTrip

/-! # The wire form is unambiguous

  The reader does not get every value back: behind a backslash without a partner it takes
  a byte for what it is not. The **writer loses nothing**, whatever backslashes a value
  has. In a value that was sent, a backslash stands right in front of each structural
  byte; so the first closing brace without one ends the stuff, the tag of the base in front
  of it has no colon, and the backslashes that were put in are known by the bytes behind them.

  * `escape_append_inj` finds the end of a value from the bytes alone.
  * `stuffBlock_append_inj` does so for a stuff, whatever follows.
  * `serialize_eq_iff` puts these together: two primitives are sent as the same bytes exactly
    when they have the same stuffs and the same header.
-/

namespace Parley

open Ascii

namespace Wire

/-! ## Section 1: The end of a value -/

/-- Bytes that mean nothing to the wire form. -/
def Plain (bs : Bytes) : Prop := ∀ b ∈ bs, b ≠ backslash ∧ isStructural b = false

theorem plain_cons {b : UInt8} {bs : Bytes} :
    Plain (b :: bs) ↔ (b ≠ backslash ∧ isStructural b = false) ∧ Plain bs :=
  List.forall_mem_cons

/-- The tag of a base is plain. -/
theorem plain_tag (base : Base) : Plain (Text.bytes base.tag) := by
  unfold Plain
  cases base <;> decide +kernel

/-- Plain bytes up to a closing brace have no brace in them. -/
theorem Plain.append_inj {xs ys rest rest' : Bytes} (hxs : Plain xs) (hys : Plain ys)
    (h : xs ++ closeBrace :: rest = ys ++ closeBrace :: rest') : xs = ys ∧ rest = rest' := by
  have hbrace : isStructural closeBrace = true := by decide
  induction xs generalizing ys with
  | nil =>
    cases ys with
    | nil => simpa using h
    | cons c ys =>
      -- the brace would be a plain byte
      obtain ⟨rfl, -⟩ := List.cons.inj h
      simp [plain_cons, hbrace] at hys
  | cons b xs ih =>
    cases ys with
    | nil =>
      obtain ⟨rfl, -⟩ := List.cons.inj h
      simp [plain_cons, hbrace] at hxs
    | cons c ys =>
      obtain ⟨rfl, hmore⟩ := List.cons.inj h
      obtain ⟨hsame, hrest⟩ := ih (plain_cons.1 hxs).2 (plain_cons.1 hys).2 hmore
      exact ⟨congrArg (b :: ·) hsame, hrest⟩

/-- A value that was sent does not begin with a structural byte, so one that stands there is
    the colon behind an empty value. -/
theorem structural_of_escape {b : UInt8} (hb : isStructural b = true) {v rest rest' : Bytes}
    (h : b :: rest = escape v ++ colon :: rest') : b = colon ∧ v = [] ∧ rest = rest' := by
  cases v with
  | nil =>
    obtain ⟨rfl, rfl⟩ := List.cons.inj h
    exact ⟨rfl, rfl, rfl⟩
  | cons c v =>
    rw [escape_cons] at h
    by_cases hc : isStructural c = true
    · rw [if_pos hc] at h
      obtain ⟨rfl, -⟩ := List.cons.inj h
      simp [isStructural_backslash] at hb
    · rw [if_neg hc] at h
      obtain ⟨rfl, -⟩ := List.cons.inj h
      exact absurd hb hc

/-- Behind plain bytes stands no closing brace where a value goes on to its colon: the first
    byte there that is not plain is a backslash or the colon. -/
theorem escape_ne_plain {base : Bytes} (hbase : Plain base) (v rest rest' : Bytes) :
    escape v ++ colon :: rest ≠ base ++ closeBrace :: rest' := by
  have hcolon : isStructural colon = true := by decide
  have hbrace : isStructural closeBrace = true := by decide
  intro h
  induction v generalizing base with
  | nil =>
    cases base with
    | nil => exact absurd (List.cons.inj h).1 (by decide)
    | cons c base =>
      obtain ⟨rfl, -⟩ := List.cons.inj h
      simp [plain_cons, hcolon] at hbase
  | cons b v ih =>
    rw [escape_cons] at h
    by_cases hb : isStructural b = true
    · -- the backslash in front of it is not plain, nor is it a brace
      rw [if_pos hb] at h
      cases base with
      | nil => exact absurd (List.cons.inj h).1 (by decide)
      | cons c base =>
        obtain ⟨rfl, -⟩ := List.cons.inj h
        simp [plain_cons] at hbase
    · rw [if_neg hb] at h
      cases base with
      | nil =>
        obtain ⟨rfl, -⟩ := List.cons.inj h
        exact hb hbrace
      | cons c base => exact ih (plain_cons.1 hbase).2 (List.cons.inj h).2

/-- A structural byte with its backslash is not taken for a backslash of the value: behind that
    the value would end, and the tag of a base follow. -/
theorem escape_structural_ne {b c : UInt8} (hb : isStructural b = true)
    (hc : ¬ isStructural c = true) {base : Bytes} (hbase : Plain base) (v w rest rest' : Bytes) :
    escape (b :: v) ++ colon :: rest ≠
      escape (c :: w) ++ colon :: (base ++ closeBrace :: rest') := by
  intro h
  rw [escape_cons, escape_cons, if_pos hb, if_neg hc] at h
  have hbehind : b :: (escape v ++ colon :: rest) =
      escape w ++ colon :: (base ++ closeBrace :: rest') := (List.cons.inj h).2
  obtain ⟨-, -, hrest⟩ := structural_of_escape hb hbehind
  exact escape_ne_plain hbase v rest rest' hrest

/-- **The end of a value is found from the bytes alone**, and so is the value: what is followed
    by a colon, plain bytes and a closing brace was escaped in one way only. -/
theorem escape_append_inj {v w base base' rest rest' : Bytes} (hbase : Plain base)
    (hbase' : Plain base')
    (h : escape v ++ colon :: (base ++ closeBrace :: rest) =
      escape w ++ colon :: (base' ++ closeBrace :: rest')) :
    v = w ∧ base = base' ∧ rest = rest' := by
  have hcolon : isStructural colon = true := by decide
  -- byte by byte; the values can only differ where one has a backslash of its own
  induction v generalizing w with
  | nil =>
    obtain ⟨-, rfl, hrest⟩ := structural_of_escape hcolon h
    exact ⟨rfl, hbase.append_inj hbase' hrest⟩
  | cons b v ih =>
    cases w with
    | nil =>
      obtain ⟨-, hnil, -⟩ := structural_of_escape hcolon h.symm
      cases hnil
    | cons c w =>
      by_cases hb : isStructural b = true
      · by_cases hc : isStructural c = true
        · rw [escape_cons, escape_cons, if_pos hb, if_pos hc] at h
          obtain ⟨rfl, hmore⟩ := List.cons.inj (List.cons.inj h).2
          obtain ⟨hsame, hrest⟩ := ih hmore
          exact ⟨congrArg (b :: ·) hsame, hrest⟩
        · exact absurd h (escape_structural_ne hb hc hbase' v w _ rest')
      · by_cases hc : isStructural c = true
        · exact absurd h.symm (escape_structural_ne hc hb hbase w v _ rest)
        · rw [escape_cons, escape_cons, if_neg hb, if_neg hc] at h
          obtain ⟨rfl, hmore⟩ := List.cons.inj h
          obtain ⟨hsame, hrest⟩ := ih hmore
          exact ⟨congrArg (b :: ·) hsame, hrest⟩

/-! ## Section 2: Stuffs -/

/-- The tags of all kinds have the same length. -/
theorem length_tag (kind : Kind) : (Text.bytes kind.tag).length = 3 := by
  cases kind <;> rfl

/-- The parts of a block, each with the byte that ends it. -/
theorem stuffBlock_append (stuff : Stuff) (rest : Bytes) :
    stuffBlock stuff ++ rest =
      openBrace :: (Text.bytes stuff.kind.tag ++ equals :: (escape (Text.bytes stuff.text) ++
        colon :: (Text.bytes stuff.base.tag ++ closeBrace :: rest))) := by
  simp [stuffBlock]

/-- **A stuff is told from its block**, whatever follows the block. -/
theorem stuffBlock_append_inj {s t : Stuff} {rest rest' : Bytes}
    (h : stuffBlock s ++ rest = stuffBlock t ++ rest') : s = t ∧ rest = rest' := by
  rw [stuffBlock_append, stuffBlock_append] at h
  obtain ⟨hkind, hbehind⟩ := List.append_inj (List.cons.inj h).2
    (by rw [length_tag, length_tag])
  obtain ⟨htext, hbase, hrest⟩ := escape_append_inj (plain_tag s.base) (plain_tag t.base)
    (List.cons.inj hbehind).2
  refine ⟨?_, hrest⟩
  have hkinds : s.kind = t.kind := by
    have hread := Kind.ofTag?_tag s.kind
    rw [hkind, Kind.ofTag?_tag] at hread
    exact (Option.some.inj hread).symm
  have hbases : s.base = t.base := by
    have hread := Base.ofTag?_tag s.base
    rw [hbase, Base.ofTag?_tag] at hread
    exact (Option.some.inj hread).symm
  obtain ⟨⟨text, base⟩, kind⟩ := s
  obtain ⟨⟨text', base'⟩, kind'⟩ := t
  obtain rfl : kind = kind' := hkinds
  obtain rfl : base = base' := hbases
  obtain rfl : text = text' := Text.bytes_inj.1 htext
  rfl

/-- Blocks of stuffs are told from what follows them, if that does not begin with a brace. -/
theorem stuffBlocks_append_inj {stuffs stuffs' : List Stuff} {rest rest' : Bytes}
    (hrest : rest.head? ≠ some openBrace) (hrest' : rest'.head? ≠ some openBrace)
    (h : stuffs.flatMap stuffBlock ++ rest = stuffs'.flatMap stuffBlock ++ rest') :
    stuffs = stuffs' ∧ rest = rest' := by
  have hfirst : ∀ (stuff : Stuff) (stuffs : List Stuff) (rest : Bytes),
      ((stuff :: stuffs).flatMap stuffBlock ++ rest).head? = some openBrace := by
    intro stuff stuffs rest
    simp [stuffBlock]
  induction stuffs generalizing stuffs' with
  | nil =>
    cases stuffs' with
    | nil => exact ⟨rfl, h⟩
    | cons stuff' stuffs' =>
      rw [show rest = _ from h, hfirst] at hrest
      exact absurd rfl hrest
  | cons stuff stuffs ih =>
    cases stuffs' with
    | nil =>
      rw [show rest' = _ from h.symm, hfirst] at hrest'
      exact absurd rfl hrest'
    | cons stuff' stuffs' =>
      rw [List.flatMap_cons, List.flatMap_cons, List.append_assoc, List.append_assoc] at h
      obtain ⟨rfl, hmore⟩ := stuffBlock_append_inj h
      obtain ⟨rfl, hsame⟩ := ih hmore
      exact ⟨rfl, hsame⟩

/-! ## Section 3: Primitives -/

variable {κ : Type}

/-- The header that a primitive is sent with, if it has a dialect. -/
def header? (p : Primitive κ) : Option Bytes :=
  p.dialect.map fun d => Text.bytes d.name ++ atSign :: Text.bytes d.tracker

/-- A header between its brackets. -/
def headerBlock : Option Bytes → Bytes
  | none => []
  | some header => openBracket :: header ++ [closeBracket]

theorem serialize_eq (p : Primitive κ) :
    serialize p =
      versionBlock ++ (p.stuffs.toList.flatMap stuffBlock ++ headerBlock (header? p)) := by
  unfold serialize header?
  rw [List.append_assoc]
  cases p.dialect with
  | none => rfl
  | some d => simp [headerBlock, dialectBlock]

theorem headerBlock_inj {header header' : Option Bytes}
    (h : headerBlock header = headerBlock header') : header = header' := by
  cases header <;> cases header' <;> simp_all [headerBlock]

/-- **The wire form is unambiguous.** Two primitives, whatever the backslashes in their values,
    are sent as the same bytes exactly when they have the same stuffs in every role and the
    same header. Without dialects there is no header, so then the stuffs alone decide. -/
theorem serialize_eq_iff (p q : Primitive κ) :
    serialize p = serialize q ↔
      (∀ kind, p.stuffs.of kind = q.stuffs.of kind) ∧ header? p = header? q := by
  have hbracket : ∀ header, (headerBlock header).head? ≠ some openBrace := by
    intro header
    cases header <;> simp [headerBlock, show openBracket ≠ openBrace by decide]
  constructor
  · intro h
    rw [serialize_eq, serialize_eq] at h
    obtain ⟨hstuffs, hheader⟩ := stuffBlocks_append_inj (hbracket _) (hbracket _)
      (List.append_cancel_left h)
    refine ⟨?_, headerBlock_inj hheader⟩
    -- the stuffs are those of their list
    have hsame := congrArg Stuffs.ofList hstuffs
    rw [Stuffs.ofList_toList, Stuffs.ofList_toList] at hsame
    intro kind
    rw [hsame]
  · rintro ⟨hstuffs, hheader⟩
    rw [serialize_eq, serialize_eq, Stuffs.ext_of hstuffs, hheader]

/-- One backslash in front of a brace and two of them are read as the same value, and yet they are
    sent as different bytes. -/
example :
    let p : Primitive Empty := { stuffs := .ofList [.subject (.ofString "\\\x7b")] }
    let q : Primitive Empty := { stuffs := .ofList [.subject (.ofString "\\\\\x7b")] }
    ((Codec.strict : Codec Empty).deserialize (serialize p) none).primitive.stuffs =
        ((Codec.strict : Codec Empty).deserialize (serialize q) none).primitive.stuffs ∧
      serialize p ≠ serialize q := by
  decide +kernel

end Wire

end Parley
