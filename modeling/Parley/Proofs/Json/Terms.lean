import Parley.Json.Printer
import Parley.Json.Term
import Parley.Proofs.Json.Integers

/-! # Terms, read back

  A value is written in a compact and in a pretty form, which differ in their blanks alone. The
  reader is told what follows a term only by what it finds there, so each statement is about
  bytes with **anything behind them** that does not go on with a number; and it bounds its own
  depth by its fuel, of which every byte brings one.

  What both forms are taken apart into is the **term** of the value: its words, its texts and
  its integers, and its fields in the order in which it holds them. So a reader of terms finds
  them all, whatever it makes of them.
-/

namespace Parley.Json

open Ascii

/-! ## Section 1: The term of a value -/

mutual

/-- Whether every number in a value is an integer that fits 64 bits. A negative zero is none. -/
def integral : Json → Bool
  | .number (.real _) => false
  | .array items => integralItems items
  | .object fields => integralFields fields
  | _ => true

/-- Whether all items are such values. -/
def integralItems : List Json → Bool
  | [] => true
  | v :: vs => integral v && integralItems vs

/-- Whether the values of all fields are such values. -/
def integralFields : List (String × Json) → Bool
  | [] => true
  | (_, v) :: fs => integral v && integralFields fs

end

theorem integralItems_iff {items : List Json} :
    integralItems items = true ↔ ∀ v ∈ items, v.integral = true := by
  induction items with
  | nil => simp [integralItems]
  | cons v vs ih => simp [integralItems, ih]

theorem integralFields_iff {fields : List (String × Json)} :
    integralFields fields = true ↔ ∀ field ∈ fields, field.2.integral = true := by
  induction fields with
  | nil => simp [integralFields]
  | cons field fields ih => simp [integralFields, ih]

/-- The digits that a number is written with, taken apart. Those of a fraction are what a reader
    takes them for. -/
def Number.lexeme : Number → Lexeme
  | .integer i => i.lexeme
  | .real x =>
    ((Term.number? (Text.utf8 (Number.real x).chars)).map Prod.fst).getD
      { negative := false, whole := [], fraction := none, exponent := none }

mutual

/-- What a value is written as, taken apart. -/
def term : Json → Term
  | .null => .null
  | .bool b => .bool b
  | .number n => .number n.lexeme
  | .string s => .string (Text.bytes s)
  | .array items => .array (terms items)
  | .object fields => .object (fieldTerms fields)

/-- The terms of items. -/
def terms : List Json → List Term
  | [] => []
  | v :: vs => term v :: terms vs

/-- The terms of fields, under the bytes of their keys. -/
def fieldTerms : List (String × Json) → List (Bytes × Term)
  | [] => []
  | (key, v) :: fs => (Text.bytes key, term v) :: fieldTerms fs

end

theorem terms_eq_map (items : List Json) : terms items = items.map term := by
  induction items with
  | nil => rfl
  | cons v vs ih => rw [terms, ih, List.map_cons]

theorem fieldTerms_eq_map (fields : List (String × Json)) :
    fieldTerms fields = fields.map fun field => (Text.bytes field.1, field.2.term) := by
  induction fields with
  | nil => rfl
  | cons field fs ih => rw [fieldTerms, ih, List.map_cons]

namespace Term

/-! ## Section 2: What bytes are read as -/

/-- Only blanks. -/
def Blank (bs : Bytes) : Prop := ∀ b ∈ bs, isBlank b = true

/-- The bytes are read as a term, whatever follows them. -/
def Spells (bs : Bytes) (t : Term) : Prop :=
  ∀ fuel rest, bs.length < fuel → EndsNumber rest → read? fuel (bs ++ rest) = some (t, rest)

/-- The fuel for some bytes, even for none, is fuel for one step of the reader. -/
theorem Spells.of_step {bs : Bytes} {t : Term}
    (h : ∀ fuel rest, bs.length ≤ fuel → EndsNumber rest →
      read? (fuel + 1) (bs ++ rest) = some (t, rest)) : Spells bs t := by
  intro fuel rest hfuel hrest
  obtain ⟨fuel, rfl⟩ : ∃ k, fuel = k + 1 := ⟨fuel - 1, by omega⟩
  exact h fuel rest (Nat.le_of_lt_succ hfuel) hrest

/-- The bytes are read as items, up to the bracket behind them. -/
def SpellsItems (bs : Bytes) (ts : List Term) : Prop :=
  ∀ fuel rest, bs.length < fuel → items? fuel (bs ++ rest) = some (ts, rest)

/-- The bytes are a key with a term behind it. -/
def SpellsField (bs : Bytes) (key : String) (t : Term) : Prop :=
  ∃ lead inside, bs = lead ++ Text.utf8 (quoted key) ++ colon :: inside ∧ Blank lead ∧
    Spells inside t

/-- The bytes are read as fields, up to the brace behind them. -/
def SpellsFields (bs : Bytes) (fs : List (Bytes × Term)) : Prop :=
  ∀ fuel rest, bs.length < fuel → fields? fuel (bs ++ rest) = some (fs, rest)

/-! ## Section 3: Blanks -/

theorem skip_append {blanks : Bytes} (h : Blank blanks) (bs : Bytes) :
    skip (blanks ++ bs) = skip bs := by
  unfold skip
  induction blanks with
  | nil => rfl
  | cons b blanks ih =>
    rw [List.cons_append, List.dropWhile_cons_of_pos (h b List.mem_cons_self)]
    exact ih fun b' hmem => h b' (List.mem_cons_of_mem b hmem)

theorem skip_cons {b : UInt8} (h : isBlank b = false) (bs : Bytes) : skip (b :: bs) = b :: bs :=
  List.dropWhile_cons_of_neg (by rw [h]; exact Bool.noConfusion)

theorem skip_skip (bs : Bytes) : skip (skip bs) = skip bs := by
  unfold skip
  induction bs with
  | nil => rfl
  | cons b bs ih =>
    by_cases hb : isBlank b = true
    · rwa [List.dropWhile_cons_of_pos hb]
    · rw [List.dropWhile_cons_of_neg hb, List.dropWhile_cons_of_neg hb]

/-- A reader of one term passes over the blanks in front. -/
theorem read?_skip (fuel : Nat) (bs : Bytes) : read? fuel (skip bs) = read? fuel bs := by
  cases fuel with
  | zero => rfl
  | succ fuel =>
    unfold read?
    rw [skip_skip]

theorem items?_skip (fuel : Nat) (bs : Bytes) : items? fuel (skip bs) = items? fuel bs := by
  cases fuel with
  | zero => rfl
  | succ fuel =>
    unfold items?
    rw [read?_skip]

theorem fields?_skip (fuel : Nat) (bs : Bytes) : fields? fuel (skip bs) = fields? fuel bs := by
  cases fuel with
  | zero => rfl
  | succ fuel =>
    unfold fields?
    rw [skip_skip]

/-- A number ends before blanks. -/
theorem endsNumber_append {blanks rest : Bytes} (h : Blank blanks) (hrest : EndsNumber rest) :
    EndsNumber (blanks ++ rest) := by
  have hblank {b : UInt8} (hb : isBlank b = true) :
      digit? b = none ∧ b ≠ 0x2E ∧ b ≠ 0x65 ∧ b ≠ 0x45 := by
    simp only [isBlank, Bool.or_eq_true, beq_iff_eq] at hb
    rcases hb with ((rfl | rfl) | rfl) | rfl <;> decide
  cases blanks with
  | nil => exact hrest
  | cons b blanks =>
    intro b' hb'
    cases hb'
    exact hblank (h b List.mem_cons_self)

theorem Spells.blanks {blanks bs : Bytes} {t : Term} (h : Blank blanks) (hspells : Spells bs t) :
    Spells (blanks ++ bs) t := by
  intro fuel rest hfuel hrest
  have hshort : bs.length < fuel := by
    rw [List.length_append] at hfuel
    omega
  have hskip : read? fuel (blanks ++ bs ++ rest) = read? fuel (bs ++ rest) := by
    rw [← read?_skip, List.append_assoc, skip_append h, read?_skip]
  rw [hskip]
  exact hspells fuel rest hshort hrest

/-! ## Section 4: Arrays and objects -/

/-- Items do not begin with the closing bracket. -/
theorem skip_ne_closeBracket {fuel : Nat} {bs : Bytes} {found : List Term × Bytes}
    (h : items? fuel bs = some found) (rest : Bytes) : skip bs ≠ closeBracket :: rest := by
  intro hskip
  rw [← items?_skip, hskip] at h
  -- no term begins with the bracket
  cases fuel with
  | zero => cases h
  | succ fuel =>
    cases fuel with
    | zero => cases h
    | succ fuel => cases h

theorem skip_ne_closeBrace {fuel : Nat} {bs : Bytes} {found : List (Bytes × Term) × Bytes}
    (h : fields? fuel bs = some found) (rest : Bytes) : skip bs ≠ closeBrace :: rest := by
  intro hskip
  rw [← fields?_skip, hskip] at h
  cases fuel with
  | zero => cases h
  | succ fuel => cases h

theorem read?_array {fuel : Nat} {bs rest : Bytes} {ts : List Term}
    (h : items? fuel bs = some (ts, rest)) :
    read? (fuel + 1) (openBracket :: bs) = some (.array ts, rest) := by
  unfold read?
  rw [skip_cons rfl]
  -- of the bytes that open a term this is the second
  split
  · next heq => exact absurd (List.cons.inj heq).1 (by decide)
  · next rest' heq =>
    obtain rfl := (List.cons.inj heq).2
    split
    · next rest'' hclose => exact absurd hclose (skip_ne_closeBracket h rest'')
    · rw [items?_skip, h]
      rfl
  · next heq => exact absurd (List.cons.inj heq).1 (by decide)
  · next hother _ => exact absurd rfl (hother bs)

theorem read?_object {fuel : Nat} {bs rest : Bytes} {fs : List (Bytes × Term)}
    (h : fields? fuel bs = some (fs, rest)) :
    read? (fuel + 1) (openBrace :: bs) = some (.object fs, rest) := by
  unfold read?
  rw [skip_cons rfl]
  split
  · next heq => exact absurd (List.cons.inj heq).1 (by decide)
  · next heq => exact absurd (List.cons.inj heq).1 (by decide)
  · next rest' heq =>
    obtain rfl := (List.cons.inj heq).2
    split
    · next rest'' hclose => exact absurd hclose (skip_ne_closeBrace h rest'')
    · rw [fields?_skip, h]
      rfl
  · next hother => exact absurd rfl (hother bs)

theorem Spells.array {bs : Bytes} {ts : List Term} (h : SpellsItems bs ts) :
    Spells (openBracket :: bs) (.array ts) := by
  apply Spells.of_step
  intro fuel rest hfuel _
  exact read?_array (h fuel rest hfuel)

/-- The last item, and the bracket behind it. -/
theorem SpellsItems.last {bs blanks : Bytes} {t : Term} (h : Spells bs t)
    (hblanks : Blank blanks) : SpellsItems (bs ++ (blanks ++ [closeBracket])) [t] := by
  intro fuel rest hfuel
  rw [List.length_append, List.length_append, List.length_singleton] at hfuel
  obtain ⟨fuel, rfl⟩ : ∃ k, fuel = k + 1 := ⟨fuel - 1, by omega⟩
  have hends : EndsNumber (blanks ++ closeBracket :: rest) :=
    endsNumber_append hblanks (by rintro b ⟨⟩; decide)
  have hread := h fuel _ (by omega) hends
  have hbytes : bs ++ (blanks ++ [closeBracket]) ++ rest
      = bs ++ (blanks ++ closeBracket :: rest) := by
    simp only [List.append_assoc, List.singleton_append]
  rw [hbytes]
  unfold items?
  simp only [hread, Option.bind_eq_bind, Option.bind_some, skip_append hblanks]
  rfl

/-- An item before others. -/
theorem SpellsItems.more {bs bs' : Bytes} {t : Term} {ts : List Term} (h : Spells bs t)
    (hmore : SpellsItems bs' ts) : SpellsItems (bs ++ comma :: bs') (t :: ts) := by
  intro fuel rest hfuel
  rw [List.length_append, List.length_cons] at hfuel
  obtain ⟨fuel, rfl⟩ : ∃ k, fuel = k + 1 := ⟨fuel - 1, by omega⟩
  have hread := h fuel (comma :: (bs' ++ rest)) (by omega) (by rintro b ⟨⟩; decide)
  -- the comma pays for the step to the next item
  have hreads := hmore fuel rest (by omega)
  rw [List.append_assoc]
  unfold items?
  simp only [List.cons_append, hread, Option.bind_eq_bind, Option.bind_some]
  show (items? fuel (bs' ++ rest)).map (fun found => (t :: found.1, found.2)) = _
  rw [hreads]
  rfl

theorem utf8_quoted (s : String) (bs : Bytes) :
    Text.utf8 (quoted s) ++ bs = quote :: (Text.utf8 (s.toList.flatMap escape) ++ quote :: bs) := by
  unfold quoted
  rw [Text.utf8_append, List.append_assoc]
  rfl

/-- A key and its term are read, and what follows them decides how it goes on. -/
theorem fields?_spelled {bs : Bytes} {key : String} {t : Term} (h : SpellsField bs key t)
    (fuel : Nat) (hfuel : bs.length ≤ fuel) (rest : Bytes) (hrest : EndsNumber rest) :
    fields? (fuel + 1) (bs ++ rest) =
      match skip rest with
      | comma :: rest =>
        (fields? fuel rest).map fun (fs, rest) => ((Text.bytes key, t) :: fs, rest)
      | closeBrace :: rest => some ([(Text.bytes key, t)], rest)
      | _ => none := by
  obtain ⟨lead, inside, rfl, hlead, hinside⟩ := h
  simp only [List.length_append, List.length_cons] at hfuel
  have hread := hinside fuel rest (by omega) hrest
  rw [List.append_assoc, List.append_assoc, List.cons_append, utf8_quoted, ← fields?_skip,
    skip_append hlead, skip_cons rfl]
  -- first the key, then the term behind the colon
  show (string? (Text.utf8 (key.toList.flatMap escape) ++
    quote :: colon :: (inside ++ rest))).bind _ = _
  rw [string?_quoted, Option.bind_some]
  show (read? fuel (inside ++ rest)).bind _ = _
  rw [hread]
  rfl

/-- The last field, and the brace behind it. -/
theorem SpellsFields.last {bs blanks : Bytes} {key : String} {t : Term} (h : SpellsField bs key t)
    (hblanks : Blank blanks) :
    SpellsFields (bs ++ (blanks ++ [closeBrace])) [(Text.bytes key, t)] := by
  intro fuel rest hfuel
  rw [List.length_append] at hfuel
  obtain ⟨fuel, rfl⟩ : ∃ k, fuel = k + 1 := ⟨fuel - 1, by omega⟩
  have hends : EndsNumber (blanks ++ closeBrace :: rest) :=
    endsNumber_append hblanks (by rintro b ⟨⟩; decide)
  have hbytes : bs ++ (blanks ++ [closeBrace]) ++ rest
      = bs ++ (blanks ++ closeBrace :: rest) := by
    simp only [List.append_assoc, List.singleton_append]
  rw [hbytes, fields?_spelled h fuel (by omega) _ hends, skip_append hblanks]
  rfl

/-- A field before others. -/
theorem SpellsFields.more {bs bs' : Bytes} {key : String} {t : Term} {fs : List (Bytes × Term)}
    (h : SpellsField bs key t) (hmore : SpellsFields bs' fs) :
    SpellsFields (bs ++ comma :: bs') ((Text.bytes key, t) :: fs) := by
  intro fuel rest hfuel
  rw [List.length_append, List.length_cons] at hfuel
  obtain ⟨fuel, rfl⟩ : ∃ k, fuel = k + 1 := ⟨fuel - 1, by omega⟩
  have hreads := hmore fuel rest (by omega)
  rw [List.append_assoc, List.cons_append,
    fields?_spelled h fuel (by omega) (comma :: (bs' ++ rest)) (by rintro b ⟨⟩; decide)]
  show (fields? fuel (bs' ++ rest)).map (fun (fs, rest) => ((Text.bytes key, t) :: fs, rest)) = _
  rw [hreads]
  rfl

theorem Spells.object {bs : Bytes} {fs : List (Bytes × Term)} (h : SpellsFields bs fs) :
    Spells (openBrace :: bs) (.object fs) := by
  apply Spells.of_step
  intro fuel rest hfuel _
  exact read?_object (h fuel rest hfuel)

/-! ## Section 5: Scalars -/

theorem Spells.string (s : String) :
    Spells (Text.utf8 (quoted s)) (.string (Text.bytes s)) := by
  apply Spells.of_step
  intro fuel rest _ _
  rw [utf8_quoted]
  show (string? (Text.utf8 (s.toList.flatMap escape) ++ quote :: rest)).map _ = _
  rw [string?_quoted]
  rfl

/-- A word is read as what it means. -/
theorem Spells.null : Spells (Text.utf8 "null".toList) .null := by
  apply Spells.of_step
  intro fuel rest _ _
  rfl

theorem Spells.bool (b : Bool) : Spells (Text.utf8 (boolChars b)) (.bool b) := by
  apply Spells.of_step
  intro fuel rest _ _
  cases b <;> rfl

/-- What begins like a number is read as one. -/
theorem read?_number {b : UInt8} (h : b = 0x2D ∨ 0x30 ≤ b ∧ b ≤ 0x39) (fuel : Nat) (bs : Bytes) :
    read? (fuel + 1) (b :: bs) = (number? (b :: bs)).map fun (n, rest) => (.number n, rest) := by
  have hne (c : UInt8) (hc : c < 0x2D ∨ 0x39 < c) : b ≠ c := by
    rintro rfl
    simp only [UInt8.lt_iff_toNat_lt, UInt8.le_iff_toNat_le, ← UInt8.toNat_inj] at h hc
    change b.toNat = 45 ∨ 48 ≤ b.toNat ∧ b.toNat ≤ 57 at h
    change b.toNat < 45 ∨ 57 < b.toNat at hc
    omega
  have hblank : isBlank b = false := by
    simp only [isBlank, Bool.or_eq_false_iff, beq_eq_false_iff_ne]
    exact ⟨⟨⟨hne _ (by decide), hne _ (by decide)⟩, hne _ (by decide)⟩, hne _ (by decide)⟩
  have hword (c : UInt8) (word : Bytes) (hc : b ≠ c) : word? (c :: word) (b :: bs) = none := by
    unfold word?
    rw [if_neg]
    simp [List.isPrefixOf, hc.symm]
  have hplain : plain? (b :: bs) = (number? (b :: bs)).map fun (n, rest) => (.number n, rest) := by
    unfold plain?
    simp only [show word? (Text.ascii "null") (b :: bs) = none from hword _ _ (hne _ (by decide)),
      show word? (Text.ascii "true") (b :: bs) = none from hword _ _ (hne _ (by decide)),
      show word? (Text.ascii "false") (b :: bs) = none from hword _ _ (hne _ (by decide))]
  unfold read?
  rw [skip_cons hblank]
  split
  · next heq => exact absurd (List.cons.inj heq).1 (hne _ (by decide))
  · next heq => exact absurd (List.cons.inj heq).1 (hne _ (by decide))
  · next heq => exact absurd (List.cons.inj heq).1 (hne _ (by decide))
  · exact hplain

theorem Spells.integer (i : Integer) : Spells (Text.utf8 i.1.repr.toList) (.number i.lexeme) := by
  apply Spells.of_step
  intro fuel rest _ hrest
  obtain ⟨b, bs, hbytes, hb⟩ : ∃ b bs, Text.utf8 i.1.repr.toList = b :: bs ∧
      (b = 0x2D ∨ 0x30 ≤ b ∧ b ≤ 0x39) := by
    rw [Text.toList_repr]
    obtain ⟨b, bs, hbytes, hb⟩ := exists_utf8_toDigits i.1.natAbs
    split
    · exact ⟨0x2D, _, rfl, .inl rfl⟩
    · exact ⟨b, bs, hbytes, .inr hb⟩
  have hnumber := number?_integer i hrest
  rw [hbytes, List.cons_append] at hnumber ⊢
  rw [read?_number hb, hnumber]
  rfl

/-! ## Section 6: Sequences of items and fields -/

/-- Some texts with commas between them and blanks behind, and what closes them. -/
def listing (blanks : Bytes) (close : UInt8) (first : Bytes) (others : List Bytes) : Bytes :=
  first ++ ((others.flatMap fun text => comma :: text) ++ (blanks ++ [close]))

theorem Spells.items {text : Json → Bytes} {blanks : Bytes} (hblanks : Blank blanks)
    {v : Json} {vs : List Json} (h : ∀ u ∈ v :: vs, Spells (text u) u.term) :
    Spells (openBracket :: listing blanks closeBracket (text v) (vs.map text))
      (term (.array (v :: vs))) := by
  rw [term, terms_eq_map]
  apply Spells.array
  induction vs generalizing v with
  | nil => exact SpellsItems.last (h v List.mem_cons_self) hblanks
  | cons v' vs ih =>
    have hmore := ih fun u hmem => h u (List.mem_cons_of_mem v hmem)
    have hread := SpellsItems.more (h v List.mem_cons_self) hmore
    unfold listing at hread ⊢
    rwa [List.map_cons, List.flatMap_cons, List.append_assoc]

theorem Spells.fields {text : String × Json → Bytes} {blanks : Bytes} (hblanks : Blank blanks)
    {f : String × Json} {fs : List (String × Json)}
    (h : ∀ g ∈ f :: fs, SpellsField (text g) g.1 g.2.term) :
    Spells (openBrace :: listing blanks closeBrace (text f) (fs.map text))
      (term (.object (f :: fs))) := by
  rw [term, fieldTerms_eq_map]
  apply Spells.object
  induction fs generalizing f with
  | nil => exact SpellsFields.last (h f List.mem_cons_self) hblanks
  | cons f' fs ih =>
    have hmore := ih fun g hmem => h g (List.mem_cons_of_mem f hmem)
    have hread := SpellsFields.more (h f List.mem_cons_self) hmore
    unfold listing at hread ⊢
    rwa [List.map_cons, List.flatMap_cons, List.append_assoc]

theorem Spells.noItems : Spells (Text.utf8 ['[', ']']) (.array []) := by
  apply Spells.of_step
  intro fuel rest _ _
  rfl

theorem Spells.noFields : Spells (Text.utf8 ['{', '}']) (.object []) := by
  apply Spells.of_step
  intro fuel rest _ _
  rfl

/-- Bytes that are read as a term are a text of that term, with or without blanks behind. -/
theorem Spells.parse?_append {bs blanks : Bytes} {t : Term} (h : Spells bs t)
    (hblanks : Blank blanks) : Term.parse? (bs ++ blanks) = some t := by
  have hends : EndsNumber blanks := by
    rw [← List.append_nil blanks]
    exact endsNumber_append hblanks (by rintro b ⟨⟩)
  have hskip : skip blanks = [] := by
    have hall := skip_append hblanks []
    rwa [List.append_nil] at hall
  have hfuel : bs.length < (bs ++ blanks).length + 1 := by
    rw [List.length_append]
    omega
  unfold Term.parse?
  rw [h _ blanks hfuel hends]
  dsimp only
  rw [if_pos hskip]

theorem Spells.parse? {bs : Bytes} {t : Term} (h : Spells bs t) : Term.parse? bs = some t := by
  have hparse : Term.parse? (bs ++ []) = some t := h.parse?_append (by rintro b ⟨⟩)
  rwa [List.append_nil] at hparse

end Term

/-! ## Section 7: The two forms -/

open Term

/-- The text of a field in the compact form. -/
def compactField (field : String × Json) : Bytes :=
  Text.utf8 (quoted field.1) ++ colon :: Text.utf8 field.2.compactChars

/-- The text of an item in the pretty form, on a line of its own. -/
def prettyItem (level : Nat) (v : Json) : Bytes :=
  Text.utf8 (newLine (level + 1)) ++ Text.utf8 (v.prettyChars (level + 1))

/-- The text of a field in the pretty form, on a line of its own. -/
def prettyField (level : Nat) (field : String × Json) : Bytes :=
  Text.utf8 (newLine (level + 1)) ++ Text.utf8 (quoted field.1) ++
    colon :: (Text.utf8 [' '] ++ Text.utf8 (field.2.prettyChars (level + 1)))

theorem blank_newLine (level : Nat) : Blank (Text.utf8 (newLine level)) := by
  have hblank : ∀ c ∈ newLine level, c = '\n' ∨ c = ' ' := by
    intro c hc
    rcases List.mem_cons.1 hc with rfl | hc
    · exact .inl rfl
    · exact .inr (List.eq_of_mem_replicate hc)
  intro b hb
  obtain ⟨c, hc, hb⟩ := List.mem_flatMap.1 hb
  rcases hblank c hc with rfl | rfl
  · rw [List.eq_of_mem_singleton hb]
    rfl
  · rw [List.eq_of_mem_singleton hb]
    rfl

theorem utf8_compact_array (v : Json) (vs : List Json) :
    Text.utf8 (compactChars (.array (v :: vs))) = openBracket ::
      listing [] closeBracket (Text.utf8 v.compactChars)
        (vs.map fun u => Text.utf8 u.compactChars) := by
  have hitems : Text.utf8 (compactItems vs) =
      ((vs.map fun u => Text.utf8 u.compactChars).flatMap fun text => comma :: text) ++
        ([] ++ [closeBracket]) := by
    induction vs with
    | nil => rfl
    | cons u vs ih =>
      rw [compactItems, Text.utf8_append, ih, List.map_cons, List.flatMap_cons, List.append_assoc]
      rfl
  rw [compactChars, Text.utf8_append, hitems]
  rfl

theorem utf8_compact_object (f : String × Json) (fs : List (String × Json)) :
    Text.utf8 (compactChars (.object (f :: fs))) = openBrace ::
      listing [] closeBrace (compactField f) (fs.map compactField) := by
  have hfields : Text.utf8 (compactFields fs) =
      ((fs.map compactField).flatMap fun text => comma :: text) ++ ([] ++ [closeBrace]) := by
    induction fs with
    | nil => rfl
    | cons g fs ih =>
      rw [compactFields, Text.utf8_append, Text.utf8_append, ih, List.map_cons, List.flatMap_cons]
      unfold compactField
      simp only [List.append_assoc, List.cons_append]
      rfl
  rw [compactChars, Text.utf8_append, Text.utf8_append, hfields]
  unfold compactField listing
  simp only [List.append_assoc, List.cons_append]
  rfl

theorem utf8_pretty_array (level : Nat) (v : Json) (vs : List Json) :
    Text.utf8 (prettyChars level (.array (v :: vs))) = openBracket ::
      listing (Text.utf8 (newLine level)) closeBracket (prettyItem level v)
        (vs.map (prettyItem level)) := by
  have hitems : Text.utf8 (prettyItems level vs) =
      ((vs.map (prettyItem level)).flatMap fun text => comma :: text) ++
        (Text.utf8 (newLine level) ++ [closeBracket]) := by
    induction vs with
    | nil => exact Text.utf8_append ..
    | cons u vs ih =>
      rw [prettyItems, Text.utf8_append, Text.utf8_append, ih, List.map_cons, List.flatMap_cons]
      unfold prettyItem
      simp only [List.append_assoc, List.cons_append]
      rfl
  rw [prettyChars, Text.utf8_append, Text.utf8_append, hitems]
  unfold prettyItem listing
  simp only [List.append_assoc]
  rfl

theorem utf8_pretty_object (level : Nat) (f : String × Json) (fs : List (String × Json)) :
    Text.utf8 (prettyChars level (.object (f :: fs))) = openBrace ::
      listing (Text.utf8 (newLine level)) closeBrace (prettyField level f)
        (fs.map (prettyField level)) := by
  have hfields : Text.utf8 (prettyFields level fs) =
      ((fs.map (prettyField level)).flatMap fun text => comma :: text) ++
        (Text.utf8 (newLine level) ++ [closeBrace]) := by
    induction fs with
    | nil => exact Text.utf8_append ..
    | cons g fs ih =>
      rw [prettyFields, Text.utf8_append, Text.utf8_append, Text.utf8_append, ih, List.map_cons,
        List.flatMap_cons]
      unfold prettyField
      simp only [List.append_assoc, List.cons_append]
      rfl
  rw [prettyChars, Text.utf8_append, Text.utf8_append, Text.utf8_append, hfields]
  unfold prettyField listing
  simp only [List.append_assoc, List.cons_append]
  rfl

/-- The value of a field is less than its object. -/
theorem sizeOf_value_lt {field : String × Json} {fields : List (String × Json)}
    (h : field ∈ fields) : sizeOf field.2 < sizeOf (Json.object fields) := by
  have hfield := List.sizeOf_lt_of_mem h
  have hvalue : sizeOf field = 1 + sizeOf field.1 + sizeOf field.2 := rfl
  rw [Json.object.sizeOf_spec]
  omega

/-- An item is less than its array. -/
theorem sizeOf_item_lt {v : Json} {items : List Json} (h : v ∈ items) :
    sizeOf v < sizeOf (Json.array items) := by
  have hitem := List.sizeOf_lt_of_mem h
  rw [Json.array.sizeOf_spec]
  omega

/-- **The compact form of a value is read as its term**, if its numbers are integers. -/
theorem spells_compact {v : Json} (h : v.integral = true) :
    Spells (Text.utf8 v.compactChars) v.term := by
  match v with
  | .null => exact .null
  | .bool b => exact .bool b
  | .number (.integer i) => exact .integer i
  | .number (.real x) => cases h
  | .string s => exact .string s
  | .array [] => exact .noItems
  | .array (v :: vs) =>
    rw [utf8_compact_array]
    exact .items (by rintro b ⟨⟩) fun u hmem => spells_compact (integralItems_iff.1 h u hmem)
  | .object [] => exact .noFields
  | .object (f :: fs) =>
    rw [utf8_compact_object]
    exact .fields (by rintro b ⟨⟩) fun g hmem =>
      ⟨[], _, rfl, by rintro b ⟨⟩, spells_compact (integralFields_iff.1 h g hmem)⟩
termination_by sizeOf v
decreasing_by
  · exact sizeOf_item_lt hmem
  · exact sizeOf_value_lt hmem

/-- **The pretty form of a value is read as its term**, at any level, if its numbers are
    integers. -/
theorem spells_pretty {v : Json} (h : v.integral = true) (level : Nat) :
    Spells (Text.utf8 (v.prettyChars level)) v.term := by
  have hpad : Blank (Text.utf8 [' ']) := by
    intro b hb
    rw [List.eq_of_mem_singleton hb]
    rfl
  match v with
  | .null => exact .null
  | .bool b => exact .bool b
  | .number (.integer i) => exact .integer i
  | .number (.real x) => cases h
  | .string s => exact .string s
  | .array [] => exact .noItems
  | .array (v :: vs) =>
    rw [utf8_pretty_array]
    exact .items (blank_newLine level) fun u hmem =>
      (spells_pretty (integralItems_iff.1 h u hmem) (level + 1)).blanks (blank_newLine (level + 1))
  | .object [] => exact .noFields
  | .object (f :: fs) =>
    rw [utf8_pretty_object]
    exact .fields (blank_newLine level) fun g hmem =>
      ⟨_, _, rfl, blank_newLine (level + 1),
        (spells_pretty (integralFields_iff.1 h g hmem) (level + 1)).blanks hpad⟩
termination_by sizeOf v
decreasing_by
  · exact sizeOf_item_lt hmem
  · exact sizeOf_value_lt hmem

end Parley.Json
