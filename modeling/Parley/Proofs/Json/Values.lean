import Parley.Json.Parser
import Parley.Proofs.Json.Terms
import Parley.Proofs.Wire.Scan

/-! # Values, read back

  Of the term of a value a reader of values makes that value again, if every number is an
  integer, if the keys ascend, and if it does not nest too deep. So it is read back from either
  form.
-/

namespace Parley.Json

/-! ## Section 1: Values without fractions -/

/-- A value of which every number is an integer, in which the keys of every object ascend, and
    in which at most so many arrays and objects lie inside one another. -/
inductive Whole : Nat → Json → Prop where
  /-- The value `null`. -/
  | null {n : Nat} : Whole n .null
  /-- A truth value. -/
  | bool {n : Nat} (b : Bool) : Whole n (.bool b)
  /-- An integer. -/
  | integer {n : Nat} (i : Integer) : Whole n (.number (.integer i))
  /-- A text, whatever its characters. -/
  | string {n : Nat} (s : String) : Whole n (.string s)
  /-- An array has a level of its own. -/
  | array {n : Nat} {items : List Json} (inside : ∀ v ∈ items, Whole n v) :
      Whole (n + 1) (.array items)
  /-- An object has a level of its own. -/
  | object {n : Nat} {fields : List (String × Json)} (ascending : Entries.Ascending fields)
      (inside : ∀ field ∈ fields, Whole n field.2) : Whole (n + 1) (.object fields)

/-- Whether keys ascend is told by the keys alone. -/
theorem ascending_of_keys {α : Type} {entries : List (String × α)}
    (h : (entries.map Prod.fst).Pairwise (· < ·)) : Entries.Ascending entries :=
  List.pairwise_map.1 h

/-- An entry above all others goes behind them. -/
theorem insert_of_above {α : Type} {entries : List (String × α)} {key : String}
    (h : ∀ entry ∈ entries, entry.1 < key) (value : α) :
    Entries.insert key value entries = entries ++ [(key, value)] := by
  induction entries with
  | nil => rfl
  | cons entry entries ih =>
    have hless : entry.1 < key := h entry List.mem_cons_self
    have hne : key ≠ entry.1 := by
      rintro rfl
      exact String.lt_irrefl _ hless
    show (if key = entry.1 then _ else if key < entry.1 then _ else _) = _
    rw [if_neg hne, if_neg (String.lt_asymm hless),
      ih fun entry' hmem => h entry' (List.mem_cons_of_mem entry hmem)]
    rfl

/-- Fields with ascending keys are the fields of their object. -/
theorem ofFields_of_ascending {fields : List (String × Json)} (h : Entries.Ascending fields) :
    ofFields fields = .object fields := by
  have hfold : ∀ before : List (String × Json), Entries.Ascending (before ++ fields) →
      fields.foldl (fun acc field => Entries.insert field.1 field.2 acc) before
        = before ++ fields := by
    induction fields with
    | nil => simp
    | cons field fields ih =>
      intro before hall
      have habove : ∀ entry ∈ before, entry.1 < field.1 := fun entry hmem =>
        (List.pairwise_append.1 hall).2.2 entry hmem field List.mem_cons_self
      rw [List.foldl_cons, insert_of_above habove, ih (List.Pairwise.of_cons h)]
      · rw [List.append_assoc, List.singleton_append]
      · rwa [List.append_assoc, List.singleton_append]
  exact congrArg Json.object (hfold [] h)

/-! ## Section 2: The term and its value -/

theorem Whole.integral {n : Nat} {v : Json} (h : Whole n v) : v.integral = true := by
  induction h with
  | null => rfl
  | bool b => rfl
  | integer i => rfl
  | string s => rfl
  | array inside ih => exact integralItems_iff.2 ih
  | object ascending inside ih => exact integralFields_iff.2 ih

namespace Term

theorem values?_terms {depth : Nat} {items : List Json}
    (h : ∀ v ∈ items, v.term.value? depth = some v) : values? depth (terms items) = some items := by
  induction items with
  | nil => rfl
  | cons v vs ih =>
    have hmore := ih fun u hmem => h u (List.mem_cons_of_mem v hmem)
    unfold terms values?
    rw [h v List.mem_cons_self, hmore]
    rfl

theorem fieldValues?_fieldTerms {depth : Nat} {fields : List (String × Json)}
    (h : ∀ field ∈ fields, field.2.term.value? depth = some field.2) :
    fieldValues? depth (fieldTerms fields) = some fields := by
  induction fields with
  | nil => rfl
  | cons field fs ih =>
    have hmore := ih fun other hmem => h other (List.mem_cons_of_mem field hmem)
    unfold fieldTerms fieldValues?
    rw [Text.ofBytes?_bytes, h field List.mem_cons_self, hmore]
    rfl

end Term

/-- **The value of its term is the value.** -/
theorem Whole.value?_term {n : Nat} {v : Json} (h : Whole n v) {depth : Nat} (hn : n ≤ depth) :
    v.term.value? depth = some v := by
  induction h generalizing depth with
  | null => rfl
  | bool b => rfl
  | integer i =>
    show i.lexeme.number?.map Json.number = _
    rw [i.number?_lexeme]
    rfl
  | string s =>
    show (Text.ofBytes? (Text.bytes s)).map Json.string = _
    rw [Text.ofBytes?_bytes]
    rfl
  | array inside ih =>
    unfold term Term.value?
    rw [if_neg (by omega), Term.values?_terms fun v hmem => ih v hmem (by omega)]
    rfl
  | object ascending inside ih =>
    unfold term Term.value?
    rw [if_neg (by omega), Term.fieldValues?_fieldTerms fun field hmem => ih field hmem (by omega),
      Option.map_some, ofFields_of_ascending ascending]

/-! ## Section 3: The two forms -/

/-- Bytes that are read as the term of a value are a text of it, with or without blanks behind. -/
theorem Whole.parse?_append {n : Nat} {v : Json} (h : Whole n v) (hn : n ≤ maxDepth)
    {bs blanks : Bytes} (hspells : Term.Spells bs v.term) (hblanks : Term.Blank blanks) :
    Json.parse? (bs ++ blanks) = some v := by
  unfold Json.parse?
  rw [hspells.parse?_append hblanks]
  exact h.value?_term hn

theorem Whole.parse? {n : Nat} {v : Json} (h : Whole n v) (hn : n ≤ maxDepth) {bs : Bytes}
    (hspells : Term.Spells bs v.term) : Json.parse? bs = some v := by
  unfold Json.parse?
  rw [hspells.parse?]
  exact h.value?_term hn

/-- **The compact form of a value is read back as that value.** -/
theorem Whole.read?_compact {n : Nat} {v : Json} (h : Whole n v) (hn : n ≤ maxDepth) :
    Json.read? v.compact = some v := by
  unfold Json.read? compact
  rw [Text.bytes_eq_utf8, String.toList_ofList]
  exact h.parse? hn (spells_compact h.integral)

/-- **The pretty form of a value is read back as that value.** -/
theorem Whole.read?_pretty {n : Nat} {v : Json} (h : Whole n v) (hn : n ≤ maxDepth) :
    Json.read? v.pretty = some v := by
  unfold Json.read? pretty
  rw [Text.bytes_eq_utf8, String.toList_ofList]
  exact h.parse? hn (spells_pretty h.integral 0)

/-- A line feed behind the pretty form makes no difference. -/
theorem Whole.read?_pretty_line {n : Nat} {v : Json} (h : Whole n v) (hn : n ≤ maxDepth) :
    Json.read? (v.pretty ++ "\n") = some v := by
  have hblank : Term.Blank (Text.utf8 ['\n']) := by
    intro b hb
    rw [List.eq_of_mem_singleton hb]
    rfl
  have hchars : (v.pretty ++ "\n").toList = v.prettyChars 0 ++ ['\n'] := by
    unfold pretty
    rw [String.toList_append, String.toList_ofList]
    rfl
  unfold Json.read?
  rw [Text.bytes_eq_utf8, hchars, Text.utf8_append]
  exact h.parse?_append hn (spells_pretty h.integral 0) hblank

end Parley.Json
