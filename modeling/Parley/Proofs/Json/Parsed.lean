import Parley.Json.Record
import Parley.Proofs.Json.Values

/-! # What text is read as

  However text is spelled, blanks, repeated keys and all, the value that it is read as has
  ascending keys and does not nest deeper than the reader lets it (`whole_of_read?`). So a value
  that came out of the reader and has no fractions is one of those that are read back from
  both of their forms; and so is each part of it, with fewer levels for each step down.
-/

namespace Parley.Json

/-! ## Section 1: Reading -/

/-- The fields of an object are some of those that it was made of, in the order of their keys. -/
theorem exists_ofFields (fields : List (String × Json)) :
    ∃ kept, ofFields fields = .object kept ∧ Entries.Ascending kept ∧
      ∀ field ∈ kept, field ∈ fields := by
  -- on the fields, whatever has been put in before them
  have hfold : ∀ (fields before : List (String × Json)), Entries.Ascending before →
      Entries.Ascending
          (fields.foldl (fun acc field => Entries.insert field.1 field.2 acc) before) ∧
        ∀ field ∈ fields.foldl (fun acc field => Entries.insert field.1 field.2 acc) before,
          field ∈ before ∨ field ∈ fields := by
    intro fields
    induction fields with
    | nil => exact fun before hbefore => ⟨hbefore, fun field hmem => .inl hmem⟩
    | cons first fields ih =>
      intro before hbefore
      obtain ⟨hascending, hkept⟩ := ih _ (hbefore.insert first.1 first.2)
      refine ⟨hascending, fun field hmem => ?_⟩
      rcases hkept field hmem with hmem | hmem
      · rcases Entries.mem_insert hmem with rfl | hmem
        · exact .inr List.mem_cons_self
        · exact .inl hmem
      · exact .inr (List.mem_cons_of_mem first hmem)
  obtain ⟨hascending, hkept⟩ := hfold fields [] .nil
  exact ⟨_, rfl, hascending, fun field hmem =>
    (hkept field hmem).elim (fun hnil => absurd hnil List.not_mem_nil) id⟩

mutual

/-- **The value of a term is whole** if its numbers are integers. -/
theorem Term.whole_of_value? {depth : Nat} {t : Term} {v : Json} (h : t.value? depth = some v)
    (hintegral : v.integral = true) : Whole depth v := by
  match t with
  | .null =>
    cases h
    exact .null
  | .bool b =>
    cases h
    exact .bool b
  | .number n =>
    obtain ⟨number, -, rfl⟩ := Option.map_eq_some_iff.1 h
    cases number with
    | integer i => exact .integer i
    | real x => cases hintegral
  | .string raw =>
    obtain ⟨s, -, rfl⟩ := Option.map_eq_some_iff.1 h
    exact .string s
  | .array ts =>
    unfold Term.value? at h
    split at h
    · cases h
    · next hdepth =>
      obtain ⟨vs, hvs, rfl⟩ := Option.map_eq_some_iff.1 h
      obtain ⟨depth, rfl⟩ : ∃ k, depth = k + 1 := ⟨depth - 1, by omega⟩
      exact .array fun v hmem =>
        Term.whole_of_values? hvs v hmem (integralItems_iff.1 hintegral v hmem)
  | .object fs =>
    unfold Term.value? at h
    split at h
    · cases h
    · next hdepth =>
      obtain ⟨fields, hfields, rfl⟩ := Option.map_eq_some_iff.1 h
      obtain ⟨depth, rfl⟩ : ∃ k, depth = k + 1 := ⟨depth - 1, by omega⟩
      -- of several fields with one key the last is left, and only that has to be integral
      obtain ⟨kept, hkept, hascending, hsome⟩ := exists_ofFields fields
      rw [hkept] at hintegral ⊢
      exact .object hascending fun field hmem => Term.whole_of_fieldValues? hfields field
        (hsome field hmem) (integralFields_iff.1 hintegral field hmem)

theorem Term.whole_of_values? {depth : Nat} {ts : List Term} {vs : List Json}
    (h : Term.values? depth ts = some vs) : ∀ v ∈ vs, v.integral = true → Whole depth v := by
  match ts with
  | [] =>
    cases h
    exact fun v hmem => absurd hmem List.not_mem_nil
  | t :: ts =>
    unfold Term.values? at h
    simp only [Option.bind_eq_bind, Option.bind_eq_some_iff, Option.some.injEq] at h
    obtain ⟨first, hfirst, rest, hrest, rfl⟩ := h
    intro v hmem hintegral
    rcases List.mem_cons.1 hmem with rfl | hmem
    · exact Term.whole_of_value? hfirst hintegral
    · exact Term.whole_of_values? hrest v hmem hintegral

theorem Term.whole_of_fieldValues? {depth : Nat} {ts : List (Bytes × Term)}
    {fields : List (String × Json)} (h : Term.fieldValues? depth ts = some fields) :
    ∀ field ∈ fields, field.2.integral = true → Whole depth field.2 := by
  match ts with
  | [] =>
    cases h
    exact fun field hmem => absurd hmem List.not_mem_nil
  | (raw, t) :: ts =>
    unfold Term.fieldValues? at h
    simp only [Option.bind_eq_bind, Option.bind_eq_some_iff, Option.some.injEq] at h
    obtain ⟨key, -, first, hfirst, rest, hrest, rfl⟩ := h
    intro field hmem hintegral
    rcases List.mem_cons.1 hmem with rfl | hmem
    · exact Term.whole_of_value? hfirst hintegral
    · exact Term.whole_of_fieldValues? hrest field hmem hintegral

end

/-- **Text is read as a whole value** if the numbers of that are integers. -/
theorem whole_of_read? {text : String} {v : Json} (h : read? text = some v)
    (hintegral : v.integral = true) : Whole maxDepth v := by
  obtain ⟨t, -, hvalue⟩ := Option.bind_eq_some_iff.1 h
  exact Term.whole_of_value? hvalue hintegral

/-! ## Section 2: The parts of a value -/

theorem Whole.of_mem_items {n : Nat} {items : List Json} (h : Whole (n + 1) (.array items))
    {v : Json} (hmem : v ∈ items) : Whole n v := by
  cases h with
  | array inside => exact inside v hmem

/-- What stands in a slot of a record is one level further down, in either form. -/
theorem Whole.of_record? {n : Nat} {v : Json} {names : List String} {slots : List (Option Json)}
    (h : Whole (n + 1) v) (hrecord : v.record? names = some slots) {x : Json}
    (hmem : some x ∈ slots) : Whole n x := by
  cases h with
  | null => cases hrecord
  | bool b => cases hrecord
  | integer i => cases hrecord
  | string s => cases hrecord
  | @array n items inside =>
    have hslots : (if items.length ≤ names.length then
        some (items.map some ++ List.replicate (names.length - items.length) none) else none) =
          some slots := hrecord
    split at hslots
    · obtain rfl := Option.some.inj hslots
      rcases List.mem_append.1 hmem with hmem | hmem
      · obtain ⟨item, hitem, hx⟩ := List.mem_map.1 hmem
        exact Option.some.inj hx ▸ inside item hitem
      · cases List.eq_of_mem_replicate hmem
    · cases hslots
  | object ascending inside =>
    obtain rfl := Option.some.inj hrecord
    obtain ⟨name, -, hlookup⟩ := List.mem_map.1 hmem
    obtain ⟨before, after, rfl, -⟩ := List.lookup_eq_some_iff.1 hlookup
    exact inside (name, x) (List.mem_append_right before List.mem_cons_self)

end Parley.Json
