/-! # Tables

  A table holds one value under each of its keys, and lists its keys in
  ascending order. It is a list of entries whose keys ascend strictly, so two
  tables with the same contents are the same table.

  The lookup lemmas say all that later proofs need: what was put in is found,
  what was taken out is not, and **no other key is touched**.
-/

namespace Parley

/-! ### Lists of entries -/

namespace Entries

variable {α : Type}

/-- The keys ascend strictly. -/
def Ascending (entries : List (String × α)) : Prop := entries.Pairwise fun a b => a.1 < b.1

/-- Puts an entry among entries with ascending keys, in place of one with its
    key. -/
def insert (key : String) (value : α) : List (String × α) → List (String × α)
  | [] => [(key, value)]
  | (k, v) :: rest =>
    if key = k then (key, value) :: rest
    else if key < k then (key, value) :: (k, v) :: rest
    else (k, v) :: insert key value rest

/-- Takes the entry of a key out. -/
def erase (key : String) (entries : List (String × α)) : List (String × α) :=
  entries.filter fun e => e.1 ≠ key

/-- The keys after an insertion are the new one and those from before. -/
theorem mem_insert {key : String} {value : α} {entries : List (String × α)} {e : String × α}
    (h : e ∈ insert key value entries) : e = (key, value) ∨ e ∈ entries := by
  induction entries with
  | nil => simpa [insert] using h
  | cons head rest ih =>
    obtain ⟨k, v⟩ := head
    simp only [insert] at h
    split at h
    · rcases List.mem_cons.1 h with h | h
      · exact .inl h
      · exact .inr (List.mem_cons_of_mem _ h)
    · split at h
      · exact List.mem_cons.1 h
      · rcases List.mem_cons.1 h with h | h
        · exact .inr (h ▸ List.mem_cons_self)
        · rcases ih h with h | h
          · exact .inl h
          · exact .inr (List.mem_cons_of_mem _ h)

/-- Insertion keeps the keys ascending. -/
theorem Ascending.insert {entries : List (String × α)} (h : Ascending entries) (key : String)
    (value : α) : Ascending (insert key value entries) := by
  induction entries with
  | nil => exact List.pairwise_singleton _ _
  | cons head rest ih =>
    obtain ⟨k, v⟩ := head
    obtain ⟨above, tail⟩ := List.pairwise_cons.1 h
    simp only [Entries.insert]
    split
    · next same => exact List.pairwise_cons.2 ⟨fun e he => same ▸ above e he, tail⟩
    · next other =>
      split
      · next less =>
        refine List.pairwise_cons.2 ⟨fun e he => ?_, h⟩
        rcases List.mem_cons.1 he with rfl | he
        · exact less
        · exact String.lt_trans less (above e he)
      · next notLess =>
        refine List.pairwise_cons.2 ⟨fun e he => ?_, ih tail⟩
        rcases mem_insert he with rfl | he
        · exact Std.lt_of_le_of_ne (String.not_lt.1 notLess) (Ne.symm other)
        · exact above e he

/-- What was put in is found. -/
theorem lookup_insert_self (key : String) (value : α) (entries : List (String × α)) :
    (insert key value entries).lookup key = some value := by
  induction entries with
  | nil => simp [insert]
  | cons head rest ih =>
    obtain ⟨k, v⟩ := head
    simp only [insert]
    split
    · simp
    · next other =>
      split
      · simp
      · simpa [List.lookup_cons, beq_eq_false_iff_ne.2 other] using ih

/-- Insertion touches no other key. -/
theorem lookup_insert_ne {key other : String} (h : other ≠ key) (value : α)
    (entries : List (String × α)) : (insert key value entries).lookup other = entries.lookup other := by
  induction entries with
  | nil => simp [insert, List.lookup_cons, beq_eq_false_iff_ne.2 h]
  | cons head rest ih =>
    obtain ⟨k, v⟩ := head
    simp only [insert]
    split
    · next same => simp [List.lookup_cons, ← same, beq_eq_false_iff_ne.2 h]
    · split
      · simp [List.lookup_cons, beq_eq_false_iff_ne.2 h]
      · simp [List.lookup_cons, ih]

/-- What was taken out is not found. -/
theorem lookup_erase_self (key : String) (entries : List (String × α)) :
    (erase key entries).lookup key = none := by
  induction entries with
  | nil => rfl
  | cons head rest ih =>
    obtain ⟨k, v⟩ := head
    by_cases h : k = key
    · simpa [erase, h] using ih
    · have : (key == k) = false := beq_eq_false_iff_ne.2 (Ne.symm h)
      simpa [erase, h, List.lookup_cons, this] using ih

/-- Taking out touches no other key. -/
theorem lookup_erase_ne {key other : String} (h : other ≠ key) (entries : List (String × α)) :
    (erase key entries).lookup other = entries.lookup other := by
  induction entries with
  | nil => rfl
  | cons head rest ih =>
    obtain ⟨k, v⟩ := head
    by_cases hk : k = key
    · have : (other == k) = false := beq_eq_false_iff_ne.2 (hk ▸ h)
      simpa [erase, hk, List.lookup_cons, this, beq_eq_false_iff_ne.2 h] using ih
    · cases ho : other == k
      · simpa [erase, hk, List.lookup_cons, ho] using ih
      · simp [erase, hk, List.lookup_cons, ho]

end Entries

/-! ### Tables -/

/-- One value under each key. -/
structure Table (α : Type) where
  /-- The entries. -/
  entries : List (String × α) := []
  /-- Their keys ascend. -/
  ascending : Entries.Ascending entries := by exact List.Pairwise.nil

namespace Table

variable {α : Type}

/-- The table without entries. -/
def empty : Table α := {}

/-- The value under a key. -/
def find? (t : Table α) (key : String) : Option α := t.entries.lookup key

/-- Whether a key has a value. -/
def contains (t : Table α) (key : String) : Bool := (t.find? key).isSome

/-- Puts a value under a key. -/
def insert (t : Table α) (key : String) (value : α) : Table α :=
  { entries := Entries.insert key value t.entries, ascending := t.ascending.insert key value }

/-- Takes the value of a key out. -/
def erase (t : Table α) (key : String) : Table α :=
  { entries := Entries.erase key t.entries, ascending := t.ascending.filter _ }

/-- The keys in ascending order. -/
def keys (t : Table α) : List String := t.entries.map Prod.fst

/-- The values in the order of their keys. -/
def values (t : Table α) : List α := t.entries.map Prod.snd

/-- What was put in is found. -/
@[simp] theorem find?_insert_self (t : Table α) (key : String) (value : α) :
    (t.insert key value).find? key = some value := Entries.lookup_insert_self ..

/-- Putting in touches no other key. -/
theorem find?_insert_ne (t : Table α) {key other : String} (h : other ≠ key) (value : α) :
    (t.insert key value).find? other = t.find? other := Entries.lookup_insert_ne h ..

/-- What was taken out is not found. -/
@[simp] theorem find?_erase_self (t : Table α) (key : String) : (t.erase key).find? key = none :=
  Entries.lookup_erase_self ..

/-- Taking out touches no other key. -/
theorem find?_erase_ne (t : Table α) {key other : String} (h : other ≠ key) :
    (t.erase key).find? other = t.find? other := Entries.lookup_erase_ne h ..

end Table

end Parley
