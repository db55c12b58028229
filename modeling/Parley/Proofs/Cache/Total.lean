import Mathlib.Algebra.GroupWithZero.Nat
import Parley.Table

/-! # Totals over tables

  Counters are kept beside tables and must agree with what the tables hold. The
  **total** of a quantity over the values of a table changes with an insertion by
  the new value less the one that it replaces, and with an erasure by the value
  that goes.
-/

namespace Parley

variable {α : Type}

/-! ## Entries and keys -/

namespace Entries

/-- Among entries with ascending keys, looking a key up finds exactly its entry. -/
theorem mem_iff_lookup {entries : List (String × α)} (h : Ascending entries) (key : String)
    (value : α) : (key, value) ∈ entries ↔ entries.lookup key = some value := by
  induction entries with
  | nil => simp
  | cons head rest ih =>
    obtain ⟨k, v⟩ := head
    obtain ⟨above, tail⟩ := List.pairwise_cons.1 h
    by_cases hk : key = k
    · -- the keys ascend, so this one does not come again
      subst hk
      have hnot : (key, value) ∉ rest := fun hmem => String.lt_irrefl key (above _ hmem)
      simp [hnot, eq_comm]
    · have hbeq : (key == k) = false := beq_eq_false_iff_ne.2 hk
      simp [List.lookup_cons, hbeq, hk, ih tail]

end Entries

namespace Table

@[simp] theorem find?_empty (key : String) : (empty : Table α).find? key = none := rfl

/-- An entry is what its key is found with. -/
theorem mem_entries_iff (t : Table α) (key : String) (value : α) :
    (key, value) ∈ t.entries ↔ t.find? key = some value :=
  Entries.mem_iff_lookup t.ascending key value

/-- The keys are those with which something is found. -/
theorem mem_keys_iff (t : Table α) (key : String) : key ∈ t.keys ↔ (t.find? key).isSome := by
  rw [Option.isSome_iff_exists]
  unfold keys
  rw [List.mem_map]
  constructor
  · rintro ⟨⟨k, v⟩, hmem, rfl⟩
    exact ⟨v, (t.mem_entries_iff k v).1 hmem⟩
  · rintro ⟨v, hfind⟩
    exact ⟨(key, v), (t.mem_entries_iff key v).2 hfind, rfl⟩

theorem keys_nodup (t : Table α) : t.keys.Nodup := by
  unfold keys
  rw [List.Nodup, List.pairwise_map]
  exact t.ascending.imp fun hlt => String.ne_of_lt hlt

/-- A table without entries is one in which nothing is found. -/
theorem entries_eq_nil_iff (t : Table α) : t.entries = [] ↔ ∀ key, t.find? key = none := by
  constructor
  · intro h key
    unfold find?
    rw [h]
    rfl
  · intro h
    rw [List.eq_nil_iff_forall_not_mem]
    rintro ⟨k, v⟩ hmem
    rw [t.mem_entries_iff, h k] at hmem
    cases hmem

/-- What is found after an insertion. -/
theorem find?_insert (t : Table α) (key : String) (value : α) (other : String) :
    (t.insert key value).find? other = if other = key then some value else t.find? other := by
  split
  · next h => rw [h, find?_insert_self]
  · next h => rw [find?_insert_ne t h]

/-- What is found after an erasure. -/
theorem find?_erase (t : Table α) (key other : String) :
    (t.erase key).find? other = if other = key then none else t.find? other := by
  split
  · next h => rw [h, find?_erase_self]
  · next h => rw [find?_erase_ne t h]

theorem find?_insert_cases {t : Table α} {key other : String} {value found : α}
    (h : (t.insert key value).find? other = some found) :
    other = key ∧ found = value ∨ t.find? other = some found := by
  rw [find?_insert] at h
  split at h
  · next hkey => exact .inl ⟨hkey, (Option.some.inj h).symm⟩
  · exact .inr h

theorem find?_of_erase {t : Table α} {key other : String} {found : α}
    (h : (t.erase key).find? other = some found) : t.find? other = some found := by
  rw [find?_erase] at h
  split at h
  · cases h
  · exact h

/-! ## Totals -/

/-- The total of a quantity over the values. -/
def total (f : α → Nat) (t : Table α) : Nat := (t.values.map f).sum

/-- The quantity of the value under a key, nothing if there is none. -/
def amount (f : α → Nat) (t : Table α) (key : String) : Nat := ((t.find? key).map f).getD 0

@[simp] theorem total_empty (f : α → Nat) : (empty : Table α).total f = 0 := rfl

/-- An insertion adds the new value and takes away the one it replaces. -/
theorem total_insert (f : α → Nat) (t : Table α) (key : String) (value : α) :
    (t.insert key value).total f + t.amount f key = t.total f + f value := by
  -- along the keys the new one is met, passed by, or stands before the first
  obtain ⟨entries, ascending⟩ := t
  unfold total values amount find? insert
  induction entries with
  | nil => simp [Entries.insert]
  | cons head rest ih =>
    obtain ⟨k, v⟩ := head
    obtain ⟨above, tail⟩ := List.pairwise_cons.1 ascending
    have hrest := ih tail
    simp only [Entries.insert]
    by_cases hk : key = k
    · subst hk
      simp
      omega
    · have hbeq : (key == k) = false := beq_eq_false_iff_ne.2 hk
      by_cases hlt : key < k
      · -- below all keys there is nothing under the new one
        have hnone : rest.lookup key = none := by
          rw [List.lookup_eq_none_iff]
          rintro ⟨k', v'⟩ hmem
          have hlt' : key < k' := String.lt_trans hlt (above _ hmem)
          exact bne_iff_ne.2 (String.ne_of_lt hlt')
        simp [hk, hlt, List.lookup_cons, hbeq, hnone]
        omega
      · simp [hk, hlt, List.lookup_cons, hbeq] at hrest ⊢
        omega

/-- An erasure takes away the value that goes. -/
theorem total_erase (f : α → Nat) (t : Table α) (key : String) :
    (t.erase key).total f + t.amount f key = t.total f := by
  obtain ⟨entries, ascending⟩ := t
  unfold total values amount find? erase
  induction entries with
  | nil => simp [Entries.erase]
  | cons head rest ih =>
    obtain ⟨k, v⟩ := head
    obtain ⟨above, tail⟩ := List.pairwise_cons.1 ascending
    have hrest := ih tail
    unfold Entries.erase at hrest ⊢
    by_cases hk : k = key
    · -- no other entry has this key
      subst hk
      have hnone : rest.lookup k = none := by
        rw [List.lookup_eq_none_iff]
        rintro ⟨k', v'⟩ hmem
        exact bne_iff_ne.2 (String.ne_of_lt (above _ hmem))
      simp [hnone] at hrest ⊢
      omega
    · have hbeq : (key == k) = false := beq_eq_false_iff_ne.2 (Ne.symm hk)
      simp [hk, List.lookup_cons, hbeq] at hrest ⊢
      omega

/-- No value amounts to more than all together. -/
theorem amount_le_total (f : α → Nat) (t : Table α) (key : String) :
    t.amount f key ≤ t.total f := by
  have := t.total_erase f key
  omega

/-- A table with one key at most holds the amount under this key. -/
theorem total_of_only (f : α → Nat) (t : Table α) {key : String}
    (h : ∀ other, other ≠ key → t.find? other = none) : t.total f = t.amount f key := by
  have hempty : (t.erase key).entries = [] := by
    rw [entries_eq_nil_iff]
    intro other
    rw [find?_erase]
    split
    · rfl
    · next hother => exact h other hother
  have herase := t.total_erase f key
  have hzero : (t.erase key).total f = 0 := by
    unfold total values
    rw [hempty]
    rfl
  omega

/-- The total is the sum of the amounts under the keys. -/
theorem total_eq_sum_keys (f : α → Nat) (t : Table α) :
    t.total f = (t.keys.map (t.amount f)).sum := by
  unfold total values keys
  rw [List.map_map, List.map_map]
  congr 1
  apply List.map_congr_left
  rintro ⟨k, v⟩ hmem
  simp [amount, (t.mem_entries_iff k v).1 hmem]

end Table

end Parley
