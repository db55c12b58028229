import Mathlib.Data.List.Basic
import Parley.Proofs.Cache.Keys

/-! # The counters of the fragment cache

  The cache counts its bytes twice, per peer and over all peers, and lists the
  signs of a peer twice, with their fragments and by age. A cache is **sound** if
  all of this agrees. Every operation takes a sound cache to a sound one, and what
  it subtracts from a counter is never more than the counter shows.
-/

namespace Parley

open ChunkCache (bytesOf)

/-! ## Sound peers -/

/-- What is held of a peer agrees with its counter and its ages. -/
structure PeerCache.Sound (order : ReadOrder) (p : PeerCache) : Prop where
  /-- The counter shows the bytes of all fragments. -/
  size_eq : p.size = p.signs.total bytesOf
  /-- No sign is listed twice among the ages. -/
  ages_nodup : (p.ages.map SignAge.sign).Nodup
  /-- The signs among the ages are those that hold something. -/
  mem_ages : ∀ sign, sign ∈ p.ages.map SignAge.sign ↔ (p.signs.find? sign).isSome
  /-- A sign that holds something holds a fragment. -/
  fragments_ne_nil : ∀ sign fragments, p.signs.find? sign = some fragments → fragments ≠ []
  /-- By declared index, no two fragments of a sign have one index. -/
  indices_nodup : order = .declared → ∀ sign fragments,
    p.signs.find? sign = some fragments → (fragments.map Chunk.index).Nodup

namespace PeerCache.Sound

variable {order : ReadOrder} {p : PeerCache}

theorem empty (order : ReadOrder) : PeerCache.Sound order {} where
  size_eq := rfl
  ages_nodup := List.nodup_nil
  mem_ages := by simp
  fragments_ne_nil := by simp
  indices_nodup := by simp

/-- No sign holds more bytes than the counter shows. -/
theorem held_le (h : p.Sound order) (sign : String) :
    bytesOf ((p.signs.find? sign).getD []) ≤ p.size := by
  have hle := Table.amount_le_total bytesOf p.signs sign
  rw [h.size_eq]
  unfold Table.amount at hle
  cases hfind : p.signs.find? sign with
  | none => exact Nat.zero_le _
  | some fragments =>
    rw [hfind] at hle
    exact hle

theorem amount_signs (p : PeerCache) (sign : String) :
    p.signs.amount bytesOf sign = bytesOf ((p.signs.find? sign).getD []) := by
  unfold Table.amount
  cases p.signs.find? sign with
  | none => rfl
  | some fragments => rfl

/-- Placing a fragment keeps a peer sound. -/
theorem place (h : p.Sound order) (clock sequence : Nat) (chunk : Chunk) :
    (p.place order clock sequence chunk).Sound order := by
  have hplaced := ChunkCache.bytesOf_place order chunk ((p.signs.find? chunk.sign).getD [])
  have hleft := ChunkCache.place_fst_le order chunk ((p.signs.find? chunk.sign).getD [])
  have hheld := h.held_le chunk.sign
  refine ⟨?_, ?_, fun sign => ?_, fun sign fragments hfind => ?_,
    fun hdeclared sign fragments hfind => ?_⟩
  · -- the counter moves by what came less what left
    have htotal := Table.total_insert bytesOf p.signs chunk.sign
      (ChunkCache.place order chunk ((p.signs.find? chunk.sign).getD [])).2
    rw [amount_signs] at htotal
    have hsize := h.size_eq
    simp only [PeerCache.place]
    omega
  · -- a sign is listed when it comes to hold something, and so was not listed before
    simp only [PeerCache.place]
    split
    · rw [List.append_nil]
      exact h.ages_nodup
    · next hnew =>
      rw [List.map_append, List.nodup_append]
      refine ⟨h.ages_nodup, List.pairwise_singleton _ _, fun a ha b hb => ?_⟩
      have hsign : b = chunk.sign := List.mem_singleton.1 hb
      intro hab
      apply hnew
      rw [← h.mem_ages, ← hsign, ← hab]
      exact ha
  · simp only [PeerCache.place, Table.find?_insert]
    have hmem := h.mem_ages sign
    by_cases hsign : sign = chunk.sign
    · subst hsign
      by_cases hknown : (p.signs.find? chunk.sign).isSome
      · simp [hknown, hmem]
      · simp [hknown]
    · by_cases hknown : (p.signs.find? chunk.sign).isSome
      · simp [hknown, hsign, ← hmem]
      · simp [hknown, hsign, ← hmem]
  · rcases Table.find?_insert_cases hfind with ⟨-, hplace⟩ | hold
    · rw [hplace]
      exact ChunkCache.place_ne_nil order chunk _
    · exact h.fragments_ne_nil sign fragments hold
  · rcases Table.find?_insert_cases hfind with ⟨-, hplace⟩ | hold
    · rw [hplace, hdeclared]
      apply ChunkCache.nodup_indices_replace
      cases hold : p.signs.find? chunk.sign with
      | none => exact List.nodup_nil
      | some old => exact h.indices_nodup hdeclared chunk.sign old hold
    · exact h.indices_nodup hdeclared sign fragments hold

/-- Dropping a sign keeps a peer sound. -/
theorem drop (h : p.Sound order) (sign : String) :
    (p.drop sign (bytesOf ((p.signs.find? sign).getD []))).Sound order := by
  refine ⟨?_, ?_, fun other => ?_, fun other fragments hfind => ?_,
    fun hdeclared other fragments hfind => ?_⟩
  · have htotal := Table.total_erase bytesOf p.signs sign
    rw [amount_signs] at htotal
    have hsize := h.size_eq
    simp only [PeerCache.drop]
    omega
  · simp only [PeerCache.drop]
    exact h.ages_nodup.sublist (List.Sublist.map _ List.filter_sublist)
  · have hmem := h.mem_ages other
    simp only [PeerCache.drop, Table.find?_erase]
    by_cases hsign : other = sign
    · subst hsign
      simp
    · -- every other sign keeps its age
      rw [if_neg hsign, ← hmem]
      simp only [List.mem_map, List.mem_filter]
      constructor
      · rintro ⟨age, ⟨hage, -⟩, rfl⟩
        exact ⟨age, hage, rfl⟩
      · rintro ⟨age, hage, rfl⟩
        exact ⟨age, ⟨hage, by simpa using hsign⟩, rfl⟩
  · exact h.fragments_ne_nil other fragments (Table.find?_of_erase hfind)
  · exact h.indices_nodup hdeclared other fragments (Table.find?_of_erase hfind)

end PeerCache.Sound

/-! ## Sound caches -/

namespace ChunkCache

/-- What is held of all peers agrees with the counter, and no peer is listed in vain. -/
structure Sound (c : ChunkCache) : Prop where
  /-- The counter shows what the counters of all peers show together. -/
  memory_eq : c.memory = c.peers.total PeerCache.size
  /-- Every peer is sound. -/
  peers_sound : ∀ tag p, c.peers.find? tag = some p → p.Sound c.order
  /-- Every peer has a sign. -/
  signs_ne_nil : ∀ tag p, c.peers.find? tag = some p → p.signs.entries ≠ []

variable {c : ChunkCache}

/-- By arrival, an insertion adds all bytes of the fragment. -/
theorem memory_insert (horder : c.order = .arrival) (tag : String) (chunk : Chunk) :
    (c.insert tag chunk).memory = c.memory + chunk.length := by
  rw [insert_memory, horder]
  rfl

/-- A sign that is new gets the last age of its peer, and the time on the clock. -/
theorem ages_insert (c : ChunkCache) (tag : String) (chunk : Chunk) (t : String) :
    ((c.insert tag chunk).peer t).ages
      = (c.peer t).ages ++ if t = tag ∧ c.holds tag chunk.sign = false then
          [{ sign := chunk.sign, arrived := c.clock, sequence := c.sequence }] else [] := by
  rw [peer_insert]
  by_cases ht : t = tag
  · subst ht
    unfold holds
    rw [if_pos rfl, fragments?_eq]
    simp only [PeerCache.place, true_and]
    cases (c.peer t).signs.find? chunk.sign with
    | none => rfl
    | some fragments => rfl
  · rw [if_neg ht, if_neg fun hkey => ht hkey.1, List.append_nil]

/-- A sign that is new arrives last. -/
theorem arrived_insert (c : ChunkCache) (tag : String) (chunk : Chunk) (t : String) :
    (c.insert tag chunk).arrived t
      = c.arrived t ++ if t = tag ∧ c.holds tag chunk.sign = false then [chunk.sign] else [] := by
  unfold arrived
  rw [ages_insert, List.map_append]
  split <;> rfl

theorem sound_new (threshold : UInt64) (order : ReadOrder) : (new threshold order).Sound where
  memory_eq := rfl
  peers_sound := by simp [new]
  signs_ne_nil := by simp [new]

namespace Sound

theorem peer (h : c.Sound) (tag : String) : (c.peer tag).Sound c.order := by
  unfold ChunkCache.peer
  cases hfind : c.peers.find? tag with
  | none => exact PeerCache.Sound.empty c.order
  | some p => exact h.peers_sound tag p hfind

/-- No key holds more bytes than the counter of its peer shows. -/
theorem held_le (h : c.Sound) (tag sign : String) :
    bytesOf ((c.fragments? tag sign).getD []) ≤ c.size tag := by
  rw [fragments?_eq, size_eq]
  exact (h.peer tag).held_le sign

/-- The counter of a peer never shows more than the counter over all peers. -/
theorem size_le (h : c.Sound) (tag : String) : c.size tag ≤ c.memory := by
  rw [h.memory_eq]
  exact Table.amount_le_total PeerCache.size c.peers tag

theorem mem_arrived (h : c.Sound) (tag sign : String) :
    sign ∈ c.arrived tag ↔ c.holds tag sign := by
  unfold arrived holds
  rw [(h.peer tag).mem_ages, fragments?_eq]

/-- The fragments that a placement lets go never hold more bytes than a counter shows. -/
theorem left_le (h : c.Sound) (tag : String) (chunk : Chunk) :
    (place c.order chunk ((c.fragments? tag chunk.sign).getD [])).1 ≤ c.size tag :=
  Nat.le_trans (place_fst_le ..) (h.held_le tag chunk.sign)

/-! ### Insertions -/

/-- An insertion keeps the cache sound. -/
theorem insert (h : c.Sound) (tag : String) (chunk : Chunk) : (c.insert tag chunk).Sound := by
  have hplace := (h.peer tag).place c.clock c.sequence chunk
  refine ⟨?_, fun t p hfind => ?_, fun t p hfind => ?_⟩
  · -- both counters move by the same, and neither goes below zero
    have htotal := Table.total_insert PeerCache.size c.peers tag
      ((c.peer tag).place c.order c.clock c.sequence chunk)
    have hamount : c.peers.amount PeerCache.size tag = (c.peer tag).size := c.size_eq tag
    have hmemory := h.memory_eq
    have hleft := h.left_le tag chunk
    have hsize := c.size_eq tag
    rw [insert_peers, insert_memory]
    rw [fragments?_eq] at hleft ⊢
    simp only [PeerCache.place] at htotal ⊢
    omega
  · rw [insert_peers] at hfind
    rcases Table.find?_insert_cases hfind with ⟨-, hp⟩ | hold
    · rw [hp]
      exact hplace
    · exact h.peers_sound t p hold
  · rw [insert_peers] at hfind
    rcases Table.find?_insert_cases hfind with ⟨-, hp⟩ | hold
    · rw [hp]
      intro hempty
      -- the sign of the fragment is there
      have hnone := (Table.entries_eq_nil_iff _).1 hempty chunk.sign
      simp [PeerCache.place] at hnone
    · exact h.signs_ne_nil t p hold

/-! ### Clearings -/

/-- A clearing takes from the counter the bytes that it returns. -/
theorem memory_clear (h : c.Sound) (tag sign : String) :
    (c.clear tag sign).2.memory + (c.clear tag sign).1 = c.memory := by
  have hheld := h.held_le tag sign
  have hsize := h.size_le tag
  rw [← clear_fst] at hheld
  rw [clear_memory]
  omega

/-- A clearing keeps the cache sound. -/
theorem clear (h : c.Sound) (tag sign : String) : (c.clear tag sign).2.Sound := by
  rcases c.clear_cases tag sign with ⟨-, heq⟩ | ⟨fragments, hsome, hfind, heq⟩
  · rw [heq]
    exact h
  rw [fragments?_eq] at hsome
  have hdrop := (h.peer tag).drop sign
  rw [hsome, Option.getD_some] at hdrop
  have hheld := (h.peer tag).held_le sign
  rw [hsome, Option.getD_some] at hheld
  have hamount : c.peers.amount PeerCache.size tag = (c.peer tag).size := c.size_eq tag
  have herase := Table.total_erase PeerCache.size c.peers tag
  have hmemory := h.memory_eq
  rw [heq]
  by_cases hempty : ((c.peer tag).signs.erase sign).entries = []
  · -- the peer goes with its last sign, whose bytes are all that it held
    have hlast : (c.peer tag).size = bytesOf fragments := by
      have hzero := hdrop.size_eq
      have htotal : ((c.peer tag).drop sign (bytesOf fragments)).signs.total bytesOf = 0 := by
        simp [Table.total, Table.values, PeerCache.drop, hempty]
      rw [htotal] at hzero
      simp only [PeerCache.drop] at hzero
      omega
    refine ⟨?_, fun t p hp => ?_, fun t p hp => ?_⟩
    · simp only [if_pos hempty]
      omega
    · simp only [if_pos hempty] at hp
      exact h.peers_sound t p (Table.find?_of_erase hp)
    · simp only [if_pos hempty] at hp
      exact h.signs_ne_nil t p (Table.find?_of_erase hp)
  · have hinsert := Table.total_insert PeerCache.size c.peers tag
      ((c.peer tag).drop sign (bytesOf fragments))
    refine ⟨?_, fun t p hp => ?_, fun t p hp => ?_⟩
    · -- the peer stays, and its counter goes down by what the sign held
      simp only [if_neg hempty]
      simp only [PeerCache.drop] at hinsert ⊢
      omega
    · simp only [if_neg hempty] at hp
      rcases Table.find?_insert_cases hp with ⟨-, hp⟩ | hold
      · rw [hp]
        exact hdrop
      · exact h.peers_sound t p hold
    · simp only [if_neg hempty] at hp
      rcases Table.find?_insert_cases hp with ⟨-, hp⟩ | hold
      · rw [hp]
        exact hempty
      · exact h.signs_ne_nil t p hold

/-- A clearing takes the age of the sign that it empties, and leaves the others as they
    are. -/
theorem ages_clear (h : c.Sound) (tag sign t : String) :
    ((c.clear tag sign).2.peer t).ages
      = (c.peer t).ages.filter fun age => ¬ (t = tag ∧ age.sign = sign) := by
  rcases c.clear_cases tag sign with ⟨hnone, heq⟩ | ⟨fragments, -, -, heq⟩
  · -- what holds nothing has no age
    rw [heq]
    refine (List.filter_eq_self.2 fun age hage => ?_).symm
    have hheld := (h.mem_arrived t age.sign).1 (List.mem_map_of_mem hage)
    unfold holds at hheld
    rw [decide_eq_true_iff]
    rintro ⟨rfl, rfl⟩
    rw [hnone] at hheld
    cases hheld
  · have hpeer : (c.clear tag sign).2.peer t = if t = tag then
        if ((c.peer tag).signs.erase sign).entries = [] then {}
        else (c.peer tag).drop sign (bytesOf fragments)
        else c.peer t := by
      show ((c.clear tag sign).2.peers.find? t).getD {} = _
      rw [heq]
      by_cases ht : t = tag
      · subst ht
        rw [if_pos rfl]
        dsimp only
        split
        · rw [Table.find?_erase_self]
          rfl
        · rw [Table.find?_insert_self]
          rfl
      · rw [if_neg ht]
        dsimp only
        split
        · rw [Table.find?_erase_ne _ ht]
          rfl
        · rw [Table.find?_insert_ne _ ht]
          rfl
    rw [hpeer]
    by_cases ht : t = tag
    · subst ht
      rw [if_pos rfl]
      split
      · next hempty =>
        -- all signs of the peer are the one that goes
        refine (List.filter_eq_nil_iff.2 fun age hage => ?_).symm
        have hheld := ((h.peer t).mem_ages age.sign).1 (List.mem_map_of_mem hage)
        have hgone := (Table.entries_eq_nil_iff _).1 hempty age.sign
        rw [Table.find?_erase] at hgone
        split at hgone
        · next hsign => simp [hsign]
        · rw [hgone] at hheld
          cases hheld
      · simp [PeerCache.drop]
    · rw [if_neg ht]
      refine (List.filter_eq_self.2 fun age _ => ?_).symm
      simp [ht]

/-- A clearing takes the sign that it empties out of the ages and leaves the order of the
    others. -/
theorem arrived_clear (h : c.Sound) (tag sign t : String) :
    (c.clear tag sign).2.arrived t
      = (c.arrived t).filter fun s => (c.clear tag sign).2.holds t s := by
  unfold arrived
  rw [h.ages_clear, List.filter_map]
  congr 1
  apply List.filter_congr
  intro age hage
  have hheld := (h.mem_arrived t age.sign).1 (List.mem_map_of_mem hage)
  rw [Function.comp_apply, holds_clear, hheld]
  simp

/-! ### Evictions and writes -/

theorem evict (h : c.Sound) : c.evict.2.Sound := by
  rcases c.evict_cases with ⟨-, heq⟩ | ⟨tag, age, -, heq⟩
  · rw [heq]
    exact h
  · rw [heq]
    exact h.clear tag age.sign

/-- An eviction takes from the counter the bytes that it frees. -/
theorem memory_evict (h : c.Sound) : c.evict.2.memory + c.evict.1 = c.memory := by
  rcases c.evict_cases with ⟨-, heq⟩ | ⟨tag, age, -, heq⟩
  · rw [heq]
    rfl
  · rw [heq]
    exact h.memory_clear tag age.sign

/-- A write keeps the cache sound. -/
theorem write (h : c.Sound) (chunk : Chunk) : (c.write chunk).Sound := by
  cases howner : chunk.info.owner with
  | none =>
    unfold ChunkCache.write
    rw [howner]
    exact h
  | some tag =>
    rw [write_of_owner howner]
    split
    · exact (h.insert tag chunk).evict
    · exact h.insert tag chunk

theorem shutdown (c : ChunkCache) : c.shutdown.Sound where
  memory_eq := rfl
  peers_sound := by simp [ChunkCache.shutdown]
  signs_ne_nil := by simp [ChunkCache.shutdown]

/-! ### Reports -/

/-- The counter shows what the counters of the listed peers show together. -/
theorem memory_eq_sum (h : c.Sound) : c.memory = (c.peers.keys.map c.size).sum := by
  rw [h.memory_eq, Table.total_eq_sum_keys]
  rfl

/-- The counter of a peer shows the bytes of all its fragments. -/
theorem size_eq_flatten (h : c.Sound) {tag : String} {p : PeerCache}
    (hfind : c.peers.find? tag = some p) : c.size tag = bytesOf p.signs.values.flatten := by
  rw [bytesOf_flatten]
  unfold size
  rw [hfind]
  exact (h.peers_sound tag p hfind).size_eq

/-- The ages list every sign of a peer exactly once. -/
theorem arrived_perm (h : c.Sound) (tag : String) :
    (c.arrived tag).Perm (c.peer tag).signs.keys := by
  unfold arrived
  rw [List.perm_ext_iff_of_nodup (h.peer tag).ages_nodup (c.peer tag).signs.keys_nodup]
  intro sign
  rw [Table.mem_keys_iff]
  exact (h.peer tag).mem_ages sign

/-- **What is reported of a peer**: its signs in the order of their first arrival, each with
    the number of its fragments and of its bytes. -/
theorem signs_eq (h : c.Sound) (tag : String) :
    c.signs tag = (c.arrived tag).map fun sign =>
      { sign
        fragments := c.count tag sign
        bytes := bytesOf ((c.fragments? tag sign).getD []) } := by
  have hsigns : c.signs tag = (c.peer tag).ages.filterMap fun age =>
      ((c.peer tag).signs.find? age.sign).map fun fs =>
        { sign := age.sign, fragments := fs.length, bytes := bytesOf fs } := by
    unfold signs ChunkCache.peer
    cases c.peers.find? tag with
    | none => rfl
    | some p => rfl
  rw [hsigns]
  unfold arrived
  rw [List.map_map, ← List.filterMap_eq_map]
  apply List.filterMap_congr
  intro age hage
  -- every age leads to fragments, so no sign is left out
  have hsome := ((h.peer tag).mem_ages age.sign).1 (List.mem_map_of_mem hage)
  obtain ⟨fragments, hfind⟩ := Option.isSome_iff_exists.1 hsome
  simp [count, fragments?_eq, hfind]

end Sound

end ChunkCache

end Parley
