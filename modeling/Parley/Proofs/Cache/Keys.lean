import Parley.ChunkCache
import Parley.Proofs.Cache.Total

/-! # The fragment cache key by key

  A key is a peer and one of its signs. Here is what every operation of the cache
  does to what is held under a key: **an insertion touches one key, a clearing
  empties one key**, an eviction is a clearing, and a write is an insertion that
  an eviction may follow.
-/

namespace Parley

/-! ## Placing a fragment -/

namespace ChunkCache

@[simp] theorem bytesOf_nil : bytesOf [] = 0 := rfl

@[simp] theorem bytesOf_cons (f : Chunk) (fragments : List Chunk) :
    bytesOf (f :: fragments) = f.length + bytesOf fragments := rfl

/-- The bytes of some fragments are the sum of their lengths. -/
theorem bytesOf_eq_sum (fragments : List Chunk) :
    bytesOf fragments = (fragments.map Chunk.length).sum := by
  induction fragments with
  | nil => rfl
  | cons f rest ih => rw [bytesOf_cons, ih, List.map_cons, List.sum_cons]

theorem bytesOf_append (a b : List Chunk) : bytesOf (a ++ b) = bytesOf a + bytesOf b := by
  simp only [bytesOf_eq_sum, List.map_append, List.sum_append]

theorem bytesOf_flatten (lists : List (List Chunk)) :
    bytesOf lists.flatten = (lists.map bytesOf).sum := by
  induction lists with
  | nil => rfl
  | cons fragments rest ih => rw [List.flatten_cons, bytesOf_append, ih, List.map_cons,
      List.sum_cons]

theorem replace_cons_self {chunk f : Chunk} (h : f.index = chunk.index) (rest : List Chunk) :
    replace chunk (f :: rest) = (f.length, chunk :: rest) := by
  simp [replace, h]

theorem replace_cons_ne {chunk f : Chunk} (h : f.index ≠ chunk.index) (rest : List Chunk) :
    replace chunk (f :: rest) = ((replace chunk rest).1, f :: (replace chunk rest).2) := by
  simp [replace, h]

theorem bytesOf_replace (chunk : Chunk) (fragments : List Chunk) :
    bytesOf (replace chunk fragments).2 + (replace chunk fragments).1
      = bytesOf fragments + chunk.length := by
  induction fragments with
  | nil => simp [replace]
  | cons f rest ih =>
    by_cases h : f.index = chunk.index
    · rw [replace_cons_self h]
      simp only [bytesOf_cons]
      omega
    · rw [replace_cons_ne h]
      simp only [bytesOf_cons]
      omega

theorem replace_fst_le (chunk : Chunk) (fragments : List Chunk) :
    (replace chunk fragments).1 ≤ bytesOf fragments := by
  induction fragments with
  | nil => simp [replace]
  | cons f rest ih =>
    by_cases h : f.index = chunk.index
    · rw [replace_cons_self h]
      simp
    · rw [replace_cons_ne h]
      simp only [bytesOf_cons]
      omega

/-- After a replacement there are the new fragment and the old ones of other indices. -/
theorem mem_replace (chunk f : Chunk) {fragments : List Chunk}
    (h : f ∈ (replace chunk fragments).2) : f = chunk ∨ f ∈ fragments := by
  induction fragments with
  | nil => simpa [replace] using h
  | cons g rest ih =>
    by_cases hg : g.index = chunk.index
    · rw [replace_cons_self hg] at h
      rcases List.mem_cons.1 h with h | h
      · exact .inl h
      · exact .inr (List.mem_cons_of_mem _ h)
    · rw [replace_cons_ne hg] at h
      rcases List.mem_cons.1 h with h | h
      · exact .inr (h ▸ List.mem_cons_self)
      · rcases ih h with h | h
        · exact .inl h
        · exact .inr (List.mem_cons_of_mem _ h)

/-- The indices after a replacement: those from before, and the new one behind them if it is
    not among them. -/
theorem indices_replace (chunk : Chunk) (fragments : List Chunk) :
    (replace chunk fragments).2.map Chunk.index
      = if chunk.index ∈ fragments.map Chunk.index then fragments.map Chunk.index
        else fragments.map Chunk.index ++ [chunk.index] := by
  induction fragments with
  | nil => simp [replace]
  | cons f rest ih =>
    by_cases h : f.index = chunk.index
    · rw [replace_cons_self h]
      simp [h]
    · rw [replace_cons_ne h]
      have hne : chunk.index ≠ f.index := Ne.symm h
      rw [List.map_cons, ih, List.map_cons]
      by_cases hmem : chunk.index ∈ rest.map Chunk.index
      · rw [if_pos hmem, if_pos (List.mem_cons_of_mem _ hmem)]
      · rw [if_neg hmem, if_neg fun h => (List.mem_cons.1 h).elim hne hmem]
        rfl

/-- A replacement keeps the indices distinct. -/
theorem nodup_indices_replace (chunk : Chunk) {fragments : List Chunk}
    (h : (fragments.map Chunk.index).Nodup) :
    ((replace chunk fragments).2.map Chunk.index).Nodup := by
  rw [indices_replace]
  split
  · exact h
  · next hnot =>
    rw [List.nodup_append]
    refine ⟨h, List.pairwise_singleton _ _, fun a ha b hb => ?_⟩
    rw [List.mem_singleton] at hb
    exact fun hab => hnot (hb ▸ hab ▸ ha)

/-- A fragment of an index that is not there goes behind the others. -/
theorem replace_of_not_mem {chunk : Chunk} {fragments : List Chunk}
    (h : chunk.index ∉ fragments.map Chunk.index) :
    replace chunk fragments = (0, fragments ++ [chunk]) := by
  induction fragments with
  | nil => rfl
  | cons f rest ih =>
    rw [List.map_cons, List.mem_cons, not_or] at h
    rw [replace_cons_ne (Ne.symm h.1), ih h.2]
    rfl

/-- What is placed makes up for what left. -/
theorem bytesOf_place (order : ReadOrder) (chunk : Chunk) (fragments : List Chunk) :
    bytesOf (place order chunk fragments).2 + (place order chunk fragments).1
      = bytesOf fragments + chunk.length := by
  cases order with
  | arrival => simp [place, bytesOf_append]
  | declared => exact bytesOf_replace chunk fragments

/-- Nothing leaves that was not there. -/
theorem place_fst_le (order : ReadOrder) (chunk : Chunk) (fragments : List Chunk) :
    (place order chunk fragments).1 ≤ bytesOf fragments := by
  cases order with
  | arrival => exact Nat.zero_le _
  | declared => exact replace_fst_le chunk fragments

theorem place_ne_nil (order : ReadOrder) (chunk : Chunk) (fragments : List Chunk) :
    (place order chunk fragments).2 ≠ [] := by
  cases order with
  | arrival => simp [place]
  | declared =>
    -- the index of the fragment is there afterwards
    intro h
    have hindices := indices_replace chunk fragments
    unfold place at h
    rw [h] at hindices
    split at hindices
    · next hmem => simp_all
    · simp at hindices

/-- After a placement there are the new fragment and old ones. -/
theorem mem_place (order : ReadOrder) (chunk f : Chunk) {fragments : List Chunk}
    (h : f ∈ (place order chunk fragments).2) : f = chunk ∨ f ∈ fragments := by
  cases order with
  | arrival =>
    rcases List.mem_append.1 h with hold | hnew
    · exact .inr hold
    · exact .inl (List.mem_singleton.1 hnew)
  | declared => exact mem_replace chunk f h

/-- In either order, a fragment of an index that is not there goes behind the others. -/
theorem place_of_not_mem (order : ReadOrder) {chunk : Chunk} {fragments : List Chunk}
    (h : chunk.index ∉ fragments.map Chunk.index) :
    place order chunk fragments = (0, fragments ++ [chunk]) := by
  cases order with
  | arrival => rfl
  | declared => exact replace_of_not_mem h

/-! ## Peers -/

/-- What is held of a peer, nothing if the peer is not listed. -/
def peer (c : ChunkCache) (tag : String) : PeerCache := (c.peers.find? tag).getD {}

/-- The signs of a peer in the order of their first arrival. -/
def arrived (c : ChunkCache) (tag : String) : List String := (c.peer tag).ages.map SignAge.sign

/-- Whether something is held under a key. -/
def holds (c : ChunkCache) (tag sign : String) : Bool := (c.fragments? tag sign).isSome

theorem fragments?_eq (c : ChunkCache) (tag sign : String) :
    c.fragments? tag sign = (c.peer tag).signs.find? sign := by
  unfold fragments? peer
  cases c.peers.find? tag with
  | none => rfl
  | some p => rfl

theorem size_eq (c : ChunkCache) (tag : String) : c.size tag = (c.peer tag).size := by
  unfold size peer
  cases c.peers.find? tag with
  | none => rfl
  | some p => rfl

end ChunkCache

/-- A peer with a fragment placed under its sign; a sign that is new is the last one to
    arrive. -/
def PeerCache.place (p : PeerCache) (order : ReadOrder) (clock sequence : Nat) (chunk : Chunk) :
    PeerCache :=
  let placed := ChunkCache.place order chunk ((p.signs.find? chunk.sign).getD [])
  { signs := p.signs.insert chunk.sign placed.2
    ages := p.ages ++
      if (p.signs.find? chunk.sign).isSome then []
      else [{ sign := chunk.sign, arrived := clock, sequence }]
    size := p.size + chunk.length - placed.1 }

/-- A peer without one of its signs. -/
def PeerCache.drop (p : PeerCache) (sign : String) (freed : Nat) : PeerCache :=
  { signs := p.signs.erase sign
    ages := p.ages.filter fun age => age.sign ≠ sign
    size := p.size - freed }

namespace ChunkCache

/-! ## Insertions -/

@[simp] theorem insert_order (c : ChunkCache) (tag : String) (chunk : Chunk) :
    (c.insert tag chunk).order = c.order := rfl

@[simp] theorem insert_threshold (c : ChunkCache) (tag : String) (chunk : Chunk) :
    (c.insert tag chunk).threshold = c.threshold := rfl

/-- An insertion places the fragment under its peer. -/
theorem insert_peers (c : ChunkCache) (tag : String) (chunk : Chunk) :
    (c.insert tag chunk).peers
      = c.peers.insert tag ((c.peer tag).place c.order c.clock c.sequence chunk) := by
  unfold insert peer PeerCache.place
  -- a sign that is known is not listed again
  cases hknown : ((c.peers.find? tag).getD {}).signs.find? chunk.sign with
  | none => simp [hknown]
  | some fragments => simp [hknown]

theorem insert_memory (c : ChunkCache) (tag : String) (chunk : Chunk) :
    (c.insert tag chunk).memory
      = c.memory + chunk.length
        - (place c.order chunk ((c.fragments? tag chunk.sign).getD [])).1 := by
  rw [fragments?_eq]
  rfl

theorem insert_sequence (c : ChunkCache) (tag : String) (chunk : Chunk) :
    (c.insert tag chunk).sequence
      = c.sequence + if c.holds tag chunk.sign then 0 else 1 := by
  unfold insert holds
  rw [fragments?_eq]
  unfold peer
  cases hknown : ((c.peers.find? tag).getD {}).signs.find? chunk.sign with
  | none => simp [hknown]
  | some fragments => simp [hknown]

theorem peer_insert (c : ChunkCache) (tag : String) (chunk : Chunk) (other : String) :
    (c.insert tag chunk).peer other
      = if other = tag then (c.peer tag).place c.order c.clock c.sequence chunk
        else c.peer other := by
  show ((c.insert tag chunk).peers.find? other).getD {} = _
  rw [insert_peers, Table.find?_insert]
  split
  · rfl
  · rfl

/-- **An insertion touches one key.** -/
theorem fragments?_insert (c : ChunkCache) (tag : String) (chunk : Chunk) (t s : String) :
    (c.insert tag chunk).fragments? t s
      = if t = tag ∧ s = chunk.sign then
          some (place c.order chunk ((c.fragments? tag chunk.sign).getD [])).2
        else c.fragments? t s := by
  rw [fragments?_eq, peer_insert]
  by_cases ht : t = tag
  · -- of the peer itself, only the sign of the fragment
    subst ht
    rw [if_pos rfl]
    simp only [PeerCache.place, Table.find?_insert, fragments?_eq, true_and]
  · rw [if_neg ht, if_neg (fun h => ht h.1), fragments?_eq]

/-! ## Clearings -/

/-- A clearing of a key that holds nothing changes nothing; any other **drops the sign from
    its peer, and the peer with its last sign**. -/
theorem clear_cases (c : ChunkCache) (tag sign : String) :
    (c.fragments? tag sign = none ∧ c.clear tag sign = (0, c)) ∨
    ∃ fragments, c.fragments? tag sign = some fragments ∧
      c.peers.find? tag = some (c.peer tag) ∧
      c.clear tag sign = (bytesOf fragments,
        { c with
          peers :=
            if ((c.peer tag).signs.erase sign).entries = [] then c.peers.erase tag
            else c.peers.insert tag ((c.peer tag).drop sign (bytesOf fragments))
          memory := c.memory - bytesOf fragments }) := by
  cases hpeer : c.peers.find? tag with
  | none => exact .inl ⟨by simp [fragments?, hpeer], by simp [clear, hpeer]⟩
  | some p =>
    cases hsign : p.signs.find? sign with
    | none => exact .inl ⟨by simp [fragments?, hpeer, hsign], by simp [clear, hpeer, hsign]⟩
    | some fragments =>
      have hp : c.peer tag = p := by simp [peer, hpeer]
      refine .inr ⟨fragments, by simp [fragments?, hpeer, hsign], by rw [hp], ?_⟩
      rw [hp]
      simp only [clear, hpeer, hsign]
      rfl

@[simp] theorem clear_order (c : ChunkCache) (tag sign : String) :
    (c.clear tag sign).2.order = c.order := by
  rcases c.clear_cases tag sign with ⟨-, h⟩ | ⟨_, -, -, h⟩ <;> rw [h]

@[simp] theorem clear_threshold (c : ChunkCache) (tag sign : String) :
    (c.clear tag sign).2.threshold = c.threshold := by
  rcases c.clear_cases tag sign with ⟨-, h⟩ | ⟨_, -, -, h⟩ <;> rw [h]

@[simp] theorem clear_sequence (c : ChunkCache) (tag sign : String) :
    (c.clear tag sign).2.sequence = c.sequence := by
  rcases c.clear_cases tag sign with ⟨-, h⟩ | ⟨_, -, -, h⟩ <;> rw [h]

/-- A clearing returns the bytes under its key. -/
theorem clear_fst (c : ChunkCache) (tag sign : String) :
    (c.clear tag sign).1 = bytesOf ((c.fragments? tag sign).getD []) := by
  rcases c.clear_cases tag sign with ⟨hnone, h⟩ | ⟨fragments, hsome, -, h⟩
  · rw [h, hnone]
    rfl
  · rw [h, hsome]
    rfl

theorem clear_memory (c : ChunkCache) (tag sign : String) :
    (c.clear tag sign).2.memory = c.memory - (c.clear tag sign).1 := by
  rcases c.clear_cases tag sign with ⟨-, h⟩ | ⟨_, -, -, h⟩
  · rw [h, Nat.sub_zero]
  · rw [h]

/-- After a clearing, another peer is as it was; its own peer lost the sign. -/
theorem find?_peers_clear (c : ChunkCache) (tag sign : String) (other : String) :
    (c.clear tag sign).2.peers.find? other = c.peers.find? other ∨
    other = tag ∧ ∃ fragments, c.fragments? tag sign = some fragments ∧
      c.peers.find? tag = some (c.peer tag) ∧
      (c.clear tag sign).2.peers.find? other
        = if ((c.peer tag).signs.erase sign).entries = [] then none
          else some ((c.peer tag).drop sign (bytesOf fragments)) := by
  rcases c.clear_cases tag sign with ⟨-, h⟩ | ⟨fragments, hsome, hfind, h⟩
  · exact .inl (by rw [h])
  · by_cases ho : other = tag
    · refine .inr ⟨ho, fragments, hsome, hfind, ?_⟩
      subst ho
      rw [h]
      dsimp only
      split
      · exact Table.find?_erase_self ..
      · exact Table.find?_insert_self ..
    · refine .inl ?_
      rw [h]
      dsimp only
      split
      · exact Table.find?_erase_ne _ ho
      · exact Table.find?_insert_ne _ ho _

/-- **A clearing empties one key.** -/
theorem fragments?_clear (c : ChunkCache) (tag sign : String) (t s : String) :
    (c.clear tag sign).2.fragments? t s
      = if t = tag ∧ s = sign then none else c.fragments? t s := by
  rcases c.clear_cases tag sign with ⟨hnone, h⟩ | ⟨fragments, hsome, hfind, h⟩
  · rw [h]
    split
    · next hkey => rw [hkey.1, hkey.2, hnone]
    · rfl
  · rw [h]
    unfold fragments?
    dsimp only
    by_cases ht : t = tag
    · subst ht
      rw [hfind]
      split
      · next hempty =>
        -- the sign was the only one of its peer
        have hother : s ≠ sign → (c.peer t).signs.find? s = none := by
          intro hs
          rw [← Table.find?_erase_ne (c.peer t).signs hs]
          exact (Table.entries_eq_nil_iff _).1 hempty s
        by_cases hs : s = sign
        · simp [hs]
        · simp [hs, hother hs]
      · by_cases hs : s = sign
        · simp [hs, PeerCache.drop]
        · simp [hs, PeerCache.drop, Table.find?_erase_ne]
    · -- dropped or not, the peer of the sign is another one
      have hpeers : (if ((c.peer tag).signs.erase sign).entries = [] then c.peers.erase tag
          else c.peers.insert tag ((c.peer tag).drop sign (bytesOf fragments))).find? t
            = c.peers.find? t := by
        split
        · exact Table.find?_erase_ne _ ht
        · exact Table.find?_insert_ne _ ht _
      rw [hpeers, if_neg fun hkey => ht hkey.1]

theorem holds_clear (c : ChunkCache) (tag sign : String) (t s : String) :
    (c.clear tag sign).2.holds t s = (c.holds t s && !decide (t = tag ∧ s = sign)) := by
  unfold holds
  rw [fragments?_clear]
  by_cases hkey : t = tag ∧ s = sign
  · simp [hkey]
  · simp [hkey]

/-! ## Evictions and writes -/

/-- An eviction clears the oldest key, if there is one. -/
theorem evict_cases (c : ChunkCache) :
    (c.oldest? = none ∧ c.evict = (0, c)) ∨
    ∃ tag age, c.oldest? = some (tag, age) ∧ c.evict = c.clear tag age.sign := by
  unfold evict
  cases c.oldest? with
  | none => exact .inl ⟨rfl, rfl⟩
  | some victim => exact .inr ⟨victim.1, victim.2, rfl, rfl⟩

/-- A write under a peer inserts, and above the threshold evicts. -/
theorem write_of_owner {chunk : Chunk} {tag : String} (h : chunk.info.owner = some tag)
    (c : ChunkCache) :
    c.write chunk
      = if c.threshold.toNat < (c.insert tag chunk).memory then (c.insert tag chunk).evict.2
        else c.insert tag chunk := by
  unfold write
  rw [h]
  rfl

/-- A write under a peer inserts, and may clear a key after that. -/
theorem write_cases {chunk : Chunk} {tag : String} (h : chunk.info.owner = some tag)
    (c : ChunkCache) :
    c.write chunk = c.insert tag chunk ∨
    ∃ t s, c.write chunk = ((c.insert tag chunk).clear t s).2 := by
  rw [write_of_owner h]
  split
  · rcases (c.insert tag chunk).evict_cases with ⟨-, heq⟩ | ⟨t, age, -, heq⟩
    · exact .inl (by rw [heq])
    · exact .inr ⟨t, age.sign, by rw [heq]⟩
  · exact .inl rfl

@[simp] theorem write_order (c : ChunkCache) (chunk : Chunk) :
    (c.write chunk).order = c.order := by
  cases howner : chunk.info.owner with
  | none => simp [write, howner]
  | some tag =>
    rcases write_cases howner c with h | ⟨t, s, h⟩ <;> rw [h] <;> simp

@[simp] theorem write_threshold (c : ChunkCache) (chunk : Chunk) :
    (c.write chunk).threshold = c.threshold := by
  cases howner : chunk.info.owner with
  | none => simp [write, howner]
  | some tag =>
    rcases write_cases howner c with h | ⟨t, s, h⟩ <;> rw [h] <;> simp

end ChunkCache

end Parley
