import Parley.Proofs.Cache.Eviction

/-! # Keys do not interfere

  The keys of a cache share a lot: the signs of a peer have one list of ages and one counter,
  all keys together have the counter that calls for evictions, and a peer comes and goes with
  its signs. As long as nothing is evicted, none of this shows: **whatever a cache is asked
  about a key, it answers as if there had been the operations on this key alone**.

  An operation files what it is about under its own key (`filed_perform`). Two runs are
  compared, that of all operations and that of those on one key. After each step both hold the
  same under the key, and the second run holds nothing else (`Alone`). So it never holds more
  bytes than the first, and has room whenever the first has.
-/

namespace Parley

open ChunkCache (bytesOf)

/-! ## Section 1: Operations on a key -/

/-- The key that an operation is about, a peer and one of its signs. -/
def CacheOp.key? : CacheOp → Option (String × String)
  | .write chunk => chunk.info.owner.map fun tag => (tag, chunk.sign)
  | .clear tag sign => some (tag, sign)
  | .shutdown => none
  | .tick _ => none

/-- The operations on a key, in their order. -/
def CacheOp.on (key : String × String) (ops : List CacheOp) : List CacheOp :=
  ops.filter fun op => op.key? = some key

/-- What is held under a key after an operation on the key, if nothing is evicted. -/
def CacheOp.file (order : ReadOrder) (held : Option (List Chunk)) : CacheOp → Option (List Chunk)
  | .write chunk => some (ChunkCache.place order chunk (held.getD [])).2
  | .clear .. | .shutdown => none
  | .tick _ => held

theorem CacheOp.on_cons_of_eq {op : CacheOp} {key : String × String} (h : op.key? = some key)
    (ops : List CacheOp) : on key (op :: ops) = op :: on key ops :=
  List.filter_cons_of_pos (decide_eq_true h)

theorem CacheOp.on_cons_of_ne {op : CacheOp} {key : String × String} (h : op.key? ≠ some key)
    (ops : List CacheOp) : on key (op :: ops) = on key ops :=
  List.filter_cons_of_neg fun htrue => h (of_decide_eq_true htrue)

namespace ChunkCache

/-- The cache after some operations. -/
def performAll (c : ChunkCache) (ops : List CacheOp) : ChunkCache := ops.foldl perform c

/-- What an operation takes in leaves the bytes within the threshold. -/
def HasRoom (c : ChunkCache) : CacheOp → Prop
  | .write chunk => (c.takeIn chunk).memory ≤ c.threshold.toNat
  | _ => True

instance decidableHasRoom (c : ChunkCache) : (op : CacheOp) → Decidable (c.HasRoom op)
  | .write _ => inferInstanceAs (Decidable (_ ≤ _))
  | .clear .. | .shutdown | .tick _ => isTrue trivial

/-- The bytes never exceed the threshold while some operations are performed. -/
def Roomy (c : ChunkCache) : List CacheOp → Prop
  | [] => True
  | op :: ops => c.HasRoom op ∧ (c.perform op).Roomy ops

instance decidableRoomy : (c : ChunkCache) → (ops : List CacheOp) → Decidable (c.Roomy ops)
  | _, [] => isTrue trivial
  | c, op :: ops =>
    have := decidableRoomy (c.perform op) ops
    inferInstanceAs (Decidable (_ ∧ _))

/-- Two caches answer alike whatever they are asked about a key, and what a clearing of the
    key returns is the same. -/
structure SameAnswers (a b : ChunkCache) (tag sign : String) : Prop where
  read : ∀ index buffer, a.read? tag sign index buffer = b.read? tag sign index buffer
  fragment : ∀ index, a.fragment? tag sign index = b.fragment? tag sign index
  length : ∀ index, a.fragmentLength? tag sign index = b.fragmentLength? tag sign index
  count : a.count tag sign = b.count tag sign
  completed : a.completed tag sign = b.completed tag sign
  cleared : (a.clear tag sign).1 = (b.clear tag sign).1

/-- All answers about a key are about its fragments, in one read order. -/
theorem sameAnswers_of_fragments {a b : ChunkCache} {tag sign : String}
    (horder : a.order = b.order) (h : a.fragments? tag sign = b.fragments? tag sign) :
    a.SameAnswers b tag sign := by
  have hfragment : ∀ index, a.fragment? tag sign index = b.fragment? tag sign index := by
    intro index
    unfold fragment?
    rw [h, horder]
  refine ⟨fun index buffer => ?_, hfragment, fun index => ?_, ?_, ?_, ?_⟩
  · unfold read?
    rw [hfragment]
  · unfold fragmentLength?
    rw [hfragment]
  · unfold count
    rw [h]
  · unfold completed
    rw [h]
  · rw [clear_fst, clear_fst, h]

/-! ## Section 2: One key on its own -/

/-- A sound cache that holds nothing but what is under one key counts the bytes of that. -/
theorem Sound.memory_of_only {c : ChunkCache} (h : c.Sound) {tag sign : String}
    (honly : ∀ t s, ¬ (t = tag ∧ s = sign) → c.fragments? t s = none) :
    c.memory = bytesOf ((c.fragments? tag sign).getD []) := by
  have hpeers : ∀ t, t ≠ tag → c.peers.find? t = none := by
    intro t ht
    rw [h.find?_peers_eq_none_iff]
    intro s
    unfold holds
    rw [honly t s fun hkey => ht hkey.1]
    rfl
  have hsigns : ∀ s, s ≠ sign → (c.peer tag).signs.find? s = none := by
    intro s hs
    rw [← fragments?_eq]
    exact honly tag s fun hkey => hs hkey.2
  calc c.memory
    _ = c.peers.total PeerCache.size := h.memory_eq
    _ = c.peers.amount PeerCache.size tag := c.peers.total_of_only _ hpeers
    _ = (c.peer tag).size := c.size_eq tag
    _ = (c.peer tag).signs.total bytesOf := (h.peer tag).size_eq
    _ = (c.peer tag).signs.amount bytesOf sign := (c.peer tag).signs.total_of_only _ hsigns
    _ = bytesOf ((c.fragments? tag sign).getD []) := by
      rw [PeerCache.Sound.amount_signs, fragments?_eq]

/-- A cache that holds under a key what another one holds there, and holds nothing else. -/
structure Alone (whole own : ChunkCache) (tag sign : String) : Prop where
  whole_sound : whole.Sound
  own_sound : own.Sound
  order_eq : whole.order = own.order
  threshold_eq : own.threshold = whole.threshold
  same : whole.fragments? tag sign = own.fragments? tag sign
  only : ∀ t s, ¬ (t = tag ∧ s = sign) → own.fragments? t s = none

namespace Alone

variable {whole own : ChunkCache} {tag sign : String}

theorem refl_new (threshold : UInt64) (order : ReadOrder) (tag sign : String) :
    Alone (new threshold order) (new threshold order) tag sign :=
  ⟨sound_new threshold order, sound_new threshold order, rfl, rfl, rfl, fun _ _ _ => rfl⟩

/-- A key on its own never takes more bytes. -/
theorem memory_le (h : Alone whole own tag sign) : own.memory ≤ whole.memory := by
  rw [h.own_sound.memory_of_only h.only, ← h.same]
  exact Nat.le_trans (h.whole_sound.held_le tag sign) (h.whole_sound.size_le tag)

/-- A fragment that is taken in under the key. -/
theorem insert (h : Alone whole own tag sign) {chunk : Chunk} (hsign : chunk.sign = sign) :
    Alone (whole.insert tag chunk) (own.insert tag chunk) tag sign := by
  refine ⟨h.whole_sound.insert tag chunk, h.own_sound.insert tag chunk, h.order_eq,
    h.threshold_eq, ?_, fun t s hkey => ?_⟩
  · subst hsign
    rw [fragments?_insert, fragments?_insert, if_pos ⟨rfl, rfl⟩, if_pos ⟨rfl, rfl⟩, h.order_eq,
      h.same]
  · rw [fragments?_insert, hsign, if_neg hkey]
    exact h.only t s hkey

end Alone

/-! ## Section 3: Two runs -/

/-- Where there is room, a write takes its fragment in and evicts nothing. -/
theorem write_of_hasRoom {c : ChunkCache} {chunk : Chunk} (h : c.HasRoom (.write chunk)) :
    c.write chunk = c.takeIn chunk := by
  rw [write_eq_takeIn, if_neg fun hover => Nat.not_lt.2 h hover.2]

/-- **An operation files what it is about under its key**, and no other key is touched. -/
theorem filed_perform {c : ChunkCache} {op : CacheOp} (hroom : c.HasRoom op)
    (hshutdown : op ≠ .shutdown) (tag sign : String) :
    (c.perform op).fragments? tag sign =
      if op.key? = some (tag, sign) then op.file c.order (c.fragments? tag sign)
      else c.fragments? tag sign := by
  cases op with
  | shutdown => exact absurd rfl hshutdown
  | tick now =>
    rw [if_neg (by simp [CacheOp.key?])]
    rfl
  | clear t s =>
    have hkey? : (CacheOp.clear t s).key? = some (tag, sign) ↔ tag = t ∧ sign = s := by
      simp only [CacheOp.key?, Option.some.injEq, Prod.mk.injEq, eq_comm]
    show (c.clear t s).2.fragments? tag sign = _
    simp only [fragments?_clear, hkey?, CacheOp.file]
  | write chunk =>
    show (c.write chunk).fragments? tag sign = _
    rw [write_of_hasRoom hroom]
    cases howner : chunk.info.owner with
    | none =>
      have hkey? : (CacheOp.write chunk).key? ≠ some (tag, sign) := by
        simp [CacheOp.key?, howner]
      rw [(takeIn_of_none howner).1, if_neg hkey?]
    | some t =>
      have hkey? : (CacheOp.write chunk).key? = some (tag, sign) ↔ tag = t ∧ sign = chunk.sign := by
        simp only [CacheOp.key?, howner, Option.map_some, Option.some.injEq, Prod.mk.injEq, eq_comm]
      rw [(takeIn_of_some howner).1, fragments?_insert]
      simp only [hkey?, CacheOp.file]
      split
      · next hkey => rw [hkey.1, hkey.2]
      · rfl

/-- A run files what the operations on a key are about, one after the other. -/
theorem filed_performAll {c : ChunkCache} {ops : List CacheOp} (hroomy : c.Roomy ops)
    (hshutdown : .shutdown ∉ ops) (tag sign : String) :
    (c.performAll ops).fragments? tag sign =
      (CacheOp.on (tag, sign) ops).foldl (CacheOp.file c.order) (c.fragments? tag sign) := by
  induction ops generalizing c with
  | nil => rfl
  | cons op ops ih =>
    obtain ⟨hroom, hrest⟩ := hroomy
    have hhead : op ≠ .shutdown := fun heq => hshutdown (heq ▸ List.mem_cons_self)
    have hstep := filed_perform hroom hhead tag sign
    have hrun := ih hrest fun hmem => hshutdown (List.mem_cons_of_mem op hmem)
    rw [perform_order, hstep] at hrun
    show ((c.perform op).performAll ops).fragments? tag sign = _
    rw [hrun]
    by_cases hkey : op.key? = some (tag, sign)
    · rw [if_pos hkey, CacheOp.on_cons_of_eq hkey, List.foldl_cons]
    · rw [if_neg hkey, CacheOp.on_cons_of_ne hkey]

namespace Alone

variable {whole own : ChunkCache} {tag sign : String}

/-- There is room for an operation on the key in the second run too, where the key takes no more
    bytes than all keys do in the first. -/
theorem hasRoom (h : Alone whole own tag sign) {op : CacheOp} (hkey : op.key? = some (tag, sign))
    (hroom : whole.HasRoom op) : own.HasRoom op := by
  cases op with
  | shutdown => trivial
  | tick now => trivial
  | clear t s => trivial
  | write chunk =>
    obtain ⟨t, howner, hpair⟩ := Option.map_eq_some_iff.1 hkey
    obtain ⟨rfl, hsign⟩ := Prod.mk.inj hpair
    have hbound : (whole.takeIn chunk).memory ≤ whole.threshold.toNat := hroom
    show (own.takeIn chunk).memory ≤ own.threshold.toNat
    rw [(takeIn_of_some howner).1] at hbound ⊢
    rw [h.threshold_eq]
    exact Nat.le_trans (h.insert hsign).memory_le hbound

/-- **An operation on the key is performed in both runs.** -/
theorem perform (h : Alone whole own tag sign) {op : CacheOp} (hkey : op.key? = some (tag, sign))
    (hroom : whole.HasRoom op) (hshutdown : op ≠ .shutdown) :
    Alone (whole.perform op) (own.perform op) tag sign := by
  have hown := h.hasRoom hkey hroom
  refine ⟨h.whole_sound.perform op, h.own_sound.perform op, ?_, ?_, ?_, fun t s hother => ?_⟩
  · rw [perform_order, perform_order, h.order_eq]
  · rw [perform_threshold, perform_threshold, h.threshold_eq]
  · rw [filed_perform hroom hshutdown, filed_perform hown hshutdown, if_pos hkey,
      if_pos hkey, h.same, h.order_eq]
  · have hkey' : op.key? ≠ some (t, s) := by
      rw [hkey]
      intro heq
      obtain ⟨rfl, rfl⟩ := Prod.mk.inj (Option.some.inj heq)
      exact hother ⟨rfl, rfl⟩
    rw [filed_perform hown hshutdown, if_neg hkey', h.only t s hother]

/-- **Any other operation is performed in the first run alone.** -/
theorem perform_other (h : Alone whole own tag sign) {op : CacheOp}
    (hkey : op.key? ≠ some (tag, sign)) (hroom : whole.HasRoom op) (hshutdown : op ≠ .shutdown) :
    Alone (whole.perform op) own tag sign := by
  refine ⟨h.whole_sound.perform op, h.own_sound, ?_, ?_, ?_, h.only⟩
  · rw [perform_order, h.order_eq]
  · rw [perform_threshold, h.threshold_eq]
  · rw [filed_perform hroom hshutdown, if_neg hkey]
    exact h.same

/-- The operations of a run, one after the other. -/
theorem performAll (h : Alone whole own tag sign) {ops : List CacheOp} (hroomy : whole.Roomy ops)
    (hshutdown : .shutdown ∉ ops) :
    Alone (whole.performAll ops) (own.performAll (CacheOp.on (tag, sign) ops)) tag sign := by
  induction ops generalizing whole own with
  | nil => exact h
  | cons op ops ih =>
    obtain ⟨hroom, hrest⟩ := hroomy
    have hhead : op ≠ .shutdown := fun heq => hshutdown (heq ▸ List.mem_cons_self)
    have htail : .shutdown ∉ ops := fun hmem => hshutdown (List.mem_cons_of_mem op hmem)
    by_cases hkey : op.key? = some (tag, sign)
    · rw [CacheOp.on_cons_of_eq hkey]
      exact ih (h.perform hkey hroom hhead) hrest htail
    · rw [CacheOp.on_cons_of_ne hkey]
      exact ih (h.perform_other hkey hroom hhead) hrest htail

end Alone

/-- The first operations of a run have room if all of them have. -/
theorem Roomy.of_prefix {c : ChunkCache} {before ops : List CacheOp} (h : c.Roomy ops)
    (hbefore : before <+: ops) : c.Roomy before := by
  induction before generalizing c ops with
  | nil => trivial
  | cons op before ih =>
    obtain ⟨after, rfl⟩ := hbefore
    exact ⟨h.1, ih h.2 (List.prefix_append before after)⟩

/-- **Keys do not interfere.** Fragments are written and signs are cleared in any order, under any
    keys and in either read order, and the bytes held never exceed the threshold. Then at any
    moment, whatever the cache is asked about a key and whatever a clearing of this key
    returns, is what it would be if only the operations on this key had been performed, in
    their order, on an empty cache. What is held under the key then are the fragments that these
    operations file, one after the other. -/
theorem keys_do_not_interfere (threshold : UInt64) (order : ReadOrder) {ops : List CacheOp}
    (hshutdown : .shutdown ∉ ops) (hroomy : (new threshold order).Roomy ops) (tag sign : String) :
    ∀ before, before <+: ops →
      ((new threshold order).performAll before).SameAnswers
        ((new threshold order).performAll (CacheOp.on (tag, sign) before)) tag sign ∧
      ((new threshold order).performAll before).fragments? tag sign =
        (CacheOp.on (tag, sign) before).foldl (CacheOp.file order) none := by
  intro before hbefore
  have hprefix := hroomy.of_prefix hbefore
  have hnever : .shutdown ∉ before := fun hmem => hshutdown (hbefore.subset hmem)
  have halone := (Alone.refl_new threshold order tag sign).performAll hprefix hnever
  exact ⟨sameAnswers_of_fragments halone.order_eq halone.same,
    filed_performAll hprefix hnever tag sign⟩

/-- Two signs of one peer and the same sign of another; the first peer is dropped with its last
    sign and comes back, in another order of indices. -/
def interleaved : List CacheOp :=
  let arrive (tag : String) (chunk : Chunk) : CacheOp :=
    .write { chunk with info := { owner := some tag } }
  [arrive "p" (Chunk.make "a" 3 0 2 [1, 2]), arrive "q" (Chunk.make "a" 3 0 2 [7]),
    arrive "p" (Chunk.make "b" 1 0 1 [4]), .clear "p" "b", .clear "p" "a",
    arrive "p" (Chunk.make "a" 3 1 2 [3]), arrive "q" (Chunk.make "a" 3 1 2 [8, 9]),
    arrive "p" (Chunk.make "a" 3 0 2 [1, 2])]

theorem keys_do_not_interfere_interleaved :
    .shutdown ∉ interleaved ∧ (new 6 .declared).Roomy interleaved ∧
      (CacheOp.on ("p", "a") interleaved).length = 4 ∧
      ((new 6 .declared).performAll interleaved).SameAnswers
        ((new 6 .declared).performAll (CacheOp.on ("p", "a") interleaved)) "p" "a" ∧
      (((new 6 .declared).performAll interleaved).clear "p" "a").1 = 3 := by
  have hshutdown : .shutdown ∉ interleaved := by simp [interleaved]
  have hroomy : (new 6 .declared).Roomy interleaved := by decide
  exact ⟨hshutdown, hroomy, by decide,
    (keys_do_not_interfere 6 .declared hshutdown hroomy "p" "a" interleaved List.prefix_rfl).1,
    by decide⟩

end ChunkCache

end Parley
