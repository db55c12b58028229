import Parley.Proofs.Cache.Counters

/-! # Histories of the fragment cache

  A **history** is a cache together with what it went through: the keys that hold
  something, in the order in which they came to, and the bytes that were written,
  cleared and evicted so far. It is kept beside the cache and never read by it.

  In every history, whatever the operations and their order:

  - the counters of the cache agree with the fragments that it holds, and the
    ages with the order of arrival (`Accounted`);
  - no operation subtracts more from a counter than the counter shows
    (`Covered`);
  - the cache holds nothing but what was written to it (`run_allHeld`);
  - by arrival and without a shutdown, the bytes written are the bytes cleared,
    the bytes evicted and the bytes held.
-/

namespace Parley

open ChunkCache (bytesOf)

/-! ## Operations -/

/-- What is done to a fragment cache. -/
inductive CacheOp where
  /-- A fragment is taken in. -/
  | write (chunk : Chunk)
  /-- A sign is dropped. -/
  | clear (tag sign : String)
  /-- Everything is dropped. -/
  | shutdown
  /-- The clock is set; it may go back. -/
  | tick (now : Nat)

namespace ChunkCache

/-- The cache after an operation. -/
def perform (c : ChunkCache) : CacheOp → ChunkCache
  | .write chunk => c.write chunk
  | .clear tag sign => (c.clear tag sign).2
  | .shutdown => c.shutdown
  | .tick now => { c with clock := now }

/-- The keys that come to hold something with an operation. -/
def newcomers (c : ChunkCache) : CacheOp → List (String × String)
  | .write chunk =>
    match chunk.info.owner with
    | none => []
    | some tag => if c.holds tag chunk.sign then [] else [(tag, chunk.sign)]
  | _ => []

/-- The bytes that an operation writes under a peer. -/
def bytesWritten : CacheOp → Nat
  | .write chunk => if chunk.info.owner.isSome then chunk.length else 0
  | _ => 0

/-- The bytes that an operation returns as cleared. -/
def bytesCleared (c : ChunkCache) : CacheOp → Nat
  | .clear tag sign => (c.clear tag sign).1
  | _ => 0

/-- The bytes that the eviction after a write frees. -/
def bytesEvicted (c : ChunkCache) : CacheOp → Nat
  | .write chunk =>
    match chunk.info.owner with
    | none => 0
    | some tag =>
      if c.threshold.toNat < (c.insert tag chunk).memory then (c.insert tag chunk).evict.1 else 0
  | _ => 0

/-- A clearing subtracts no more from a counter than the counter shows. -/
def ClearCovered (c : ChunkCache) (tag sign : String) : Prop :=
  bytesOf ((c.fragments? tag sign).getD []) ≤ c.size tag ∧
  bytesOf ((c.fragments? tag sign).getD []) ≤ c.memory

/-- An operation subtracts no more from a counter than the counter shows: neither the
    fragment that a write replaces, nor what the eviction after it frees, nor what a
    clearing frees. -/
def Covered (c : ChunkCache) : CacheOp → Prop
  | .write chunk => ∀ tag, chunk.info.owner = some tag →
      (place c.order chunk ((c.fragments? tag chunk.sign).getD [])).1 ≤ c.size tag ∧
      (place c.order chunk ((c.fragments? tag chunk.sign).getD [])).1 ≤ c.memory ∧
      ∀ t age, (c.insert tag chunk).oldest? = some (t, age) →
        (c.insert tag chunk).ClearCovered t age.sign
  | .clear tag sign => c.ClearCovered tag sign
  | _ => True

end ChunkCache

/-! ## Histories -/

/-- A cache and what it went through. -/
structure CacheHistory where
  /-- The cache. -/
  cache : ChunkCache
  /-- The keys that hold something, the one that has for longest first. -/
  arrivals : List (String × String) := []
  /-- The bytes written under peers. -/
  written : Nat := 0
  /-- The bytes returned as cleared. -/
  cleared : Nat := 0
  /-- The bytes freed by evictions. -/
  evicted : Nat := 0

namespace CacheHistory

/-- The history after one more operation. -/
def step (h : CacheHistory) (op : CacheOp) : CacheHistory :=
  { cache := h.cache.perform op
    arrivals := (h.arrivals ++ h.cache.newcomers op).filter fun key =>
      (h.cache.perform op).holds key.1 key.2
    written := h.written + ChunkCache.bytesWritten op
    cleared := h.cleared + h.cache.bytesCleared op
    evicted := h.evicted + h.cache.bytesEvicted op }

/-- The history of a new cache. -/
def run (threshold : UInt64) (order : ReadOrder) (ops : List CacheOp) : CacheHistory :=
  ops.foldl step { cache := .new threshold order }

/-- The signs of a peer among keys. -/
def signsOf (tag : String) (keys : List (String × String)) : List String :=
  (keys.filter fun key => key.1 = tag).map Prod.snd

theorem signsOf_append (tag : String) (a b : List (String × String)) :
    signsOf tag (a ++ b) = signsOf tag a ++ signsOf tag b := by
  unfold signsOf
  rw [List.filter_append, List.map_append]

theorem signsOf_filter (tag : String) (keys : List (String × String))
    (keep : String → String → Bool) :
    signsOf tag (keys.filter fun key => keep key.1 key.2)
      = (signsOf tag keys).filter (keep tag) := by
  unfold signsOf
  rw [List.filter_map, List.filter_filter, List.filter_filter]
  congr 1
  apply List.filter_congr
  intro key _
  by_cases htag : key.1 = tag
  · simp [htag]
  · simp [htag]

/-- What is held, counted and listed by the cache agrees, and agrees with the arrivals. -/
structure Accounted (h : CacheHistory) : Prop where
  /-- The counter over all peers shows the sum of their counters. -/
  memory_eq : h.cache.memory = (h.cache.peers.keys.map h.cache.size).sum
  /-- The counter of a peer shows the sum of the lengths of its fragments. -/
  size_eq : ∀ tag p, h.cache.peers.find? tag = some p →
    h.cache.size tag = (p.signs.values.flatten.map Chunk.length).sum
  /-- A listed peer has a sign. -/
  signs_ne_nil : ∀ tag p, h.cache.peers.find? tag = some p → p.signs.keys ≠ []
  /-- A sign has a fragment. -/
  fragments_ne_nil : ∀ tag sign fragments,
    h.cache.fragments? tag sign = some fragments → fragments ≠ []
  /-- The ages list every sign of a peer exactly once. -/
  ages_perm : ∀ tag p, h.cache.peers.find? tag = some p →
    (p.ages.map SignAge.sign).Perm p.signs.keys
  /-- The ages list the signs of a peer in the order of their first arrival. -/
  ages_eq : ∀ tag p, h.cache.peers.find? tag = some p →
    p.ages.map SignAge.sign = signsOf tag h.arrivals
  /-- What is reported are these signs with their fragments and bytes. -/
  signs_eq : ∀ tag, h.cache.signs tag = (signsOf tag h.arrivals).map fun sign =>
    { sign
      fragments := h.cache.count tag sign
      bytes := bytesOf ((h.cache.fragments? tag sign).getD []) }

/-! ## What every operation keeps -/

/-- The cache is sound and its ages list the arrivals in their order. -/
structure Sound (h : CacheHistory) : Prop where
  cache : h.cache.Sound
  arrivals : ∀ tag, signsOf tag h.arrivals = h.cache.arrived tag

end CacheHistory

namespace ChunkCache

variable {c : ChunkCache}

namespace Sound

theorem filter_holds_arrived (h : c.Sound) (tag : String) :
    (c.arrived tag).filter (c.holds tag) = c.arrived tag :=
  List.filter_eq_self.2 fun sign hsign => (h.mem_arrived tag sign).1 hsign

/-- A write takes the sign that it evicts out of the ages. -/
theorem arrived_write (h : c.Sound) {chunk : Chunk} {tag : String}
    (howner : chunk.info.owner = some tag) (t : String) :
    (c.write chunk).arrived t
      = ((c.insert tag chunk).arrived t).filter ((c.write chunk).holds t) := by
  have hinsert := h.insert tag chunk
  rcases write_cases howner c with heq | ⟨t', s', heq⟩
  · rw [heq, hinsert.filter_holds_arrived]
  · rw [heq]
    exact hinsert.arrived_clear t' s' t

/-- By arrival, a write adds its bytes and takes away what it evicts. -/
theorem memory_write (h : c.Sound) (horder : c.order = .arrival) (chunk : Chunk) :
    (c.write chunk).memory + c.bytesEvicted (.write chunk)
      = c.memory + bytesWritten (.write chunk) := by
  cases howner : chunk.info.owner with
  | none => simp [bytesEvicted, bytesWritten, howner, ChunkCache.write]
  | some tag =>
    have hinsert := memory_insert horder tag chunk
    have hevict := (h.insert tag chunk).memory_evict
    rw [write_of_owner howner]
    simp only [bytesEvicted, bytesWritten, howner, Option.isSome_some, if_true]
    split
    · rw [hevict, hinsert]
    · rw [hinsert, Nat.add_zero]

/-- Every operation keeps the cache sound. -/
theorem perform (h : c.Sound) (op : CacheOp) : (c.perform op).Sound := by
  cases op with
  | write chunk => exact h.write chunk
  | clear tag sign => exact h.clear tag sign
  | shutdown => exact ChunkCache.Sound.shutdown c
  | tick now => exact ⟨h.memory_eq, h.peers_sound, h.signs_ne_nil⟩

/-- In a sound cache every operation is covered. -/
theorem covered (h : c.Sound) (op : CacheOp) : c.Covered op := by
  have hclear : ∀ {c : ChunkCache}, c.Sound → ∀ tag sign, c.ClearCovered tag sign :=
    fun h tag sign => ⟨h.held_le tag sign, Nat.le_trans (h.held_le tag sign) (h.size_le tag)⟩
  cases op with
  | write chunk =>
    -- the eviction works on what the insertion leaves
    intro tag _
    have hleft := h.left_le tag chunk
    exact ⟨hleft, Nat.le_trans hleft (h.size_le tag),
      fun t age _ => hclear (h.insert tag chunk) t age.sign⟩
  | clear tag sign => exact hclear h tag sign
  | shutdown => trivial
  | tick now => trivial

end Sound

@[simp] theorem perform_order (c : ChunkCache) (op : CacheOp) :
    (c.perform op).order = c.order := by
  cases op with
  | write chunk => exact write_order c chunk
  | clear tag sign => exact clear_order c tag sign
  | shutdown => rfl
  | tick now => rfl

/-- Every fragment that is held is of a kind. -/
def AllHeld (P : Chunk → Prop) (c : ChunkCache) : Prop :=
  ∀ tag sign held, c.fragments? tag sign = some held → ∀ f ∈ held, P f

variable {P : Chunk → Prop}

theorem AllHeld.insert (h : c.AllHeld P) (tag : String) {chunk : Chunk} (hchunk : P chunk) :
    (c.insert tag chunk).AllHeld P := by
  intro t s held hheld f hf
  rw [fragments?_insert] at hheld
  split at hheld
  · rw [← Option.some.inj hheld] at hf
    rcases mem_place _ _ _ hf with rfl | hold
    · exact hchunk
    · cases hknown : c.fragments? tag chunk.sign with
      | none =>
        rw [hknown] at hold
        cases hold
      | some old =>
        rw [hknown] at hold
        exact h _ _ old hknown f hold
  · exact h t s held hheld f hf

theorem AllHeld.clear (h : c.AllHeld P) (tag sign : String) : (c.clear tag sign).2.AllHeld P := by
  intro t s held hheld
  rw [fragments?_clear] at hheld
  split at hheld
  · cases hheld
  · exact h t s held hheld

/-- Every operation keeps to the kind of what it writes. -/
theorem AllHeld.perform (h : c.AllHeld P) {op : CacheOp} (hop : ∀ chunk, op = .write chunk → P chunk) :
    (c.perform op).AllHeld P := by
  cases op with
  | write chunk =>
    cases howner : chunk.info.owner with
    | none =>
      have hsame : c.perform (.write chunk) = c := by
        show c.write chunk = c
        unfold write
        rw [howner]
      rw [hsame]
      exact h
    | some tag =>
      have hinsert := h.insert tag (hop chunk rfl)
      show (c.write chunk).AllHeld P
      rcases write_cases howner c with heq | ⟨t, s, heq⟩
      · rw [heq]
        exact hinsert
      · rw [heq]
        exact hinsert.clear t s
  | clear tag sign => exact h.clear tag sign
  | shutdown => exact fun _ _ _ hheld => nomatch hheld
  | tick now => exact h

end ChunkCache

namespace CacheHistory

variable {h : CacheHistory}

/-- Every operation keeps the ages in step with the arrivals. -/
theorem Sound.step (hs : h.Sound) (op : CacheOp) : (h.step op).Sound := by
  refine ⟨hs.cache.perform op, fun tag => ?_⟩
  show signsOf tag ((h.arrivals ++ h.cache.newcomers op).filter fun key =>
    (h.cache.perform op).holds key.1 key.2) = (h.cache.perform op).arrived tag
  rw [signsOf_filter, signsOf_append, hs.arrivals]
  cases op with
  | write chunk =>
    cases howner : chunk.info.owner with
    | none =>
      have hsame : h.cache.perform (.write chunk) = h.cache := by
        simp [ChunkCache.perform, ChunkCache.write, howner]
      have hnone : h.cache.newcomers (.write chunk) = [] := by
        simp [ChunkCache.newcomers, howner]
      rw [hsame, hnone]
      exact (List.append_nil _).symm ▸ hs.cache.filter_holds_arrived tag
    | some owner =>
      -- the newcomer is what the insertion appends to the ages
      have hnew : h.cache.arrived tag ++ signsOf tag (h.cache.newcomers (.write chunk))
          = (h.cache.insert owner chunk).arrived tag := by
        rw [ChunkCache.arrived_insert]
        congr 1
        simp only [ChunkCache.newcomers, howner]
        by_cases hheld : h.cache.holds owner chunk.sign
        · simp [hheld, signsOf]
        · by_cases htag : tag = owner
          · simp [hheld, htag, signsOf]
          · simp [hheld, htag, Ne.symm htag, signsOf]
      rw [hnew]
      exact (hs.cache.arrived_write howner tag).symm
  | clear t sign =>
    have hnone : h.cache.newcomers (.clear t sign) = [] := rfl
    rw [hnone]
    exact (List.append_nil _).symm ▸ (hs.cache.arrived_clear t sign tag).symm
  | shutdown =>
    -- nothing is held any more, so no arrival is left
    have hnone : ∀ s ∈ h.cache.arrived tag ++ signsOf tag (h.cache.newcomers .shutdown),
        ¬ (h.cache.perform .shutdown).holds tag s = true := by
      intro s _
      simp [ChunkCache.perform, ChunkCache.shutdown, ChunkCache.holds, ChunkCache.fragments?]
    rw [List.filter_eq_nil_iff.2 hnone]
    rfl
  | tick now =>
    have hnone : h.cache.newcomers (.tick now) = [] := rfl
    rw [hnone]
    exact (List.append_nil _).symm ▸ hs.cache.filter_holds_arrived tag

/-- What holds of a new cache and is kept by every operation holds of every run. -/
theorem run_induction {P : CacheHistory → Prop} (threshold : UInt64) (order : ReadOrder)
    (start : P { cache := .new threshold order }) (ops : List CacheOp)
    (step : ∀ h op, op ∈ ops → P h → P (h.step op)) : P (run threshold order ops) := by
  unfold run
  generalize hinit : ({ cache := .new threshold order } : CacheHistory) = h at start
  clear hinit
  -- on the operations, for whatever history they start from
  induction ops generalizing h with
  | nil => exact start
  | cons op rest ih =>
    exact ih (fun h' op' hmem => step h' op' (List.mem_cons_of_mem _ hmem)) (h.step op)
      (step h op List.mem_cons_self start)

theorem run_sound (threshold : UInt64) (order : ReadOrder) (ops : List CacheOp) :
    (run threshold order ops).Sound := by
  apply run_induction
  · exact ⟨ChunkCache.sound_new threshold order, fun tag => rfl⟩
  · intro h op _ hs
    exact hs.step op

theorem run_order (threshold : UInt64) (order : ReadOrder) (ops : List CacheOp) :
    (run threshold order ops).cache.order = order := by
  apply run_induction (P := fun h => h.cache.order = order)
  · rfl
  · intro h op _ horder
    exact (h.cache.perform_order op).trans horder

/-- **A run holds nothing but what it wrote.** -/
theorem run_allHeld {P : Chunk → Prop} (threshold : UInt64) (order : ReadOrder)
    {ops : List CacheOp} (hops : ∀ chunk, .write chunk ∈ ops → P chunk) :
    (run threshold order ops).cache.AllHeld P := by
  apply run_induction (P := fun h => h.cache.AllHeld P)
  · exact fun _ _ _ hheld => nomatch hheld
  · rintro h op hmem hheld
    exact hheld.perform fun chunk hop => hops chunk (hop ▸ hmem)

/-- By arrival and without a shutdown no byte is lost. -/
theorem run_conserves (threshold : UInt64) (ops : List CacheOp) (hops : .shutdown ∉ ops) :
    (run threshold .arrival ops).written
      = (run threshold .arrival ops).cleared + (run threshold .arrival ops).evicted
        + (run threshold .arrival ops).cache.memory := by
  -- the bytes are conserved by a sound cache that reads by arrival
  have hall := run_induction
    (P := fun h => h.cache.Sound ∧ h.cache.order = .arrival ∧
      h.written = h.cleared + h.evicted + h.cache.memory)
    threshold .arrival ⟨ChunkCache.sound_new threshold .arrival, rfl, rfl⟩ ops
    fun h op hmem ⟨hs, horder, hbytes⟩ => by
      refine ⟨hs.perform op, (h.cache.perform_order op).trans horder, ?_⟩
      simp only [step]
      cases op with
      | write chunk =>
        have hwrite := hs.memory_write horder chunk
        simp only [ChunkCache.bytesCleared, ChunkCache.perform]
        omega
      | clear tag sign =>
        have hclear := hs.memory_clear tag sign
        simp only [ChunkCache.bytesCleared, ChunkCache.bytesEvicted, ChunkCache.bytesWritten,
          ChunkCache.perform]
        omega
      | shutdown => exact absurd hmem hops
      | tick now => exact hbytes
  exact hall.2.2

theorem Sound.accounted (hs : h.Sound) : h.Accounted where
  memory_eq := hs.cache.memory_eq_sum
  size_eq := by
    intro tag p hfind
    rw [hs.cache.size_eq_flatten hfind, ChunkCache.bytesOf_eq_sum]
  signs_ne_nil := by
    intro tag p hfind hkeys
    exact hs.cache.signs_ne_nil tag p hfind (List.map_eq_nil_iff.1 hkeys)
  fragments_ne_nil := by
    intro tag sign fragments hfind
    rw [ChunkCache.fragments?_eq] at hfind
    exact (hs.cache.peer tag).fragments_ne_nil sign fragments hfind
  ages_perm := by
    intro tag p hfind
    have hpeer : h.cache.peer tag = p := by simp [ChunkCache.peer, hfind]
    have hperm := hs.cache.arrived_perm tag
    rw [hpeer] at hperm
    unfold ChunkCache.arrived at hperm
    rwa [hpeer] at hperm
  ages_eq := by
    intro tag p hfind
    rw [hs.arrivals]
    simp [ChunkCache.arrived, ChunkCache.peer, hfind]
  signs_eq := by
    intro tag
    rw [hs.arrivals]
    exact hs.cache.signs_eq tag

/-! ## The account of every run -/

/-- **The books of the cache balance.** After any operations on a new cache, what it holds,
    counts and lists agrees; the next operation, whichever it is, subtracts no more from a
    counter than the counter shows; by declared index no two fragments of a sign have one
    index; and by arrival, if nothing was shut down, the bytes written under peers are those
    cleared, those evicted and those held. -/
theorem run_accounted (threshold : UInt64) (order : ReadOrder) (ops : List CacheOp) :
    (run threshold order ops).Accounted ∧
    (∀ op, (run threshold order ops).cache.Covered op) ∧
    (order = .declared → ∀ tag sign fragments,
      (run threshold order ops).cache.fragments? tag sign = some fragments →
        (fragments.map Chunk.index).Nodup) ∧
    (order = .arrival → .shutdown ∉ ops →
      (run threshold order ops).written
        = (run threshold order ops).cleared + (run threshold order ops).evicted
          + (run threshold order ops).cache.memory) := by
  have hs := run_sound threshold order ops
  refine ⟨hs.accounted, hs.cache.covered, ?_, ?_⟩
  · intro hdeclared tag sign fragments hfind
    rw [ChunkCache.fragments?_eq] at hfind
    have horder := (run_order threshold order ops).trans hdeclared
    exact (hs.cache.peer tag).indices_nodup horder sign fragments hfind
  · intro harrival hops
    subst harrival
    exact run_conserves threshold ops hops

/-- Two signs of a peer, more bytes than five, and a chunk without a peer. -/
def overfull : List CacheOp :=
  [.write { Chunk.make "a" 4 0 1 [1, 2, 3, 4] with info := { owner := some "p" } },
    .write { Chunk.make "b" 3 0 1 [5, 6, 7] with info := { owner := some "p" } },
    .write (Chunk.make "c" 1 0 1 [8]),
    .clear "p" "b"]

theorem run_accounted_overfull :
    (run 5 .arrival overfull).written = 7 ∧ (run 5 .arrival overfull).evicted = 4 ∧
    (run 5 .arrival overfull).written
      = (run 5 .arrival overfull).cleared + (run 5 .arrival overfull).evicted
        + (run 5 .arrival overfull).cache.memory :=
  ⟨by decide, by decide, (run_accounted 5 .arrival overfull).2.2.2 rfl (by simp [overfull])⟩

end CacheHistory

end Parley
