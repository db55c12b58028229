import Parley.Proofs.Cache.History

/-! # Which sign is evicted

  An eviction compares the oldest signs of all peers by their ages, which hold a time and a
  number. A history lists the keys of all peers in the order of their arrival and knows
  neither. This module shows that the two agree, if no first arrival is earlier on the
  clock than one before it: **the sign evicted is the first among all arrivals**.

  What carries the proof is a log of the first arrivals (`Dated`): with the peers taken out
  it is the list of ages of each of them, with the ages taken out it is the list of
  arrivals, and along it every age is older than those behind. An insertion adds to
  its end, a clearing takes one key out of it, so that a sign that comes back is the newest.
-/

namespace Parley

open ChunkCache (bytesOf)

theorem SignAge.older_iff {a b : SignAge} :
    a.older b = true ↔
      a.arrived < b.arrived ∨ a.arrived = b.arrived ∧ a.sequence < b.sequence := by
  simp [SignAge.older]

namespace ChunkCache

variable {c : ChunkCache}

/-! ## Section 1: The oldest of all candidates -/

/-- The one that is older than all others is what remains of a comparison one by one. -/
theorem foldl_olderOf {x : String × SignAge} (rest : List (String × SignAge)) :
    ∀ first, x ∈ first :: rest → (∀ y ∈ first :: rest, y = x ∨ x.2.older y.2 = true) →
      rest.foldl olderOf first = x := by
  induction rest with
  | nil =>
    intro first hmem _
    exact (List.mem_singleton.1 hmem).symm
  | cons second rest ih =>
    intro first hmem hleast
    show rest.foldl olderOf (olderOf first second) = x
    have hwinner : olderOf first second = first ∨ olderOf first second = second := by
      unfold olderOf
      split
      · exact .inr rfl
      · exact .inl rfl
    apply ih
    · -- of two, one is dropped only for an older one, so the oldest of all stays
      rcases List.mem_cons.1 hmem with rfl | hrest
      · rcases hleast second (by simp) with rfl | holder
        · simp [olderOf]
        · have hnot : second.2.older x.2 = false := by
            rw [SignAge.older_iff] at holder
            rw [Bool.eq_false_iff, Ne, SignAge.older_iff]
            omega
          simp [olderOf, hnot]
      · rcases List.mem_cons.1 hrest with rfl | hrest
        · rcases hleast first (by simp) with rfl | holder
          · simp [olderOf]
          · simp [olderOf, holder]
        · exact List.mem_cons_of_mem _ hrest
    · intro y hy
      apply hleast
      rcases List.mem_cons.1 hy with rfl | hy
      · rcases hwinner with heq | heq <;> rw [heq] <;> simp
      · simp [hy]

/-- The candidates are the first ages of all peers. -/
theorem mem_candidates {e : String × SignAge} :
    e ∈ c.candidates ↔ (c.peer e.1).ages.head? = some e.2 := by
  obtain ⟨tag, age⟩ := e
  unfold candidates
  rw [List.mem_filterMap]
  constructor
  · rintro ⟨⟨t, p⟩, hp, hage⟩
    obtain ⟨x, hx, heq⟩ := Option.map_eq_some_iff.1 hage
    obtain ⟨rfl, rfl⟩ := Prod.mk.inj heq
    have hpeer : c.peer t = p := by
      simp [peer, (c.peers.mem_entries_iff t p).1 hp]
    rw [hpeer]
    exact hx
  · intro hage
    unfold peer at hage
    cases hfind : c.peers.find? tag with
    | none =>
      -- a peer that is not listed has no ages
      rw [hfind] at hage
      cases hage
    | some p =>
      rw [hfind] at hage
      exact ⟨(tag, p), (c.peers.mem_entries_iff tag p).2 hfind,
        Option.map_eq_some_iff.2 ⟨age, hage, rfl⟩⟩

theorem oldest?_eq_some {x : String × SignAge} (hmem : x ∈ c.candidates)
    (hleast : ∀ y ∈ c.candidates, y = x ∨ x.2.older y.2 = true) : c.oldest? = some x := by
  unfold oldest?
  cases hcandidates : c.candidates with
  | nil =>
    rw [hcandidates] at hmem
    cases hmem
  | cons first rest =>
    rw [hcandidates] at hmem hleast
    exact congrArg some (foldl_olderOf rest first hmem hleast)

/-! ## Section 2: The log of first arrivals -/

/-- A log of when each key that holds something came to: the ages of every peer and the
    arrivals of all of them are in it, and it goes from the oldest to the newest. -/
structure Dated (c : ChunkCache) (arrivals : List (String × String))
    (log : List (String × SignAge)) : Prop where
  /-- The keys of the log are the arrivals. -/
  arrivals_eq : arrivals = log.map fun e => (e.1, e.2.sign)
  /-- The entries of a peer are its ages. -/
  ages_eq : ∀ tag, (c.peer tag).ages = (log.filter fun e => e.1 = tag).map Prod.snd
  /-- Every entry is older than those behind it. -/
  ordered : log.Pairwise fun a b => a.2.older b.2 = true
  /-- The next number is new. -/
  sequence_lt : ∀ e ∈ log, e.2.sequence < c.sequence

/-- One key came before another, by their ages. -/
def Earlier (c : ChunkCache) (a b : String × String) : Prop :=
  ∃ x ∈ (c.peer a.1).ages, ∃ y ∈ (c.peer b.1).ages,
    x.sign = a.2 ∧ y.sign = b.2 ∧ x.older y = true

/-- The entry that a key gets if it comes now. -/
def stamp (c : ChunkCache) (key : String × String) : String × SignAge :=
  (key.1, { sign := key.2, arrived := c.clock, sequence := c.sequence })

namespace Dated

variable {arrivals : List (String × String)} {log : List (String × SignAge)}

theorem mem_ages (h : c.Dated arrivals log) {tag : String} {age : SignAge} :
    age ∈ (c.peer tag).ages ↔ (tag, age) ∈ log := by
  rw [h.ages_eq, List.mem_map]
  constructor
  · rintro ⟨⟨t, x⟩, hx, rfl⟩
    obtain ⟨hmem, htag⟩ := List.mem_filter.1 hx
    rw [← show t = tag from of_decide_eq_true htag]
    exact hmem
  · intro hmem
    exact ⟨(tag, age), List.mem_filter.2 ⟨hmem, decide_eq_true rfl⟩, rfl⟩

/-- The arrivals are the keys that hold something. -/
theorem mem_arrivals (h : c.Dated arrivals log) (hs : c.Sound) (tag sign : String) :
    (tag, sign) ∈ arrivals ↔ c.holds tag sign = true := by
  rw [← hs.mem_arrived tag sign, h.arrivals_eq]
  unfold arrived
  simp only [List.mem_map, h.mem_ages]
  constructor
  · rintro ⟨⟨t, age⟩, hmem, heq⟩
    obtain ⟨rfl, rfl⟩ := Prod.mk.inj heq
    exact ⟨age, hmem, rfl⟩
  · rintro ⟨age, hmem, rfl⟩
    exact ⟨(tag, age), hmem, rfl⟩

/-- No key has two entries. -/
theorem nodup (h : c.Dated arrivals log) (hs : c.Sound) : arrivals.Nodup := by
  rw [h.arrivals_eq, List.Nodup, List.pairwise_map]
  rw [List.pairwise_iff_forall_sublist]
  intro a b hsub heq
  obtain ⟨htag, hsign⟩ := Prod.mk.inj heq
  -- both would be ages of one peer
  have hages := (hs.peer a.1).ages_nodup
  rw [h.ages_eq, List.map_map, List.Nodup, List.pairwise_map, List.pairwise_filter,
    List.pairwise_iff_forall_sublist] at hages
  exact hages hsub (decide_eq_true rfl) (decide_eq_true htag.symm) hsign

/-- The oldest key is the first of the log. -/
theorem oldest?_eq (h : c.Dated arrivals log) : c.oldest? = log.head? := by
  have hcandidate : ∀ {e}, e ∈ c.candidates → e ∈ log := by
    intro e he
    exact h.mem_ages.1 (List.mem_of_mem_head? (mem_candidates.1 he))
  cases hlog : log with
  | nil =>
    have hnone : c.candidates = [] := by
      apply List.eq_nil_iff_forall_not_mem.2
      intro e he
      have hmem := hcandidate he
      rw [hlog] at hmem
      cases hmem
    unfold oldest?
    rw [hnone]
    rfl
  | cons first rest =>
    subst hlog
    apply oldest?_eq_some
    · rw [mem_candidates, h.ages_eq]
      simp
    · -- all others are behind it
      intro y hy
      rcases List.mem_cons.1 (hcandidate hy) with rfl | hrest
      · exact .inl rfl
      · exact .inr ((List.pairwise_cons.1 h.ordered).1 y hrest)

/-- Along the log, ages and arrivals go the same way. -/
theorem earlier (h : c.Dated arrivals log) : arrivals.Pairwise c.Earlier := by
  rw [h.arrivals_eq, List.pairwise_map]
  refine h.ordered.imp_of_mem ?_
  intro a b ha hb holder
  exact ⟨a.2, h.mem_ages.2 ha, b.2, h.mem_ages.2 hb, rfl, rfl, holder⟩

/-! ### What operations do to it -/

/-- A fragment taken in adds to the end of the log, if its sign is new. -/
theorem insert (h : c.Dated arrivals log) (tag : String) (chunk : Chunk)
    (hclock : c.holds tag chunk.sign = false → ∀ e ∈ log, e.2.arrived ≤ c.clock) :
    (c.insert tag chunk).Dated
      (arrivals ++ if c.holds tag chunk.sign then [] else [(tag, chunk.sign)])
      (log ++ (if c.holds tag chunk.sign then [] else [(tag, chunk.sign)]).map c.stamp) := by
  cases hheld : c.holds tag chunk.sign with
  | true =>
    refine ⟨by simpa using h.arrivals_eq, ?_, by simpa using h.ordered, ?_⟩
    · intro t
      rw [ages_insert]
      simpa [hheld] using h.ages_eq t
    · rw [insert_sequence, hheld]
      simpa using h.sequence_lt
  | false =>
    refine ⟨?_, ?_, ?_, ?_⟩
    · simp [h.arrivals_eq, stamp]
    · intro t
      rw [ages_insert, h.ages_eq, hheld]
      by_cases ht : t = tag
      · simp [ht, stamp]
      · simp [ht, Ne.symm ht, stamp]
    · -- the clock shows no less than all times so far, and the number is new
      rw [List.pairwise_append]
      refine ⟨h.ordered, by simp, ?_⟩
      intro e he new hnew
      obtain rfl : new = c.stamp (tag, chunk.sign) := by simpa using hnew
      rw [SignAge.older_iff]
      have hbefore := hclock hheld e he
      have hnumber := h.sequence_lt e he
      simp only [stamp]
      omega
    · intro e he
      rw [insert_sequence, hheld]
      rcases List.mem_append.1 he with he | he
      · have hnumber := h.sequence_lt e he
        simp only [Bool.false_eq_true, if_false]
        omega
      · obtain rfl : e = c.stamp (tag, chunk.sign) := by simpa using he
        simp [stamp]

/-- A clearing takes the entry of its key out of the log. -/
theorem clear (h : c.Dated arrivals log) (hs : c.Sound) (tag sign : String) :
    (c.clear tag sign).2.Dated
      (arrivals.filter fun key => (c.clear tag sign).2.holds key.1 key.2)
      (log.filter fun e => ¬ (e.1 = tag ∧ e.2.sign = sign)) := by
  refine ⟨?_, ?_, h.ordered.filter _, ?_⟩
  · rw [h.arrivals_eq, List.filter_map]
    congr 1
    apply List.filter_congr
    intro e he
    have hheld : c.holds e.1 e.2.sign = true := by
      rw [← h.mem_arrivals hs, h.arrivals_eq]
      exact List.mem_map_of_mem he
    rw [Function.comp_apply, holds_clear, hheld]
    simp
  · intro t
    rw [hs.ages_clear, h.ages_eq, List.filter_map, List.filter_filter, List.filter_filter]
    congr 1
    apply List.filter_congr
    intro e _
    by_cases ht : e.1 = t
    · simp [ht]
    · simp [ht]
  · intro e he
    rw [clear_sequence]
    exact h.sequence_lt e (List.mem_filter.1 he).1

end Dated

/-! ## Section 3: What a write evicts -/

/-- The cache with a fragment taken in, before anything is evicted. -/
def takeIn (c : ChunkCache) (chunk : Chunk) : ChunkCache :=
  match chunk.info.owner with
  | none => c
  | some tag => c.insert tag chunk

theorem takeIn_of_none {chunk : Chunk} (howner : chunk.info.owner = none) :
    c.takeIn chunk = c ∧ c.newcomers (.write chunk) = [] := by
  simp [takeIn, newcomers, howner]

theorem takeIn_of_some {chunk : Chunk} {tag : String} (howner : chunk.info.owner = some tag) :
    c.takeIn chunk = c.insert tag chunk ∧
      c.newcomers (.write chunk) = if c.holds tag chunk.sign then [] else [(tag, chunk.sign)] := by
  simp [takeIn, newcomers, howner]

/-- One sign of one peer is gone, and nothing else. -/
structure Evicts (c : ChunkCache) (tag sign : String) (after : ChunkCache) : Prop where
  /-- There was something to evict. -/
  held : c.holds tag sign = true
  /-- Of all keys, this one lost its fragments. -/
  fragments_eq : ∀ t s, after.fragments? t s
    = if t = tag ∧ s = sign then none else c.fragments? t s
  /-- The counter goes down by its bytes. -/
  memory_eq : after.memory + bytesOf ((c.fragments? tag sign).getD []) = c.memory
  /-- Its peer goes if this was the last sign. -/
  gone_iff : after.peers.find? tag = none ↔ ∀ s, c.holds tag s = true → s = sign
  /-- Every other peer is as it was. -/
  others_eq : ∀ t, t ≠ tag → after.peers.find? t = c.peers.find? t
  /-- The other signs of the peer keep their ages and their order. -/
  ages_eq : (after.peer tag).ages = (c.peer tag).ages.filter fun age => age.sign ≠ sign

namespace Sound

theorem takeIn (h : c.Sound) (chunk : Chunk) : (c.takeIn chunk).Sound := by
  unfold ChunkCache.takeIn
  split
  · exact h
  · exact h.insert _ chunk

/-- The peers that are not listed are those that hold nothing. -/
theorem find?_peers_eq_none_iff (h : c.Sound) (tag : String) :
    c.peers.find? tag = none ↔ ∀ s, c.holds tag s = false := by
  unfold holds fragments?
  cases hfind : c.peers.find? tag with
  | none => simp
  | some p =>
    have hsome : ¬ ∀ s, p.signs.find? s = none := by
      rw [← Table.entries_eq_nil_iff]
      exact h.signs_ne_nil tag p hfind
    simpa using hsome

/-- A clearing of a key that holds something evicts it. -/
theorem evicts_clear (h : c.Sound) {tag sign : String} (hheld : c.holds tag sign = true) :
    c.Evicts tag sign (c.clear tag sign).2 := by
  refine ⟨hheld, c.fragments?_clear tag sign, ?_, ?_, ?_, ?_⟩
  · rw [← clear_fst]
    exact h.memory_clear tag sign
  · rw [(h.clear tag sign).find?_peers_eq_none_iff]
    simp only [holds_clear]
    constructor
    · intro hgone s hs
      have hboth := hgone s
      rw [hs] at hboth
      simpa using hboth
    · intro hlast s
      cases hs : c.holds tag s with
      | false => rfl
      | true => simp [hlast s hs]
  · intro t ht
    rcases c.find?_peers_clear tag sign t with hsame | ⟨hsame, -⟩
    · exact hsame
    · exact absurd hsame ht
  · rw [h.ages_clear]
    simp

end Sound

/-- A write takes a fragment in, and above the threshold evicts a key after that. -/
theorem write_eq_takeIn (c : ChunkCache) (chunk : Chunk) :
    c.write chunk = if chunk.info.owner.isSome ∧ c.threshold.toNat < (c.takeIn chunk).memory then
      (c.takeIn chunk).evict.2 else c.takeIn chunk := by
  unfold takeIn
  cases howner : chunk.info.owner with
  | none => simp [write, howner]
  | some tag =>
    rw [write_of_owner howner]
    simp

/-- After a fragment was taken in, a write may clear a key. -/
theorem write_takeIn_cases (c : ChunkCache) (chunk : Chunk) :
    c.write chunk = c.takeIn chunk ∨
    ∃ t s, c.write chunk = ((c.takeIn chunk).clear t s).2 := by
  cases howner : chunk.info.owner with
  | none =>
    refine .inl ?_
    rw [(takeIn_of_none howner).1]
    simp [write, howner]
  | some tag =>
    rw [(takeIn_of_some howner).1]
    exact write_cases howner c

namespace Dated

variable {arrivals : List (String × String)} {log : List (String × SignAge)}

/-- A fragment taken in adds its key to the end of the log, if that held nothing. -/
theorem takeIn (h : c.Dated arrivals log) (chunk : Chunk)
    (hclock : c.newcomers (.write chunk) ≠ [] → ∀ e ∈ log, e.2.arrived ≤ c.clock) :
    (c.takeIn chunk).Dated (arrivals ++ c.newcomers (.write chunk))
      (log ++ (c.newcomers (.write chunk)).map c.stamp) := by
  cases howner : chunk.info.owner with
  | none =>
    obtain ⟨hsame, hnone⟩ := takeIn_of_none (c := c) howner
    rw [hsame, hnone]
    simpa using h
  | some tag =>
    obtain ⟨hinsert, hnew⟩ := takeIn_of_some (c := c) howner
    rw [hnew] at hclock ⊢
    rw [hinsert]
    apply h.insert tag chunk
    intro hfree
    apply hclock
    rw [hfree]
    exact List.cons_ne_nil _ _

/-- All of the arrivals hold something. -/
theorem filter_holds (h : c.Dated arrivals log) (hs : c.Sound) :
    (arrivals.filter fun key => c.holds key.1 key.2) = arrivals :=
  List.filter_eq_self.2 fun key hkey => (h.mem_arrivals hs key.1 key.2).1 hkey

/-- What is evicted is the first of the arrivals, and the others stay in their order. -/
theorem evict (h : c.Dated arrivals log) (hs : c.Sound) {tag : String} {age : SignAge}
    {rest : List (String × SignAge)} (hlog : log = (tag, age) :: rest) :
    c.Evicts tag age.sign c.evict.2 ∧
      arrivals = (tag, age.sign) :: arrivals.filter fun key => c.evict.2.holds key.1 key.2 := by
  have hevict : c.evict = c.clear tag age.sign := by
    unfold ChunkCache.evict
    rw [h.oldest?_eq, hlog]
    rfl
  have harrivals : arrivals = (tag, age.sign) :: rest.map fun e => (e.1, e.2.sign) := by
    rw [h.arrivals_eq, hlog]
    rfl
  have hheld : c.holds tag age.sign = true := by
    rw [← h.mem_arrivals hs, harrivals]
    exact List.mem_cons_self
  have hnot := (List.nodup_cons.1 (harrivals ▸ h.nodup hs)).1
  rw [hevict]
  refine ⟨hs.evicts_clear hheld, ?_⟩
  -- the others are other keys, and they hold something
  have hkept : ∀ key ∈ rest.map (fun e => (e.1, e.2.sign)),
      (c.clear tag age.sign).2.holds key.1 key.2 = true := by
    intro key hkey
    have hother : c.holds key.1 key.2 = true := by
      rw [← h.mem_arrivals hs, harrivals]
      exact List.mem_cons_of_mem _ hkey
    have hne : ¬ (key.1 = tag ∧ key.2 = age.sign) := by
      rintro ⟨htag, hsign⟩
      apply hnot
      rw [← htag, ← hsign]
      exact hkey
    rw [holds_clear, hother]
    simp [hne]
  have hgone : (c.clear tag age.sign).2.holds tag age.sign = false := by
    rw [holds_clear]
    simp
  rw [harrivals, List.filter_cons_of_neg (by simp [hgone]), List.filter_eq_self.2 hkept]

end Dated

@[simp] theorem perform_threshold (c : ChunkCache) (op : CacheOp) :
    (c.perform op).threshold = c.threshold := by
  cases op with
  | write chunk => exact write_threshold c chunk
  | clear tag sign => exact clear_threshold c tag sign
  | shutdown => rfl
  | tick now => rfl

end ChunkCache

/-! ## Section 4: Along a history -/

namespace CacheHistory

variable {h : CacheHistory}

/-- When keys come to hold something in what follows on a history, as the clock shows it. -/
def firstArrivals (h : CacheHistory) : List CacheOp → List Nat
  | [] => []
  | op :: ops =>
    (h.cache.newcomers op).map (fun _ => h.cache.clock) ++ (h.step op).firstArrivals ops

/-- When nobody comes, the arrivals are those that still hold something. -/
theorem step_arrivals_of_nobody {op : CacheOp} (hnobody : h.cache.newcomers op = []) :
    (h.step op).arrivals
      = h.arrivals.filter fun key => (h.cache.perform op).holds key.1 key.2 := by
  unfold CacheHistory.step
  rw [hnobody, List.append_nil]

/-- The log of a history, with no time later than those that follow. -/
structure Chronicle (h : CacheHistory) (log : List (String × SignAge)) (following : List Nat) :
    Prop where
  dated : h.cache.Dated h.arrivals log
  before : ∀ e ∈ log, ∀ t ∈ following, e.2.arrived ≤ t

/-- A log is kept with a fragment taken in, whose key comes no earlier than those before. -/
theorem Chronicle.takeIn {log : List (String × SignAge)} {chunk : Chunk} {ops : List CacheOp}
    (hlog : h.Chronicle log (h.firstArrivals (.write chunk :: ops))) :
    (h.cache.takeIn chunk).Dated (h.arrivals ++ h.cache.newcomers (.write chunk))
      (log ++ (h.cache.newcomers (.write chunk)).map h.cache.stamp) := by
  apply hlog.dated.takeIn chunk
  intro hnew e he
  obtain ⟨key, hkey⟩ := List.exists_mem_of_ne_nil _ hnew
  exact hlog.before e he _ (List.mem_append_left _ (List.mem_map.2 ⟨key, hkey, rfl⟩))

/-- A log is kept with every operation. -/
theorem Chronicle.step {log : List (String × SignAge)} {op : CacheOp} {ops : List CacheOp}
    (hlog : h.Chronicle log (h.firstArrivals (op :: ops))) (hs : h.Sound)
    (hclock : (h.firstArrivals (op :: ops)).Pairwise (· ≤ ·)) :
    ∃ next, (h.step op).Chronicle next ((h.step op).firstArrivals ops) := by
  have hdated := hlog.dated
  have hlater : ∀ e ∈ log, ∀ t ∈ (h.step op).firstArrivals ops, e.2.arrived ≤ t := by
    intro e he t ht
    exact hlog.before e he t (List.mem_append_right _ ht)
  unfold firstArrivals at hclock
  cases op with
  | write chunk =>
    have hin := hlog.takeIn
    have hsound := hs.cache.takeIn chunk
    -- what is new in the log has the time of the clock, which comes before what follows
    have hall : ∀ e ∈ log ++ (h.cache.newcomers (.write chunk)).map h.cache.stamp,
        ∀ t ∈ (h.step (.write chunk)).firstArrivals ops, e.2.arrived ≤ t := by
      intro e he t ht
      rcases List.mem_append.1 he with he | he
      · exact hlater e he t ht
      · obtain ⟨key, hkey, rfl⟩ := List.mem_map.1 he
        exact (List.pairwise_append.1 hclock).2.2 _ (List.mem_map.2 ⟨key, hkey, rfl⟩) t ht
    rcases h.cache.write_takeIn_cases chunk with hwrite | ⟨t, s, hwrite⟩
    · refine ⟨_, ?_, hall⟩
      have hkept := hin.filter_holds hsound
      rw [← hwrite] at hin hkept
      rw [← hkept] at hin
      exact hin
    · have hcleared := hin.clear hsound t s
      rw [← hwrite] at hcleared
      exact ⟨_, hcleared, fun e he => hall e (List.mem_filter.1 he).1⟩
  | clear tag sign =>
    have hcleared := hdated.clear hs.cache tag sign
    have harrivals : (h.step (.clear tag sign)).arrivals = _ := step_arrivals_of_nobody rfl
    exact ⟨_, harrivals ▸ hcleared, fun e he => hlater e (List.mem_filter.1 he).1⟩
  | shutdown =>
    refine ⟨[], ⟨?_, fun _ => rfl, List.Pairwise.nil, by simp⟩, by simp⟩
    -- nothing is held any more
    apply List.filter_eq_nil_iff.2
    intro key _
    simp [ChunkCache.perform, ChunkCache.shutdown, ChunkCache.holds, ChunkCache.fragments?]
  | tick now =>
    refine ⟨log, ⟨?_, hdated.ages_eq, hdated.ordered, hdated.sequence_lt⟩, hlater⟩
    have harrivals : (h.step (.tick now)).arrivals = _ := step_arrivals_of_nobody rfl
    exact (harrivals.trans (hdated.filter_holds hs.cache)).trans hdated.arrivals_eq

/-- A log is kept along every history in which the clock never goes back between first
    arrivals. -/
theorem Chronicle.foldl {following : List CacheOp} (ops : List CacheOp) :
    ∀ {h : CacheHistory} {log}, h.Chronicle log (h.firstArrivals (ops ++ following)) → h.Sound →
      (h.firstArrivals (ops ++ following)).Pairwise (· ≤ ·) →
        ∃ last, (ops.foldl CacheHistory.step h).Chronicle last
          ((ops.foldl CacheHistory.step h).firstArrivals following) := by
  induction ops with
  | nil =>
    intro h log hlog _ _
    exact ⟨log, hlog⟩
  | cons op ops ih =>
    intro h log hlog hs hclock
    obtain ⟨next, hnext⟩ := hlog.step hs hclock
    exact ih hnext (hs.step op) (List.pairwise_append.1 hclock).2.1

theorem chronicle_new (threshold : UInt64) (order : ReadOrder) (following : List Nat) :
    Chronicle { cache := .new threshold order } [] following where
  dated := ⟨rfl, fun _ => rfl, List.Pairwise.nil, by simp⟩
  before := by simp

theorem run_threshold (threshold : UInt64) (order : ReadOrder) (ops : List CacheOp) :
    (run threshold order ops).cache.threshold = threshold := by
  apply run_induction (P := fun h => h.cache.threshold = threshold)
  · rfl
  · intro h op _ hthreshold
    exact (h.cache.perform_threshold op).trans hthreshold

/-- **An eviction removes the sign that arrived first, and one for each breach.** Let the times of
    first arrivals never go back. With the fragment of a write taken in, the keys that
    hold something are those that did in the order in which they came to, and last
    the key of the fragment, if it is new; their ages are in the same order. Above the
    threshold the write evicts the first of these keys and nothing else, and otherwise
    nothing. A key that was cleared or evicted holds nothing, so it is new when it
    comes back. -/
theorem write_evicts_oldest (threshold : UInt64) (order : ReadOrder) (ops : List CacheOp)
    (chunk : Chunk)
    (hclock : (firstArrivals { cache := .new threshold order } (ops ++ [.write chunk])).Pairwise
      (· ≤ ·)) :
    let h := run threshold order ops
    let c := h.cache.takeIn chunk
    let resident := h.arrivals ++ h.cache.newcomers (.write chunk)
    let after := h.step (.write chunk)
    resident.Nodup ∧ (∀ tag sign, (tag, sign) ∈ resident ↔ c.holds tag sign = true) ∧
    resident.Pairwise c.Earlier ∧
    (chunk.info.owner.isSome ∧ threshold.toNat < c.memory →
      ∃ tag sign, resident = (tag, sign) :: after.arrivals ∧ c.Evicts tag sign after.cache) ∧
    (¬ (chunk.info.owner.isSome ∧ threshold.toNat < c.memory) →
      after.cache = c ∧ after.arrivals = resident) ∧
    (∀ tag, chunk.info.owner = some tag → h.cache.holds tag chunk.sign = false →
      resident = h.arrivals ++ [(tag, chunk.sign)]) ∧
    ∀ tag sign, (h.step (.clear tag sign)).cache.holds tag sign = false := by
  intro h c resident after
  have hs : h.Sound := run_sound threshold order ops
  have hsound : c.Sound := hs.cache.takeIn chunk
  obtain ⟨log, hlog⟩ := Chronicle.foldl ops (chronicle_new threshold order _)
    (run_sound threshold order []) hclock
  have hin : c.Dated resident (log ++ (h.cache.newcomers (.write chunk)).map h.cache.stamp) :=
    hlog.takeIn
  have hwrite := h.cache.write_eq_takeIn chunk
  rw [show h.cache.threshold = threshold from run_threshold threshold order ops] at hwrite
  refine ⟨hin.nodup hsound, hin.mem_arrivals hsound, hin.earlier, ?_, ?_, ?_, ?_⟩
  · intro hbreach
    rw [if_pos hbreach] at hwrite
    -- the fragment itself is among what is held, so there is something to evict
    obtain ⟨owner, howner⟩ := Option.isSome_iff_exists.1 hbreach.1
    have hown : (owner, chunk.sign) ∈ resident := by
      rw [hin.mem_arrivals hsound]
      show (h.cache.takeIn chunk).holds owner chunk.sign = true
      rw [(ChunkCache.takeIn_of_some howner).1]
      unfold ChunkCache.holds
      rw [ChunkCache.fragments?_insert, if_pos ⟨rfl, rfl⟩]
      rfl
    rw [hin.arrivals_eq] at hown
    obtain ⟨e, he, -⟩ := List.mem_map.1 hown
    obtain ⟨⟨tag, age⟩, rest, hlog⟩ := List.exists_cons_of_ne_nil (List.ne_nil_of_mem he)
    obtain ⟨hevicts, hrest⟩ := hin.evict hsound hlog
    rw [← hwrite] at hevicts hrest
    exact ⟨tag, age.sign, hrest, hevicts⟩
  · intro hfits
    rw [if_neg hfits] at hwrite
    have hkept := hin.filter_holds hsound
    refine ⟨hwrite, ?_⟩
    show (resident.filter fun key => (h.cache.write chunk).holds key.1 key.2) = resident
    rw [hwrite]
    exact hkept
  · intro tag howner hnew
    have hnewcomers := (ChunkCache.takeIn_of_some (c := h.cache) howner).2
    rw [hnew] at hnewcomers
    exact congrArg (h.arrivals ++ ·) hnewcomers
  · intro tag sign
    show (h.cache.clear tag sign).2.holds tag sign = false
    rw [ChunkCache.holds_clear]
    simp

/-- Two peers with a sign each; the older of the two is cleared and comes back. -/
def returning : List CacheOp :=
  [.tick 1,
    .write { Chunk.make "a" 2 0 1 [1, 2] with info := { owner := some "p" } },
    .write { Chunk.make "b" 2 0 1 [3, 4] with info := { owner := some "q" } },
    .clear "p" "a",
    .tick 2,
    .write { Chunk.make "a" 2 0 1 [1, 2] with info := { owner := some "p" } }]

theorem write_evicts_oldest_returning :
    let chunk := { Chunk.make "c" 2 0 1 [5, 6] with info := { owner := some "q" } }
    (firstArrivals { cache := .new 5 .arrival } (returning ++ [.write chunk])) = [1, 1, 2, 2] ∧
    ((run 5 .arrival returning).step (.write chunk)).arrivals = [("p", "a"), ("q", "c")] ∧
    ((run 5 .arrival returning).cache.takeIn chunk).Evicts "q" "b"
      ((run 5 .arrival returning).step (.write chunk)).cache := by
  intro chunk
  have htimes : firstArrivals { cache := .new 5 .arrival } (returning ++ [.write chunk])
      = [1, 1, 2, 2] := by
    decide
  have hresident : (run 5 .arrival returning).arrivals
      ++ (run 5 .arrival returning).cache.newcomers (.write chunk)
      = [("q", "b"), ("p", "a"), ("q", "c")] := by
    decide
  have hmemory : 5 < ((run 5 .arrival returning).cache.takeIn chunk).memory := by
    decide
  obtain ⟨-, -, -, hevicts, -⟩ := write_evicts_oldest 5 .arrival returning chunk
    (by rw [htimes]; decide)
  obtain ⟨tag, sign, harrivals, hgone⟩ := hevicts ⟨rfl, hmemory⟩
  rw [hresident] at harrivals
  obtain ⟨hkey, hrest⟩ := List.cons.inj harrivals
  obtain ⟨rfl, rfl⟩ := Prod.mk.inj hkey
  exact ⟨htimes, hrest.symm, hgone⟩

end CacheHistory

end Parley
