import Mathlib.Data.List.Nodup
import Mathlib.Data.List.Perm.Subperm
import Mathlib.Data.Option.Basic
import Parley.Proofs.Cache.History
import Parley.Proofs.Files.Touched
import Parley.Proofs.Transfer.Assembly

/-! # All or nothing

  Whatever the cache holds, the receiver either puts a whole file in place or none. What it
  reports is the file: its fragments in read order, all of which leave the cache, and nothing
  else does. If it waits, then nothing happens at all. If it fails, then the cache is as it was,
  a file that was in place keeps its content, and the temporary file is taken back; so the next
  chunk of the sign leads to another attempt.
-/

namespace Parley

open ChunkCache (bytesOf)

/-! ## Section 1: What is read -/

namespace Transfer.Receiver

variable {cache : ChunkCache} {tag sign : String} {held gathered : List Chunk} {content : Bytes}

/-- What is gathered are the fragments that the indices mean, one after the other. -/
theorem gather_eq_ok {n index : Nat} (h : gather cache tag sign n index = .ok content) :
    ∃ gathered : List Chunk,
      (List.range' index n).map (cache.fragment? tag sign) = gathered.map some ∧
      content = gathered.flatMap Chunk.payload := by
  induction n generalizing index content with
  | zero =>
    cases h
    exact ⟨[], rfl, rfl⟩
  | succ n ih =>
    unfold gather at h
    split at h
    · cases h
    · next f hf =>
      cases hrest : gather cache tag sign n (index + 1) with
      | error e =>
        rw [hrest] at h
        cases h
      | ok rest =>
        rw [hrest] at h
        obtain ⟨gathered, hread, hcontent⟩ := ih hrest
        refine ⟨f :: gathered, ?_, ?_⟩
        · rw [List.range'_succ, List.map_cons, hread, hf]
          rfl
        · rw [List.flatMap_cons, ← hcontent]
          exact (Except.ok.inj h).symm

/-- **Nothing is read twice**: as many fragments as there are, each read under an index of its
    own, are those that there are. -/
theorem perm_of_read (hheld : cache.fragments? tag sign = some held)
    (hread : (List.range held.length).map (cache.fragment? tag sign) = gathered.map some) :
    gathered.Perm held := by
  have hfragment : ∀ i, cache.fragment? tag sign i = ChunkCache.locate? cache.order held i := by
    intro i
    unfold ChunkCache.fragment?
    rw [hheld]
    rfl
  cases horder : cache.order with
  | arrival =>
    -- the indices are the places in the list
    have hplaces : (List.range held.length).map (cache.fragment? tag sign) = held.map some := by
      apply List.ext_getElem
      · simp
      · intro i hi _
        have hlt : i < held.length := by simpa using hi
        simp [hfragment, horder, ChunkCache.locate?, hlt]
    have hsame : gathered = held :=
      List.map_injective_iff.2 (Option.some_injective Chunk) (hread.symm.trans hplaces)
    rw [hsame]
  | declared =>
    have hfound : ∀ i g, cache.fragment? tag sign i = some g → g.index.toNat = i ∧ g ∈ held := by
      intro i g hg
      rw [hfragment, horder] at hg
      exact ⟨by simpa using List.find?_some hg, List.mem_of_find?_eq_some hg⟩
    have hmem : ∀ g ∈ gathered, ∃ i, cache.fragment? tag sign i = some g := by
      intro g hg
      have hsome : some g ∈ gathered.map some := List.mem_map_of_mem hg
      rw [← hread] at hsome
      obtain ⟨i, -, hi⟩ := List.mem_map.1 hsome
      exact ⟨i, hi⟩
    -- the indices that were read are all different, and so are the fragments
    have hindices : gathered.map (fun g => g.index.toNat) = List.range held.length := by
      apply List.map_injective_iff.2 (Option.some_injective Nat)
      calc (gathered.map fun g => g.index.toNat).map some
          = (gathered.map some).map (Option.map fun g => g.index.toNat) := by simp
        _ = (List.range held.length).map fun i =>
              (cache.fragment? tag sign i).map fun g => g.index.toNat := by
            rw [← hread, List.map_map]
            rfl
        _ = (List.range held.length).map some := by
            refine List.map_congr_left fun i hi => ?_
            have hi := List.mem_map_of_mem (f := cache.fragment? tag sign) hi
            rw [hread] at hi
            obtain ⟨g, -, hg⟩ := List.mem_map.1 hi
            rw [← hg, Option.map_some, (hfound i g hg.symm).1]
    have hnodup : gathered.Nodup := by
      apply List.Nodup.of_map fun g : Chunk => g.index.toNat
      rw [hindices]
      exact List.nodup_range
    have hsub : gathered ⊆ held := by
      intro g hg
      obtain ⟨i, hi⟩ := hmem g hg
      exact (hfound i g hi).2
    have hlength : held.length = gathered.length := by
      have hlengths := congrArg List.length hindices
      rw [List.length_map, List.length_range] at hlengths
      exact hlengths.symm
    exact (List.subperm_of_subset hnodup hsub).perm_of_length_le (Nat.le_of_eq hlength)

/-- A chunk that counts no more bytes than it has. -/
def Covers (c : Chunk) : Prop := c.length ≤ c.data.length

/-- Every chunk that is made is one. -/
theorem covers_make (sign : String) (total : UInt64) (index num : UInt32) (data : Bytes) :
    Covers (Chunk.make sign total index num data) :=
  Nat.le_of_eq (Chunk.length_make sign total index num data)

/-- So is every chunk that is filled from stuffs. -/
theorem covers_build (c : Chunk) (s : Stuffs) : Covers (c.build s) := Chunk.length_build_le c s

theorem length_payload {c : Chunk} (h : Covers c) : c.payload.length = c.length := by
  unfold Chunk.payload
  rw [List.length_take, Nat.min_eq_left h]

theorem length_flatMap_payload (h : ∀ f ∈ gathered, Covers f) :
    (gathered.flatMap Chunk.payload).length = bytesOf gathered := by
  rw [List.length_flatMap, ChunkCache.bytesOf_eq_sum]
  congr 1
  exact List.map_congr_left fun f hf => length_payload (h f hf)

theorem bytesOf_perm {a b : List Chunk} (h : a.Perm b) : bytesOf a = bytesOf b := by
  induction h with
  | nil => rfl
  | cons f _ ih => rw [ChunkCache.bytesOf_cons, ChunkCache.bytesOf_cons, ih]
  | swap f g rest =>
    simp only [ChunkCache.bytesOf_cons]
    omega
  | trans _ _ hab hbc => exact hab.trans hbc

/-! ## Section 2: What a failure leaves -/

variable {r : Receiver} {cache' : ChunkCache} {count expected : Nat} {temp path : String}
  {d d' : Disk} {e : TransferError}

/-- Writing that fails leaves nothing but the temporary file. -/
theorem writeFragments_leaves
    (h : writeFragments cache tag sign count temp path d = (.error e, d')) :
    d' = d.tick ∨ ∃ p data, d.place temp = .ok (p, false) ∧ d.Within p d' ∧
      d'.node? p = some (.file data) := by
  have hspec := writeFragments_spec cache tag sign count temp path d
  rw [h] at hspec
  cases hspec with
  | unmade => exact .inl rfl
  | @failed _ p data _ hdraft =>
    exact .inr ⟨p, data, hdraft.place, hdraft.wrote.within, hdraft.node⟩

/-- The outside world keeps the temporary file from being removed after writing it has failed. -/
def CleanupBreaks (r : Receiver) (cache : ChunkCache) (tag sign name : String) (d : Disk) : Prop :=
  ∃ made e left, Disk.createDirAll r.dir d = (.ok (), made) ∧
    writeFragments cache tag sign (cache.count tag sign) (Path.join r.dir (partName name))
      (Path.join r.dir name) made = (.error e, left) ∧
    left.faults left.clock ≠ none

/-- **What failed is taken back**: only the temporary file was touched, and unless its removal
    is made to fail, no file has come. -/
theorem assemble_leaves
    (h : r.assemble cache tag sign expected d = (.error e, cache', d')) :
    d' = d ∨ ∃ name, Path.fileName? sign = some name ∧ Disk.Spares [partName name] d d' ∧
      (¬ r.CleanupBreaks cache tag sign name d → d.Sheds d') := by
  unfold assemble at h
  split at h
  · exact .inl (Prod.mk.inj (Prod.mk.inj h).2).2.symm
  · next name hname =>
    dsimp only at h
    split at h
    · exact .inl (Prod.mk.inj (Prod.mk.inj h).2).2.symm
    · right
      refine ⟨name, hname, ?_⟩
      have htemp := isName_partName (Path.isName_of_fileName? hname)
      have hgrows := Disk.createDirAll_grows r.dir d
      have hsheds := (Disk.createDirAll_opens r.dir d).sheds
      split at h
      · next hmade =>
        rw [hmade] at hgrows hsheds
        rw [← (Prod.mk.inj (Prod.mk.inj h).2).2]
        exact ⟨hgrows.spares _, fun _ => hsheds⟩
      · next d₁ hmade =>
        rw [hmade] at hgrows hsheds
        split at h
        · next e' d₂ hwrite =>
          rw [← (Prod.mk.inj (Prod.mk.inj h).2).2]
          have hremove : Disk.Spares [partName name] d₂
              (Disk.remove (Path.join r.dir (partName name)) d₂).2 := Disk.remove_spares htemp d₂
          rcases writeFragments_leaves hwrite with htick | ⟨p, data, hplace, hwithin, hfile⟩
          · have hleft : Disk.Spares [partName name] d₁ d₂ := by
              rw [htick]
              exact .tick _ d₁
            have hbrought : d₁.Sheds d₂ := by
              rw [htick]
              exact .tick d₁
            exact ⟨((hgrows.spares _).trans hleft).trans hremove,
              fun _ => (hsheds.trans hbrought).trans (Disk.remove_sheds _ d₂)⟩
          · have hleft := hwithin.spares (Disk.place_join htemp hplace)
            refine ⟨((hgrows.spares _).trans hleft).trans hremove, fun hworks => ?_⟩
            have hfault : d₂.faults d₂.clock = none :=
              Decidable.not_not.1 fun hbreaks => hworks ⟨d₁, e', d₂, hmade, hwrite, hbreaks⟩
            -- the temporary file is removed from where it was made
            have hplace₂ := hwithin.keeps.place hplace
            obtain ⟨d₃, hremoved⟩ := Disk.remove_of_file hplace₂ hfile hfault
            obtain ⟨q, hq, hwithin', hnone⟩ := Disk.remove_ok hremoved
            have hqp : q = p := Disk.place_inj hq hplace₂
            rw [hqp] at hwithin' hnone
            rw [hremoved]
            exact hsheds.trans ((hwithin.trans hwithin').sheds hnone)
        · cases h

/-! ## Section 3: Receiving -/

variable {chunk : Chunk} {got : Reception}

/-- What is owed to a report: it is about a whole file, whose fragments leave the cache. -/
structure Delivers (r : Receiver) (cache : ChunkCache) (chunk : Chunk) (d : Disk) (got : Reception)
    (report : Report) (tag name : String) (held gathered : List Chunk) : Prop where
  /-- The fragments are those of the peer and the sign of the chunk. -/
  owner : chunk.info.owner = some tag
  holds : cache.fragments? tag chunk.sign = some held
  /-- They are as many as the first of them announces. -/
  announced : held.head?.map (fun first => first.num.toNat) = some held.length
  /-- They are gathered in read order. -/
  reads : (List.range held.length).map (cache.fragment? tag chunk.sign) = gathered.map some
  /-- Their data is the content of the file, under the name that the sign ends in. -/
  names : Path.fileName? chunk.sign = some name
  content : got.disk.content? (Path.join r.dir name) = some (gathered.flatMap Chunk.payload)
  /-- The report tells of this content. -/
  tells : report =
    { sign := chunk.sign, path := Path.join r.dir name
      bytes := (gathered.flatMap Chunk.payload).length, fragments := held.length
      digest := Text.hex (Blake3.digest (gathered.flatMap Chunk.payload)) }
  /-- The sign is gone, and the memory with it. -/
  gone : got.cache.fragments? tag chunk.sign = none
  memory : got.cache.memory + report.bytes = cache.memory
  /-- Every other sign keeps its fragments and its age. -/
  others : ∀ t s, ¬ (t = tag ∧ s = chunk.sign) → got.cache.fragments? t s = cache.fragments? t s
  ages : ∀ t, (got.cache.peer t).ages =
    (cache.peer t).ages.filter fun age => ¬ (t = tag ∧ age.sign = chunk.sign)
  /-- No other file is touched. -/
  spares : Disk.Spares [partName name, name] d got.disk
  /-- The receiver is as it was. -/
  receiver : got.receiver = r

/-- What is owed to a chunk that is waited upon: nothing has happened. -/
structure Waits (r : Receiver) (cache : ChunkCache) (d : Disk) (got : Reception) : Prop where
  cache : got.cache = cache
  disk : got.disk = d
  receiver : got.receiver = r

/-- What is owed to a failure. -/
structure Fails (r : Receiver) (cache : ChunkCache) (chunk : Chunk) (d : Disk) (got : Reception) :
    Prop where
  /-- The cache is as it was. -/
  keepsCache : got.cache = cache
  /-- A file that is in place keeps its content. -/
  destination : ∀ name data, Path.fileName? chunk.sign = some name →
    d.content? (Path.join r.dir name) = some data →
      got.disk.content? (Path.join r.dir name) = some data
  /-- Unless the removal of the temporary file is made to fail, no file has come: each that is
      there was there before, with this content. -/
  leftovers : (∀ tag name, chunk.info.owner = some tag → Path.fileName? chunk.sign = some name →
    ¬ r.CleanupBreaks cache tag chunk.sign name d) → d.Sheds got.disk
  /-- The receiver is as it was, and the next chunk of the sign is another attempt. -/
  receiver : got.receiver = r
  again : ∀ next : Chunk, next.info.owner = chunk.info.owner → next.sign = chunk.sign →
    ∀ d' sign processed total,
      (got.receiver.receive got.cache next d').result ≠ .ok (.progress sign processed total)

/-- What is owed to a reception. -/
def Owes (r : Receiver) (cache : ChunkCache) (chunk : Chunk) (d : Disk) (got : Reception) : Prop :=
  match got.result with
  | .ok (.completed report) => ∃ tag name held gathered,
      Delivers r cache chunk d got report tag name held gathered
  | .ok (.progress _ _ _) => Waits r cache d got
  | .error _ => Fails r cache chunk d got

/-- A name is no name of its temporary file. -/
theorem ne_partName (name : String) : name ≠ partName name := by
  intro h
  have hlength := congrArg (fun s : String => s.toList.length) h
  unfold partName at hlength
  simp [String.toList_append] at hlength
  omega

/-- Once no fragment is missing, no chunk of the sign is waited upon. -/
theorem receive_ne_progress (howner : chunk.info.owner = some tag)
    (hcomplete : cache.completed tag chunk.sign = true)
    (hfree : (tag, chunk.sign) ∉ r.assembling) (sign : String) (processed total : Nat) :
    (r.receive cache chunk d).result ≠ .ok (.progress sign processed total) := by
  rw [receive_ready howner hcomplete hfree]
  split <;> nofun

/-- Once the cache calls a sign complete, it holds what the first fragment announced. -/
theorem held_of_completed (h : cache.completed tag sign = true) :
    ∃ held, cache.fragments? tag sign = some held ∧ cache.count tag sign = held.length ∧
      held.head?.map (fun first => first.num.toNat) = some held.length := by
  unfold ChunkCache.completed at h
  split at h
  · next first rest hheld =>
    refine ⟨first :: rest, hheld, ?_, ?_⟩
    · unfold ChunkCache.count
      rw [hheld]
      rfl
    · rw [List.head?_cons, Option.map_some, List.length_cons, beq_iff_eq.1 h]
  · cases h

/-- **A reception is all or nothing**, from a sound cache whose fragments count no more bytes
    than they have. -/
theorem owes_receive (hsound : cache.Sound) (hcovers : cache.AllHeld Covers) (r : Receiver)
    (chunk : Chunk) (d : Disk) : Owes r cache chunk d (r.receive cache chunk d) := by
  rcases r.waiting_or_ready cache chunk with hwaiting | ⟨tag, howner, hcomplete, hfree⟩
  · rw [receive_waiting hwaiting]
    exact ⟨rfl, rfl, rfl⟩
  · rw [receive_ready howner hcomplete hfree]
    rcases hassemble : r.assemble cache tag chunk.sign chunk.num.toNat d with
      ⟨e | report, cache', d'⟩
    · obtain ⟨rfl, -⟩ := assemble_error hassemble
      have hagain : ∀ next : Chunk, next.info.owner = chunk.info.owner → next.sign = chunk.sign →
          ∀ d' sign processed total,
            (r.receive cache' next d').result ≠ .ok (.progress sign processed total) := by
        intro next hnext hsign d'
        apply receive_ne_progress (hnext.trans howner)
        · rw [hsign]
          exact hcomplete
        · rw [hsign]
          exact hfree
      rcases assemble_leaves hassemble with rfl | ⟨name, hname, hspares, hsheds⟩
      · exact ⟨rfl, fun _ _ _ h => h, fun _ => Disk.Sheds.refl _, rfl, hagain⟩
      · refine ⟨rfl, fun other data hother hcontent => ?_,
          fun hworks => hsheds (hworks tag name howner hname), rfl, hagain⟩
        obtain rfl := Option.some.inj (hname.symm.trans hother)
        apply hspares.content? (Path.isName_of_fileName? hname) _ hcontent
        rw [List.mem_singleton]
        exact ne_partName name
    · obtain ⟨name, content, hname, hgather, hreport, rfl, hcontent, hspares⟩ :=
        assemble_ok hassemble
      obtain ⟨held, hheld, hcount, hannounced⟩ := held_of_completed hcomplete
      rw [hcount] at hgather hreport
      obtain ⟨gathered, hread, rfl⟩ := gather_eq_ok hgather
      rw [← List.range_eq_range'] at hread
      -- what is reported is what the clearing frees
      have hperm := perm_of_read hheld hread
      have hbytes : (gathered.flatMap Chunk.payload).length = (cache.clear tag chunk.sign).1 := by
        rw [length_flatMap_payload fun f hf => hcovers _ _ held hheld f (hperm.subset hf),
          bytesOf_perm hperm, ChunkCache.clear_fst, hheld]
        rfl
      have hcleared := fun t s => cache.fragments?_clear tag chunk.sign t s
      refine ⟨tag, name, held, gathered, howner, hheld, hannounced, hread, hname, hcontent,
        hreport, ?_, ?_, fun t s hother => ?_, hsound.ages_clear tag chunk.sign, hspares, rfl⟩
      · rw [hcleared, if_pos ⟨rfl, rfl⟩]
      · rw [hreport]
        dsimp only
        rw [hbytes]
        exact hsound.memory_clear tag chunk.sign
      · rw [hcleared, if_neg hother]

/-- **Receiving is all or nothing.** Whatever was written to the cache, cleared, evicted or shut
    down, in either read order: a chunk leads to a whole file, to nothing, or to a failure that
    leaves the cache and the file in place as they were. -/
theorem receive_all_or_nothing (threshold : UInt64) (order : ReadOrder) (ops : List CacheOp)
    (hops : ∀ written, .write written ∈ ops → Covers written) (r : Receiver) (chunk : Chunk)
    (d : Disk) :
    Owes r (CacheHistory.run threshold order ops).cache chunk d
      (r.receive (CacheHistory.run threshold order ops).cache chunk d) :=
  owes_receive (CacheHistory.run_sound threshold order ops).cache
    (CacheHistory.run_allHeld threshold order hops) r chunk d

/-- Two fragments of a file, the last one first. -/
def lastFirst : List CacheOp :=
  [.write { Chunk.make "a/b.txt" 3 1 2 [3] with info := { owner := some "p" } },
    .write { Chunk.make "a/b.txt" 3 0 2 [1, 2] with info := { owner := some "p" } }]

/-- The file is put in place; on a disk on which nothing can be moved it is not. -/
theorem receive_all_or_nothing_lastFirst :
    let cache := (CacheHistory.run 100 .declared lastFirst).cache
    let chunk := { Chunk.make "a/b.txt" 3 0 2 [1, 2] with info := { owner := some "p" } }
    let r := Receiver.new "out" 2
    let stuck : Disk := { faults := fun n => if n = 4 then some 0 else none }
    (∀ written, .write written ∈ lastFirst → Covers written) ∧
    (r.receive cache chunk {}).disk.content? "out/b.txt" = some [1, 2, 3] ∧
    (r.receive cache chunk {}).cache.memory = 0 ∧
    Owes r cache chunk {} (r.receive cache chunk {}) ∧
    (r.receive cache chunk stuck).cache.memory = 3 ∧
    (r.receive cache chunk stuck).disk.content? "out/.b.txt.part" = none ∧
    Owes r cache chunk stuck (r.receive cache chunk stuck) := by
  intro cache chunk r stuck
  have hcovers : ∀ written, .write written ∈ lastFirst → Covers written := by
    intro written hmem
    simp only [lastFirst, List.mem_cons, CacheOp.write.injEq, List.not_mem_nil, or_false] at hmem
    rcases hmem with rfl | rfl
    · exact covers_make "a/b.txt" 3 1 2 [3]
    · exact covers_make "a/b.txt" 3 0 2 [1, 2]
  exact ⟨hcovers, by decide +kernel, by decide +kernel,
    receive_all_or_nothing 100 .declared lastFirst hcovers r chunk {}, by decide +kernel,
    by decide +kernel, receive_all_or_nothing 100 .declared lastFirst hcovers r chunk stuck⟩

end Transfer.Receiver

end Parley
