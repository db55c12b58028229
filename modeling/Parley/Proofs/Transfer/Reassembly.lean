import Mathlib.Data.List.Perm.Subperm
import Parley.Proofs.Cache.Keys
import Parley.Proofs.Transfer.Assembly

/-! # Reassembly by declared index

  By declared index, a file is put together from its fragments **however they
  arrive**: in any order, repeated, lost, cleared or evicted at any point, with any
  other traffic in between. What carries this is an invariant of the cache: under
  the key of the file there are fragments of the file only, no two of one index.

  So the number of fragments under the key is the number of different indices, and
  the cache calls the file complete exactly if none is missing.
-/

namespace Parley.Transfer

/-! ## Fragments of a file -/

/-- A fragment of a file as a peer delivers it. -/
def Genuine (file : Fragments) (peer : String) (chunk : Chunk) : Prop :=
  chunk.info.owner = some peer ∧
  ∃ original ∈ file.chunks, chunk = { original with info := chunk.info }

variable {sign : String} {content : Bytes} {chunkSize : Nat} {file : Fragments} {peer : String}

/-- What a fragment of a file says of itself is true. -/
theorem Genuine.spec {chunk : Chunk} (hcut : fragments sign content chunkSize = .ok file)
    (h : Genuine file peer chunk) :
    chunk.sign = sign ∧ chunk.num = file.count ∧ chunk.index.toNat < file.count.toNat ∧
    chunk.payload = piece content (max chunkSize 1) chunk.index.toNat := by
  obtain ⟨-, original, hmem, hchunk⟩ := h
  rw [(fragments_eq_ok hcut).1] at hmem
  obtain ⟨i, hi, rfl⟩ := List.mem_map.1 hmem
  rw [List.mem_range] at hi
  have hindex : (UInt32.ofNat i).toNat = i :=
    index_fragmentAt sign content (max chunkSize 1) hi
  have hpayload := payload_fragmentAt sign content file.count (max chunkSize 1) i
  rw [hchunk]
  refine ⟨rfl, rfl, ?_, ?_⟩
  · show (UInt32.ofNat i).toNat < file.count.toNat
    rw [hindex]
    exact hi
  · show (fragmentAt sign content file.count (max chunkSize 1) i).payload
      = piece content (max chunkSize 1) (UInt32.ofNat i).toNat
    rw [hpayload, hindex]

/-! ## The invariant -/

/-- Under the key of a file there are fragments of it only, no two of one index. -/
structure Intact (file : Fragments) (peer sign : String) (c : ChunkCache) : Prop where
  order : c.order = .declared
  indices_nodup : ∀ held, c.fragments? peer sign = some held → (held.map Chunk.index).Nodup
  genuine : ∀ held, c.fragments? peer sign = some held → ∀ f ∈ held, Genuine file peer f

namespace Intact

variable {c : ChunkCache}

theorem of_none (horder : c.order = .declared) (h : c.fragments? peer sign = none) :
    Intact file peer sign c where
  order := horder
  indices_nodup := by simp [h]
  genuine := by simp [h]

/-- A cache that holds the same under the key, or nothing, is as intact. -/
theorem of_fragments (h : Intact file peer sign c) {c' : ChunkCache} (horder : c'.order = c.order)
    (hsame : c'.fragments? peer sign = none ∨
      c'.fragments? peer sign = c.fragments? peer sign) : Intact file peer sign c' := by
  rcases hsame with hnone | hsame
  · exact of_none (horder.trans h.order) hnone
  · refine ⟨horder.trans h.order, ?_, ?_⟩
    · rw [hsame]
      exact h.indices_nodup
    · rw [hsame]
      exact h.genuine

theorem insert (h : Intact file peer sign c) {tag : String} {chunk : Chunk}
    (hchunk : tag = peer → chunk.sign = sign → Genuine file peer chunk) :
    Intact file peer sign (c.insert tag chunk) := by
  by_cases hkey : peer = tag ∧ sign = chunk.sign
  · -- by declared index, a fragment of an index that is there is replaced
    obtain ⟨hpeer, hsign⟩ := hkey
    subst hpeer hsign
    have hplaced := c.fragments?_insert peer chunk peer chunk.sign
    rw [if_pos ⟨rfl, rfl⟩, h.order] at hplaced
    have hold : ((((c.fragments? peer chunk.sign).getD []).map Chunk.index).Nodup) ∧
        ∀ f ∈ (c.fragments? peer chunk.sign).getD [], Genuine file peer f := by
      cases hheld : c.fragments? peer chunk.sign with
      | none => exact ⟨List.nodup_nil, by simp⟩
      | some held => exact ⟨h.indices_nodup held hheld, h.genuine held hheld⟩
    refine ⟨h.order, fun held hheld => ?_, fun held hheld f hf => ?_⟩
    · rw [← Option.some.inj (hplaced.symm.trans hheld)]
      exact ChunkCache.nodup_indices_replace chunk hold.1
    · rw [← Option.some.inj (hplaced.symm.trans hheld)] at hf
      rcases ChunkCache.mem_replace chunk f hf with rfl | hf
      · exact hchunk rfl rfl
      · exact hold.2 f hf
  · apply h.of_fragments (c.insert_order tag chunk)
    rw [c.fragments?_insert, if_neg hkey]
    exact .inr rfl

theorem clear (h : Intact file peer sign c) (t s : String) :
    Intact file peer sign (c.clear t s).2 := by
  apply h.of_fragments (c.clear_order t s)
  rw [c.fragments?_clear]
  split
  · exact .inl rfl
  · exact .inr rfl

/-- Whatever a write evicts, what it leaves is intact. -/
theorem write (h : Intact file peer sign c) {chunk : Chunk}
    (hchunk : chunk.info.owner = some peer → chunk.sign = sign → Genuine file peer chunk) :
    Intact file peer sign (c.write chunk) := by
  cases howner : chunk.info.owner with
  | none =>
    unfold ChunkCache.write
    rw [howner]
    exact h
  | some tag =>
    have hinsert : Intact file peer sign (c.insert tag chunk) :=
      h.insert fun htag => hchunk (htag ▸ howner)
    rcases ChunkCache.write_cases howner c with heq | ⟨t, s, heq⟩
    · rw [heq]
      exact hinsert
    · rw [heq]
      exact hinsert.clear t s

/-! ## Completion -/

/-- Distinct numbers below a bound are as many as the bound exactly if none is missing. -/
theorem length_eq_iff_forall_mem {indices : List Nat} {n : Nat} (hnodup : indices.Nodup)
    (hlt : ∀ i ∈ indices, i < n) : indices.length = n ↔ ∀ i < n, i ∈ indices := by
  constructor
  · intro hlength i hi
    have hsub : indices.Subperm (List.range n) :=
      List.subperm_of_subset hnodup fun i hi => List.mem_range.2 (hlt i hi)
    have hlong : (List.range n).length = indices.length := by
      rw [List.length_range, hlength]
    have hperm := hsub.perm_of_length_le (Nat.le_of_eq hlong)
    exact hperm.mem_iff.2 (List.mem_range.2 hi)
  · intro hall
    have hperm : indices.Perm (List.range n) := by
      rw [List.perm_ext_iff_of_nodup hnodup List.nodup_range]
      intro i
      rw [List.mem_range]
      exact ⟨hlt i, hall i⟩
    rw [hperm.length_eq, List.length_range]

theorem fragment?_declared (horder : c.order = .declared) (tag sign : String) (i : Nat) :
    c.fragment? tag sign i
      = ((c.fragments? tag sign).getD []).find? fun f => f.index.toNat == i := by
  unfold ChunkCache.fragment? ChunkCache.locate?
  rw [horder]
  cases c.fragments? tag sign with
  | none => rfl
  | some held => rfl

/-- **The cache calls the file complete exactly if every index is there.** -/
theorem completed_iff (hcut : fragments sign content chunkSize = .ok file)
    (h : Intact file peer sign c) :
    c.completed peer sign = true ↔
      ∀ i < file.count.toNat, (c.fragment? peer sign i).isSome := by
  have hpos := count_pos hcut
  simp only [fragment?_declared h.order]
  unfold ChunkCache.completed
  match hheld : c.fragments? peer sign with
  | none => exact ⟨nofun, fun hall => absurd (hall 0 hpos) (by simp)⟩
  | some [] => exact ⟨nofun, fun hall => absurd (hall 0 hpos) (by simp)⟩
  | some (first :: rest) =>
    have hgenuine := h.genuine _ hheld
    have hnum := (Genuine.spec hcut (hgenuine first List.mem_cons_self)).2.1
    have hnodup : ((first :: rest).map fun f => f.index.toNat).Nodup := by
      have hindices := h.indices_nodup _ hheld
      rw [List.Nodup, List.pairwise_map] at hindices ⊢
      exact hindices.imp fun hne heq => hne (UInt32.toNat_inj.1 heq)
    have hlt : ∀ i ∈ (first :: rest).map fun f => f.index.toNat, i < file.count.toNat := by
      intro i hi
      obtain ⟨f, hf, rfl⟩ := List.mem_map.1 hi
      exact (Genuine.spec hcut (hgenuine f hf)).2.2.1
    -- so they are as many as announced only if none is missing
    have hcount := length_eq_iff_forall_mem hnodup hlt
    rw [List.length_map, List.length_cons] at hcount
    rw [beq_iff_eq, hnum, hcount]
    apply forall_congr'
    intro i
    rw [Option.getD_some, List.find?_isSome, List.mem_map]
    simp only [beq_iff_eq]

/-- As many fragments as the file has are there once it is complete. -/
theorem count_eq (hcut : fragments sign content chunkSize = .ok file)
    (h : Intact file peer sign c) (hcomplete : c.completed peer sign = true) :
    c.count peer sign = file.count.toNat := by
  unfold ChunkCache.completed at hcomplete
  unfold ChunkCache.count
  match hheld : c.fragments? peer sign with
  | none =>
    rw [hheld] at hcomplete
    cases hcomplete
  | some [] =>
    rw [hheld] at hcomplete
    cases hcomplete
  | some (first :: rest) =>
    have hnum := (Genuine.spec hcut (h.genuine _ hheld first List.mem_cons_self)).2.1
    rw [hheld] at hcomplete
    rw [← hnum]
    exact beq_iff_eq.1 hcomplete

/-- **What is gathered from a complete file is its content.** -/
theorem gather_eq (hcut : fragments sign content chunkSize = .ok file)
    (h : Intact file peer sign c) (hcomplete : c.completed peer sign = true) :
    Receiver.gather c peer sign (c.count peer sign) 0 = .ok content := by
  have hall := (h.completed_iff hcut).1 hcomplete
  rw [h.count_eq hcut hcomplete]
  apply Receiver.gather_of_cut hcut
  intro i hi
  obtain ⟨f, hf⟩ := Option.isSome_iff_exists.1 (hall i hi)
  rw [hf, Option.map_some]
  -- what is found under an index is the fragment of the file with that index
  rw [fragment?_declared h.order] at hf
  have hindex : f.index.toNat = i := by simpa using List.find?_some hf
  have hmem := List.mem_of_find?_eq_some hf
  match hheld : c.fragments? peer sign with
  | none =>
    rw [hheld] at hmem
    cases hmem
  | some held =>
    rw [hheld] at hmem
    rw [(Genuine.spec hcut (h.genuine held hheld f hmem)).2.2.2, hindex]

/-- Whatever comes of a chunk, what is left in the cache is intact. -/
theorem receive (h : Intact file peer sign c) (r : Receiver) (chunk : Chunk) (d : Disk) :
    Intact file peer sign (r.receive c chunk d).cache := by
  rcases r.receive_cases c chunk d with ⟨-, hcache⟩ | ⟨tag, -, -, ⟨-, -, hcache⟩ | hdone⟩
  · rw [hcache]
    exact h
  · rw [hcache]
    exact h
  · obtain ⟨name, written, -, -, -, hcache, -⟩ := hdone
    rw [hcache]
    exact h.clear tag chunk.sign

end Intact

/-! ## Runs -/

/-- A cache, a receiver that reads from it, and the disk that the receiver writes to. -/
structure Intake where
  cache : ChunkCache
  receiver : Receiver
  disk : Disk

/-- What can happen to them. A **delivery** of a chunk is a `write` and then a `receive` of it;
    other events may come between the two. -/
inductive IntakeEvent where
  /-- A chunk is written to the cache, which may evict a sign. -/
  | write (chunk : Chunk)
  /-- The receiver is told of a chunk. -/
  | receive (chunk : Chunk)
  /-- A sign is cleared. -/
  | clear (tag sign : String)
  /-- The cache is shut down. -/
  | shutdown
  /-- The clock of the cache is set. -/
  | tick (now : Nat)
  /-- The outside world changes the disk. -/
  | disk (d : Disk)

/-- What an event brings under the key of a file are fragments of it; it may bring anything
    under other keys. -/
def IntakeEvent.Admissible (file : Fragments) (peer sign : String) : IntakeEvent → Prop
  | .write chunk =>
    chunk.info.owner = some peer → chunk.sign = sign → Genuine file peer chunk
  | _ => True

namespace Intake

/-- What the receiver makes of a chunk. -/
def reception (s : Intake) (chunk : Chunk) : Reception :=
  s.receiver.receive s.cache chunk s.disk

/-- What an event leads to. -/
def step (s : Intake) : IntakeEvent → Intake
  | .write chunk => { s with cache := s.cache.write chunk }
  | .receive chunk =>
    let got := s.reception chunk
    { cache := got.cache, receiver := got.receiver, disk := got.disk }
  | .clear tag sign => { s with cache := (s.cache.clear tag sign).2 }
  | .shutdown => { s with cache := s.cache.shutdown }
  | .tick now => { s with cache := { s.cache with clock := now } }
  | .disk d => { s with disk := d }

/-- What a sequence of events leads to. -/
def run (s : Intake) (events : List IntakeEvent) : Intake := events.foldl step s

/-- Every event keeps the cache intact. -/
theorem intact_step {s : Intake} (h : Intact file peer sign s.cache) {event : IntakeEvent}
    (hevent : event.Admissible file peer sign) : Intact file peer sign (s.step event).cache := by
  cases event with
  | write chunk => exact h.write hevent
  | receive chunk => exact h.receive s.receiver chunk s.disk
  | clear t s' => exact h.clear t s'
  | shutdown => exact h.of_fragments rfl (.inl rfl)
  | tick now => exact h.of_fragments rfl (.inr rfl)
  | disk d => exact h

theorem intact_run {s : Intake} (h : Intact file peer sign s.cache) {events : List IntakeEvent}
    (hevents : ∀ event ∈ events, event.Admissible file peer sign) :
    Intact file peer sign (s.run events).cache := by
  induction events generalizing s with
  | nil => exact h
  | cons event rest ih =>
    have hstep := intact_step h (hevents event List.mem_cons_self)
    exact ih hstep fun event' hmem => hevents event' (List.mem_cons_of_mem _ hmem)

/-- **A file whose fragments arrive in any way is put together right or not at all.** By
    declared index, after any events on a cache that held nothing under the key of the file:
    the cache calls the file complete exactly if every index is there; no two fragments under
    the key have one index; and if a fragment of the file makes the receiver report a file,
    the report is about this file and the file stands on the disk where the report says. -/
theorem run_reassembles (hcut : fragments sign content chunkSize = .ok file) (start : Intake)
    (horder : start.cache.order = .declared) (hnone : start.cache.fragments? peer sign = none)
    (events : List IntakeEvent) (hevents : ∀ event ∈ events, event.Admissible file peer sign) :
    ((start.run events).cache.completed peer sign = true ↔
      ∀ i < file.count.toNat, ((start.run events).cache.fragment? peer sign i).isSome) ∧
    (∀ held, (start.run events).cache.fragments? peer sign = some held →
      (held.map Chunk.index).Nodup) ∧
    ∀ chunk report, Genuine file peer chunk →
      ((start.run events).reception chunk).result = .ok (.completed report) →
      ∃ name, Path.fileName? sign = some name ∧
        report =
          { sign, path := Path.join (start.run events).receiver.dir name
            bytes := content.length, fragments := file.count.toNat
            digest := Text.hex (Blake3.digest content) } ∧
        ((start.run events).reception chunk).disk.content? report.path = some content := by
  have h := intact_run (Intact.of_none horder hnone) hevents
  refine ⟨h.completed_iff hcut, h.indices_nodup, fun chunk report hgenuine hreport => ?_⟩
  have hsign := (hgenuine.spec hcut).1
  unfold reception at hreport ⊢
  rcases (start.run events).receiver.receive_cases (start.run events).cache chunk
    (start.run events).disk with ⟨⟨_, _, hresult⟩, -⟩ | ⟨tag, howner, hcomplete, hdone⟩
  · rw [hresult] at hreport
    cases hreport
  · have htag : tag = peer := Option.some.inj (howner.symm.trans hgenuine.1)
    subst htag hsign
    rcases hdone with ⟨e, hresult, -⟩ | ⟨name, written, hname, hgather, hresult, -, hcontent⟩
    · rw [hresult] at hreport
      cases hreport
    · -- what was gathered can only be the content of the file
      have hwritten := h.gather_eq hcut hcomplete
      rw [hgather] at hwritten
      have hcontents := Except.ok.inj hwritten
      subst hcontents
      rw [hresult] at hreport
      have heq := Receipt.completed.inj (Except.ok.inj hreport)
      refine ⟨name, hname, ?_, ?_⟩
      · rw [← heq, h.count_eq hcut hcomplete]
      · rw [← heq]
        exact hcontent

/-- A file of two fragments. -/
def twoHalves : Fragments :=
  { sign := "a", count := 2
    chunks := [fragmentAt "a" [1, 2, 3] 2 2 0, fragmentAt "a" [1, 2, 3] 2 2 1] }

/-- A half of it from the peer p. -/
def half (index : Nat) : Chunk :=
  { fragmentAt "a" [1, 2, 3] 2 2 index with info := { owner := some "p" } }

/-- The second half arrives twice before the first one does. -/
def secondFirst : List IntakeEvent :=
  [.write (half 1), .receive (half 1), .write (half 1), .write (half 0)]

/-- A cache that reads by declared index, and a receiver that puts files into `in`. -/
def empty : Intake := ⟨.new 100 .declared, .new "in" 2, {}⟩

/-- Once the first half has been written, the receiver that is told of it reports the file. -/
theorem run_reassembles_secondFirst :
    fragments "a" [1, 2, 3] 2 = .ok twoHalves ∧
    (empty.run secondFirst).cache.completed "p" "a" = true ∧
    (∀ i < 2, ((empty.run secondFirst).cache.fragment? "p" "a" i).isSome) ∧
    ((empty.run secondFirst).reception (half 0)).result = .ok (.completed
      { sign := "a", path := Path.join "in" "a", bytes := 3, fragments := 2
        digest := Text.hex (Blake3.digest [1, 2, 3]) }) ∧
    (empty.run (secondFirst ++ [.receive (half 0)])).disk.content? (Path.join "in" "a")
      = some [1, 2, 3] ∧
    (empty.run (secondFirst ++ [.receive (half 0)])).cache.fragments? "p" "a" = none := by
  have hcut : fragments "a" [1, 2, 3] 2 = .ok twoHalves := rfl
  have hevents : ∀ event ∈ secondFirst, event.Admissible twoHalves "p" "a" := by
    simp [secondFirst, IntakeEvent.Admissible, Genuine, twoHalves, half]
  have hgenuine : Genuine twoHalves "p" (half 0) := by
    simp [Genuine, twoHalves, half]
  obtain ⟨hall, -, hreports⟩ := run_reassembles hcut empty rfl rfl secondFirst hevents
  have hcomplete : (empty.run secondFirst).cache.completed "p" "a" = true := by
    decide
  obtain ⟨report, hreport⟩ : ∃ report,
      ((empty.run secondFirst).reception (half 0)).result = .ok (.completed report) :=
    ⟨_, rfl⟩
  obtain ⟨name, hname, rfl, hcontent⟩ := hreports (half 0) report hgenuine hreport
  obtain rfl : "a" = name := Option.some.inj ((by decide +kernel : _ = some "a").symm.trans hname)
  exact ⟨hcut, hcomplete, hall.1 hcomplete, hreport, hcontent, by decide +kernel⟩

end Intake

end Parley.Transfer
