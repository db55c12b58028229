import Parley.Proofs.Cache.Keys
import Parley.Proofs.Transfer.Arriving
import Parley.Proofs.Transfer.Assembly

/-! # A file whose fragments come in order

  A **parcel** is a file on its way from a peer. As long as its fragments come in
  order and nothing is evicted, the cache holds under its key exactly those that
  have come, whatever the read order: by arrival because they came in order, and as
  declared because their indices are distinct. With the last of them the file is put
  together, and nothing is held any more.
-/

namespace Parley.Transfer

/-! ## Parcels -/

/-- A file on its way from a peer. -/
structure Parcel where
  /-- The peer it comes from. -/
  origin : String
  /-- Its name. -/
  sign : String
  /-- What it holds. -/
  content : Bytes
  /-- The size of its fragments. -/
  chunkSize : UInt64
  /-- The file cut into chunks. -/
  file : Fragments
  cut : fragments sign content chunkSize.toNat = .ok file
  isName : Path.IsName sign
  safe : Wire.BackslashSafe (Text.bytes sign)

namespace Parcel

variable (p : Parcel)

/-- How many fragments it has. -/
def count : Nat := p.file.count.toNat

/-- A fragment as it was sent. -/
def fragment (i : Nat) : Chunk :=
  fragmentAt p.sign p.content p.file.count (max p.chunkSize.toNat 1) i

/-- The first fragments as they were built from what the peer sent. -/
def collected (k : Nat) : List Chunk := (List.range k).map fun i => arriving p.origin (p.fragment i)

/-- What the cache holds after so many fragments. -/
def held (k : Nat) : Option (List Chunk) :=
  if k = 0 ∨ k = p.count then none else some (p.collected k)

theorem count_pos : 0 < p.count := Transfer.count_pos p.cut

theorem index_fragment {i : Nat} (h : i < p.count) : (p.fragment i).index.toNat = i :=
  index_fragmentAt p.sign p.content _ h

theorem payload_arriving (i : Nat) :
    (arriving p.origin (p.fragment i)).payload
      = piece p.content (max p.chunkSize.toNat 1) i := by
  have hpayload := payload_fragmentAt p.sign p.content p.file.count (max p.chunkSize.toNat 1) i
  show ((p.fragment i).payload).take _ = _
  unfold fragment
  rw [hpayload]
  exact List.take_length

/-- Every fragment can travel. -/
theorem travels (i : Nat) : Travels (p.fragment i) where
  sign := p.safe
  tracker := by
    show Ascii.closeBracket ∉ Text.bytes defaultTracker
    decide
  length := by
    have hsize : max p.chunkSize.toNat 1 < UInt64.size :=
      Nat.max_lt.2 ⟨p.chunkSize.toNat_lt, by decide⟩
    have hpiece : (piece p.content (max p.chunkSize.toNat 1) i).length ≤ max p.chunkSize.toNat 1 :=
      List.length_take_le _ _
    exact Nat.lt_of_le_of_lt hpiece hsize
  data := Nat.le_refl _

theorem length_collected (k : Nat) : (p.collected k).length = k := by
  unfold collected
  rw [List.length_map, List.length_range]

/-! ## Collecting -/

/-- The next fragment goes behind those that have come. -/
theorem place_collected (order : ReadOrder) {k : Nat} (hk : k < p.count) :
    ChunkCache.place order (arriving p.origin (p.fragment k)) (p.collected k)
      = (0, p.collected (k + 1)) := by
  have hnew : (arriving p.origin (p.fragment k)).index ∉ (p.collected k).map Chunk.index := by
    unfold collected
    rw [List.map_map, List.mem_map]
    rintro ⟨i, hi, heq⟩
    rw [List.mem_range] at hi
    have hindex : (p.fragment i).index.toNat = (p.fragment k).index.toNat :=
      congrArg UInt32.toNat heq
    rw [p.index_fragment hk, p.index_fragment (Nat.lt_trans hi hk)] at hindex
    omega
  rw [ChunkCache.place_of_not_mem order hnew]
  unfold collected
  rw [List.range_succ, List.map_append]
  rfl

/-- In either order, an index means the fragment of that index. -/
theorem locate?_collected (order : ReadOrder) {k i : Nat} (hk : k ≤ p.count) (hi : i < k) :
    ChunkCache.locate? order (p.collected k) i = some (arriving p.origin (p.fragment i)) := by
  unfold ChunkCache.locate? collected
  cases order with
  | arrival =>
    dsimp only
    rw [List.getElem?_map, List.getElem?_range hi]
    rfl
  | declared =>
    -- the fragments in front of it have smaller indices
    have hfirst : (List.range k).find?
        ((fun f : Chunk => f.index.toNat == i) ∘ fun i => arriving p.origin (p.fragment i))
        = some i := by
      rw [List.find?_range_eq_some]
      refine ⟨beq_iff_eq.2 (p.index_fragment (by omega)), List.mem_range.2 hi, fun j hj => ?_⟩
      have hindex := p.index_fragment (i := j) (by omega)
      have hne : (p.fragment j).index.toNat ≠ i := by omega
      show (!((p.fragment j).index.toNat == i)) = true
      rw [beq_eq_false_iff_ne.2 hne]
      rfl
    dsimp only
    rw [List.find?_map, hfirst]
    rfl

variable {p}
variable {c : ChunkCache}

/-- The cache calls the file complete once all fragments have come. -/
theorem completed_collected {k : Nat} (hk : 0 < k)
    (h : c.fragments? p.origin p.sign = some (p.collected k)) :
    c.completed p.origin p.sign = decide (k = p.count) := by
  have hlength := p.length_collected k
  unfold ChunkCache.completed
  rw [h]
  match hlist : p.collected k with
  | [] =>
    rw [hlist] at hlength
    exact absurd hlength.symm (Nat.ne_of_gt hk)
  | first :: rest =>
    rw [hlist, List.length_cons] at hlength
    have hnum : first.num = p.file.count := by
      have hmem : first ∈ p.collected k := hlist ▸ List.mem_cons_self
      obtain ⟨i, -, rfl⟩ := List.mem_map.1 hmem
      rfl
    dsimp only
    rw [hlength, hnum]
    rfl

/-- What is gathered from all fragments is the content. -/
theorem gather_collected (h : c.fragments? p.origin p.sign = some (p.collected p.count)) :
    Receiver.gather c p.origin p.sign p.count 0 = .ok p.content := by
  apply Receiver.gather_of_cut p.cut
  intro i hi
  unfold ChunkCache.fragment?
  rw [h, Option.bind_some, p.locate?_collected c.order (Nat.le_refl _) hi, Option.map_some,
    payload_arriving]

/-- What the cache holds under each key once a fragment has come and nothing was evicted. -/
theorem write_collected {k : Nat} (hk : k < p.count)
    (hheld : c.fragments? p.origin p.sign = p.held k)
    (hfits : c.memory + (p.fragment k).length ≤ c.threshold.toNat) :
    (c.write (arriving p.origin (p.fragment k))).fragments? p.origin p.sign
        = some (p.collected (k + 1)) ∧
    ∀ t s, ¬ (t = p.origin ∧ s = p.sign) →
      (c.write (arriving p.origin (p.fragment k))).fragments? t s = c.fragments? t s := by
  -- before the first fragment nothing is held, which is as good as an empty list
  have hold : (c.fragments? p.origin p.sign).getD [] = p.collected k := by
    rw [hheld]
    unfold held
    split
    · next h =>
      have hzero : k = 0 := h.resolve_right (Nat.ne_of_lt hk)
      rw [hzero]
      rfl
    · rfl
  have hplace := p.place_collected c.order hk
  rw [← hold] at hplace
  have hmemory := c.insert_memory p.origin (arriving p.origin (p.fragment k))
  have hsign : (arriving p.origin (p.fragment k)).sign = p.sign := rfl
  have hlength : (arriving p.origin (p.fragment k)).length = (p.fragment k).length := rfl
  rw [hsign, hplace, hlength, Nat.sub_zero] at hmemory
  -- as the fragment fits, nothing is evicted
  have hwrite : c.write (arriving p.origin (p.fragment k))
      = c.insert p.origin (arriving p.origin (p.fragment k)) := by
    rw [ChunkCache.write_of_owner (show (arriving p.origin (p.fragment k)).info.owner
      = some p.origin from rfl)]
    exact if_neg (by omega)
  rw [hwrite]
  refine ⟨?_, fun t s hkey => ?_⟩
  · rw [ChunkCache.fragments?_insert, if_pos ⟨rfl, rfl⟩, hsign, hplace]
  · rw [ChunkCache.fragments?_insert, hsign, if_neg hkey]

/-! ## Receiving -/

/-- The report about a parcel. -/
def report (p : Parcel) (dir : String) : Report :=
  { sign := p.sign, path := Path.join dir p.sign, bytes := p.content.length
    fragments := p.count, digest := Text.hex (Blake3.digest p.content) }

/-- **All fragments have come**: the file is put together and leaves the cache, unless the disk
    fails. -/
theorem receive_last {r : Receiver} (chunk : Chunk) {d : Disk}
    (howner : chunk.info.owner = some p.origin) (hsign : chunk.sign = p.sign)
    (hnum : chunk.num = p.file.count) (hfree : (p.origin, p.sign) ∉ r.assembling)
    (hheld : c.fragments? p.origin p.sign = some (p.collected p.count))
    (hdisk : .failed p.sign .disk ∉ (r.receive c chunk d).notices) :
    (r.receive c chunk d).result = .ok (.completed (p.report r.dir)) ∧
    (r.receive c chunk d).receiver = r ∧
    (r.receive c chunk d).cache = (c.clear p.origin p.sign).2 ∧
    (r.receive c chunk d).disk.content? (Path.join r.dir p.sign) = some p.content ∧
    Disk.Spares [Receiver.partName p.sign, p.sign] d (r.receive c chunk d).disk := by
  have hcomplete : c.completed p.origin p.sign = true := by
    rw [completed_collected p.count_pos hheld]
    exact decide_eq_true rfl
  have hcount : c.count p.origin p.sign = p.count := by
    unfold ChunkCache.count
    rw [hheld]
    exact p.length_collected p.count
  have hgather := gather_collected hheld
  rw [Receiver.receive_ready howner (hsign ▸ hcomplete) (hsign ▸ hfree), hsign] at hdisk ⊢
  rcases hassemble : r.assemble c p.origin p.sign chunk.num.toNat d with ⟨e | report, c', d'⟩
  · -- of all that can fail only the disk is left
    rw [hassemble] at hdisk
    have hnotice : e ≠ .disk := by
      rintro rfl
      exact hdisk (List.mem_cons_of_mem _ List.mem_cons_self)
    exfalso
    rcases (Receiver.assemble_error hassemble).2 with h | h | h | h
    · exact hnotice h
    · rw [p.isName.fileName?_eq] at h
      cases h
    · rw [hcount, hnum] at h
      exact Nat.lt_irrefl _ h
    · rw [hcount, hgather] at h
      cases h
  · obtain ⟨name, content, hname, hcontent, hreport, hcache, hwritten, hspares⟩ :=
      Receiver.assemble_ok hassemble
    rw [p.isName.fileName?_eq] at hname
    have hname := Option.some.inj hname
    subst hname
    rw [hcount, hgather] at hcontent
    have hcontent := Except.ok.inj hcontent
    subst hcontent
    rw [hcount] at hreport
    exact ⟨by rw [hreport]; rfl, rfl, hcache, hwritten, hspares⟩

end Parcel

/-! ## One frame -/

variable {κ : Type}

/-- What the next fragment of a parcel leads to; with the last one the file is reported and
    stands in its place. -/
structure Advanced (p : Parcel) (k : Nat) (h : Host κ) (d : Disk) (a : Arrival κ) : Prop where
  error : a.error = none
  ready : CanReceive a.host.nucleus a.host.cellet
  receiver : a.host.receiver = h.receiver
  held : a.host.cache.fragments? p.origin p.sign = p.held (k + 1)
  others : ∀ t s, ¬ (t = p.origin ∧ s = p.sign) →
    a.host.cache.fragments? t s = h.cache.fragments? t s
  reports : a.host.reports
    = h.reports ++ if k + 1 = p.count then [p.report h.receiver.dir] else []
  disk : Disk.Spares [Receiver.partName p.sign, p.sign] d a.disk
  content : k + 1 = p.count →
    a.disk.content? (Path.join h.receiver.dir p.sign) = some p.content

/-- **The next frame of a parcel**, with room in the cache and a disk that works. -/
theorem advance [Content κ] {h : Host κ} {d : Disk} (p : Parcel) {k : Nat} (hk : k < p.count)
    (hready : CanReceive h.nucleus h.cellet) (hfree : (p.origin, p.sign) ∉ h.receiver.assembling)
    (hheld : h.cache.fragments? p.origin p.sign = p.held k)
    (hfits : h.cache.memory + (p.fragment k).length ≤ h.cache.threshold.toNat)
    (here there : String)
    (hdisk : .failed p.sign .disk ∉
      (h.arrive p.origin (frameOf κ here there (p.fragment k)).payload d).notices) :
    Advanced p k h d (h.arrive p.origin (frameOf κ here there (p.fragment k)).payload d) := by
  obtain ⟨hkey, hothers⟩ := Parcel.write_collected hk hheld hfits
  have harrive := host_arrive hready (p.travels k) here there p.origin d
  unfold frameOf at hdisk ⊢
  dsimp only at hdisk ⊢
  rw [harrive] at hdisk ⊢
  dsimp only at hdisk
  unfold reception at hdisk ⊢
  by_cases hlast : k + 1 = p.count
  · -- the file is put together, and its key is empty again
    rw [hlast] at hkey
    obtain ⟨hresult, hreceiver, hcache, hcontent, hspares⟩ :=
      Parcel.receive_last (delivered h.cellet p.origin (p.fragment k)) rfl rfl rfl hfree hkey hdisk
    refine ⟨rfl, hready.withReception _, hreceiver, ?_, fun t s hne => ?_, ?_, hspares,
      fun _ => hcontent⟩
    · show ChunkCache.fragments? (Reception.cache _) p.origin p.sign = p.held (k + 1)
      rw [hcache, ChunkCache.fragments?_clear, if_pos ⟨rfl, rfl⟩]
      exact (if_pos (.inr hlast)).symm
    · show ChunkCache.fragments? (Reception.cache _) t s = _
      rw [hcache, ChunkCache.fragments?_clear, if_neg hne]
      exact hothers t s hne
    · rw [if_pos hlast]
      exact h.reports_withReception_completed hresult
  · -- the receiver waits for more
    have hincomplete : (h.cache.write (arriving p.origin (p.fragment k))).completed p.origin p.sign
        = false := by
      rw [Parcel.completed_collected (Nat.succ_pos k) hkey]
      exact decide_eq_false hlast
    have hwaiting : ∀ tag, (delivered h.cellet p.origin (p.fragment k)).info.owner = some tag →
        (h.cache.write (arriving p.origin (p.fragment k))).completed tag
            (delivered h.cellet p.origin (p.fragment k)).sign = false ∨
          (tag, (delivered h.cellet p.origin (p.fragment k)).sign) ∈ h.receiver.assembling := by
      intro tag htag
      have hpeer : p.origin = tag := Option.some.inj htag
      subst hpeer
      exact .inl hincomplete
    rw [Receiver.receive_waiting hwaiting]
    refine ⟨rfl, hready.withReception _, rfl, ?_, hothers, ?_,
      ⟨Disk.Keeps.refl d, fun _ _ h _ => h⟩, fun h => absurd h hlast⟩
    · have hnext : ¬ (k + 1 = 0 ∨ k + 1 = p.count) := by omega
      exact hkey.trans (if_neg hnext).symm
    · rw [if_neg hlast, List.append_nil]
      exact h.reports_withReception_progress rfl

end Parley.Transfer
