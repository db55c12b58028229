import Parley.Proofs.Files.Names
import Parley.Proofs.Transfer.Copying

/-! # What the receiver writes

  A file that the receiver reports is the fragments that the cache held, one after
  the other, and stands where the report says. If every fragment that the cache
  finds under an index is the piece of that index, it is the content that was cut.
-/

namespace Parley.Transfer.Receiver

/-! ## Writing -/

section

variable {cache : ChunkCache} {tag sign temp path : String} {count : Nat} {d d' : Disk}
  {content : Bytes}

/-- The disk works, and a file can be put under a path by way of a temporary one. -/
structure Serves (temp path : String) (d : Disk) : Prop where
  works : d.Works
  temp : ∃ p, d.place temp = .ok (p, false) ∧ d.node? p ≠ some .dir
  path : ∃ q, d.place path = .ok (q, false) ∧ d.node? q ≠ some .dir

/-- The temporary file stands in its place and has a content; all else is as it was. -/
structure Drafted (temp : String) (p : List String) (data : Bytes) (d d' : Disk) : Prop where
  place : d.place temp = .ok (p, false)
  wrote : d.Wrote d' p data
  touches : d.TouchesFiles (· = p) d'

/-- What can come of writing fragments. -/
inductive Written (cache : ChunkCache) (tag sign : String) (count : Nat) (temp path : String)
    (d : Disk) : Except TransferError Bytes → Disk → Prop where
  /-- The temporary file could not be made. -/
  | unmade (hdisk : ¬ Serves temp path d) :
    Written cache tag sign count temp path d (.error .disk) d.tick
  /-- It was made and is still there. -/
  | failed {e : TransferError} {p : List String} {data : Bytes} {d' : Disk}
    (hdraft : Drafted temp p data d d')
    (herror : gather cache tag sign count 0 = .error e ∨ e = .disk ∧ ¬ Serves temp path d) :
    Written cache tag sign count temp path d (.error e) d'
  /-- It was filled with what is gathered, and then moved. -/
  | moved {content : Bytes} {p : List String} {d₁ d' : Disk} (hdraft : Drafted temp p content d d₁)
    (hgather : gather cache tag sign count 0 = .ok content)
    (hrename : Disk.rename temp path d₁ = (.ok (), d')) :
    Written cache tag sign count temp path d (.ok content) d'

namespace Drafted

variable {p : List String} {data : Bytes} {d₁ d₂ : Disk}

theorem node (h : Drafted temp p data d d₁) : d₁.node? p = some (.file data) := by
  rw [h.wrote.nodes, if_pos rfl]

theorem place_after (h : Drafted temp p data d d₁) : d₁.place temp = .ok (p, false) :=
  h.wrote.keeps.place h.place

/-- An empty file is drafted when it has been made. -/
theorem of_create (h : Disk.create temp d = (.ok (), d₁)) : ∃ p, Drafted temp p [] d d₁ := by
  obtain ⟨p, hplace, hmade⟩ := Disk.create_ok h
  have htouches := Disk.create_touches (P := (· = p)) fun q dirOnly hq => Disk.place_inj hq hplace
  rw [h] at htouches
  exact ⟨p, hplace, hmade, htouches⟩

/-- A draft that is written to is another one. -/
theorem write (h : Drafted temp p data d d₁) (htouches : d₁.TouchesFiles (· = p) d₂)
    {content : Bytes} (hnode : d₂.node? p = some (.file content)) :
    Drafted temp p content d d₂ where
  place := h.place
  wrote := (h.touches.trans htouches).wrote_of h.wrote.free hnode
  touches := h.touches.trans htouches

theorem tick (h : Drafted temp p data d d₁) : Drafted temp p data d d₁.tick :=
  h.write (.tick _ d₁) h.node

/-- A disk that serves lets a draft be made sure of. -/
theorem sync (h : Drafted temp p data d d₁) (hserves : Serves temp path d) :
    Disk.sync temp d₁ = (.ok (), d₁.tick) := by
  apply Disk.sync_of_works (hserves.works.of_faults h.touches.faults) h.place_after
  rw [h.node]
  exact Option.some_ne_none _

/-- And it lets it be moved. -/
theorem rename (h : Drafted temp p data d d₁) (hserves : Serves temp path d) :
    ∃ d', Disk.rename temp path d₁ = (.ok (), d') := by
  obtain ⟨q, htarget, hfree⟩ := hserves.path
  apply Disk.rename_of_works (hserves.works.of_faults h.touches.faults) h.place_after h.node
    (h.wrote.keeps.place htarget)
  exact fun hdir => hfree (h.touches.dirs q hdir)

end Drafted

/-- **What comes of writing fragments**: the temporary file is made, filled, made sure of and moved,
    as far as it goes. -/
theorem writeFragments_spec (cache : ChunkCache) (tag sign : String) (count : Nat)
    (temp path : String) (d : Disk) :
    Written cache tag sign count temp path d (writeFragments cache tag sign count temp path d).1
      (writeFragments cache tag sign count temp path d).2 := by
  unfold writeFragments
  rcases hcreate : Disk.create temp d with ⟨_ | ⟨⟩, d₁⟩
  · -- a disk that serves would have let it be made
    obtain rfl := Disk.create_error hcreate
    refine .unmade fun hserves => ?_
    obtain ⟨p, hplace, hfree⟩ := hserves.temp
    obtain ⟨d₁, hmade⟩ := Disk.create_of_works hserves.works hplace hfree
    cases hcreate.symm.trans hmade
  · obtain ⟨p, hmade⟩ := Drafted.of_create hcreate
    dsimp only
    rcases hfill : fill cache tag sign count temp d₁ with ⟨result, d₂⟩
    have hfilled := fill_spec hmade.place_after hmade.node hfill
    cases result with
    | error e =>
      obtain ⟨data, hnode⟩ := hfilled.file
      refine .failed (hmade.write hfilled.touches hnode) ?_
      refine (hfilled.error e rfl).imp_right fun ⟨hdisk, hfails⟩ => ⟨hdisk, fun hserves => ?_⟩
      exact hfails (hserves.works.of_faults hmade.touches.faults)
    | ok content =>
      obtain ⟨hgather, hnode⟩ := hfilled.ok content rfl
      have hdraft := hmade.write hfilled.touches hnode
      dsimp only
      rcases hsync : Disk.sync temp d₂ with ⟨_ | ⟨⟩, d₃⟩
      · obtain rfl := Disk.sync_error hsync
        refine .failed hdraft.tick (.inr ⟨rfl, fun hserves => ?_⟩)
        cases hsync.symm.trans (hdraft.sync hserves)
      · obtain rfl := Disk.sync_ok hsync
        dsimp only
        rcases hrename : Disk.rename temp path d₂.tick with ⟨_ | ⟨⟩, d₄⟩
        · obtain rfl := Disk.rename_error hrename
          refine .failed hdraft.tick.tick (.inr ⟨rfl, fun hserves => ?_⟩)
          obtain ⟨d', hmoved⟩ := hdraft.tick.rename hserves
          cases hrename.symm.trans hmoved
        · exact .moved hdraft.tick hgather hrename

/-- What was written is what is gathered, and stands under the path. -/
theorem content?_of_writeFragments
    (h : writeFragments cache tag sign count temp path d = (.ok content, d')) :
    gather cache tag sign count 0 = .ok content ∧ d'.content? path = some content := by
  have hspec := writeFragments_spec cache tag sign count temp path d
  rw [h] at hspec
  cases hspec with
  | @moved _ p d₁ _ hdraft hgather hrename =>
    obtain ⟨p', dirOnly, q, file, hsource, htarget, hmoved⟩ := Disk.rename_ok hrename
    -- the temporary file is still where it was written
    obtain rfl : p' = p := Disk.place_inj hsource hdraft.place_after
    refine ⟨hgather, Disk.content?_eq_some_iff.2 ⟨q, hmoved.keeps.place htarget, ?_⟩⟩
    rw [hmoved.nodes, if_pos rfl, ← hmoved.source, hdraft.node]

/-- Writing touches the temporary file and the file, and nothing else. -/
theorem spares_of_writeFragments {dir temp name : String} (htemp : Path.IsName temp)
    (hname : Path.IsName name)
    (h : writeFragments cache tag sign count (Path.join dir temp) (Path.join dir name) d
      = (.ok content, d')) : Disk.Spares [temp, name] d d' := by
  have hspec := writeFragments_spec cache tag sign count (Path.join dir temp)
    (Path.join dir name) d
  rw [h] at hspec
  have hmemTemp : temp ∈ [temp, name] := List.mem_cons_self
  have hmemName : name ∈ [temp, name] := List.mem_cons_of_mem _ List.mem_cons_self
  cases hspec with
  | moved hdraft _ hrename =>
    obtain ⟨p, _, q, file, hsource, htarget, hmoved⟩ := Disk.rename_ok hrename
    have hput := hmoved.spares hmemTemp (Disk.place_join htemp hsource) hmemName
      (Disk.place_join hname htarget)
    exact (hdraft.wrote.spares hmemTemp (Disk.place_join htemp hdraft.place)).trans hput

/-- Writing fails because of the disk, or because a fragment is missing. -/
theorem writeFragments_error {e : TransferError}
    (h : writeFragments cache tag sign count temp path d = (.error e, d')) :
    gather cache tag sign count 0 = .error e ∨ e = .disk ∧ ¬ Serves temp path d := by
  have hspec := writeFragments_spec cache tag sign count temp path d
  rw [h] at hspec
  cases hspec with
  | unmade hdisk => exact .inr ⟨rfl, hdisk⟩
  | failed _ herror => exact herror

end

/-! ## Assembling -/

variable {r : Receiver} {cache cache' : ChunkCache} {tag sign : String} {expected : Nat}
  {d d' : Disk}

/-- **What is reported stands where the report says**, its fragments have left the cache, and
    no file under another name was touched. -/
theorem assemble_ok {report : Report}
    (h : r.assemble cache tag sign expected d = (.ok report, cache', d')) :
    ∃ name content, Path.fileName? sign = some name ∧
      gather cache tag sign (cache.count tag sign) 0 = .ok content ∧
      report =
        { sign, path := Path.join r.dir name, bytes := content.length
          fragments := cache.count tag sign, digest := Text.hex (Blake3.digest content) } ∧
      cache' = (cache.clear tag sign).2 ∧ d'.content? (Path.join r.dir name) = some content ∧
      Disk.Spares [partName name, name] d d' := by
  unfold assemble at h
  split at h
  · cases h
  · next name hname =>
    dsimp only at h
    split at h
    · cases h
    · split at h
      · cases h
      · next d₁ hmade =>
        split at h
        · cases h
        · next content d₂ hwrite =>
          have hparts := Prod.mk.inj h
          have hreport := Except.ok.inj hparts.1
          have hrest := Prod.mk.inj hparts.2
          have hgrows := Disk.createDirAll_grows r.dir d
          rw [hmade] at hgrows
          have hisName := Path.isName_of_fileName? hname
          refine ⟨name, content, hname, (content?_of_writeFragments hwrite).1, hreport.symm,
            hrest.1.symm, ?_, ?_⟩
          · rw [← hrest.2]
            exact (content?_of_writeFragments hwrite).2
          · rw [← hrest.2]
            exact (hgrows.spares _).trans
              (spares_of_writeFragments (isName_partName hisName) hisName hwrite)

/-- **If anything fails, the cache stays as it was.** It fails because of the disk, because
    the sign names no file, or because fragments are missing. -/
theorem assemble_error {e : TransferError}
    (h : r.assemble cache tag sign expected d = (.error e, cache', d')) :
    cache' = cache ∧
    (e = .disk ∨ Path.fileName? sign = none ∨ cache.count tag sign < expected ∨
      gather cache tag sign (cache.count tag sign) 0 = .error e) := by
  unfold assemble at h
  split at h
  · next hnone => exact ⟨(Prod.mk.inj (Prod.mk.inj h).2).1.symm, .inr (.inl hnone)⟩
  · dsimp only at h
    split at h
    · next hfew => exact ⟨(Prod.mk.inj (Prod.mk.inj h).2).1.symm, .inr (.inr (.inl hfew))⟩
    · split at h
      · exact ⟨(Prod.mk.inj (Prod.mk.inj h).2).1.symm,
          .inl (Except.error.inj (Prod.mk.inj h).1).symm⟩
      · split at h
        · next e' d₂ hwrite =>
          have he : e' = e := Except.error.inj (Prod.mk.inj h).1
          subst he
          refine ⟨(Prod.mk.inj (Prod.mk.inj h).2).1.symm, ?_⟩
          rcases writeFragments_error hwrite with hgather | ⟨hdisk, -⟩
          · exact .inr (.inr (.inr hgather))
          · exact .inl hdisk
        · cases h

/-! ## Receiving -/

variable {chunk : Chunk}

/-- What was told of the chunk that has just arrived. -/
def told (r : Receiver) (chunk : Chunk) : Notice :=
  .progress chunk.sign (chunk.progress r.chunkSize) chunk.total.toNat

/-- A chunk is waited upon, or no fragment is missing. -/
theorem waiting_or_ready (r : Receiver) (cache : ChunkCache) (chunk : Chunk) :
    (∀ tag, chunk.info.owner = some tag →
      cache.completed tag chunk.sign = false ∨ (tag, chunk.sign) ∈ r.assembling) ∨
    ∃ tag, chunk.info.owner = some tag ∧ cache.completed tag chunk.sign = true ∧
      (tag, chunk.sign) ∉ r.assembling := by
  by_cases hready : ∃ tag, chunk.info.owner = some tag ∧
      cache.completed tag chunk.sign = true ∧ (tag, chunk.sign) ∉ r.assembling
  · exact .inr hready
  · refine .inl fun tag howner => ?_
    cases hcomplete : cache.completed tag chunk.sign with
    | false => exact .inl rfl
    | true => exact .inr (Decidable.not_not.1 fun hfree => hready ⟨tag, howner, hcomplete, hfree⟩)

/-- As long as fragments are missing, nothing happens. -/
theorem receive_waiting (h : ∀ tag, chunk.info.owner = some tag →
      cache.completed tag chunk.sign = false ∨ (tag, chunk.sign) ∈ r.assembling) :
    r.receive cache chunk d =
      { result := .ok (.progress chunk.sign (chunk.progress r.chunkSize) chunk.total.toNat)
        receiver := r, cache, disk := d, notices := [r.told chunk] } := by
  unfold receive
  cases howner : chunk.info.owner with
  | none => rfl
  | some tag =>
    dsimp only
    rw [if_pos (h tag howner)]
    rfl

/-- Once no fragment is missing, the file is put together. -/
theorem receive_ready (howner : chunk.info.owner = some tag)
    (hcomplete : cache.completed tag chunk.sign = true)
    (hfree : (tag, chunk.sign) ∉ r.assembling) :
    r.receive cache chunk d =
      match r.assemble cache tag chunk.sign chunk.num.toNat d with
      | (.ok report, cache, d) =>
        { result := .ok (.completed report), receiver := r, cache, disk := d
          notices := [r.told chunk, .completed report] }
      | (.error e, cache, d) =>
        { result := .error e, receiver := r, cache, disk := d
          notices := [r.told chunk, .failed chunk.sign e] } := by
  have hready : ¬ (cache.completed tag chunk.sign = false ∨ (tag, chunk.sign) ∈ r.assembling) := by
    rintro (hmissing | hbusy)
    · rw [hcomplete] at hmissing
      cases hmissing
    · exact hfree hbusy
  unfold receive
  rw [howner]
  dsimp only
  rw [if_neg hready, List.erase_cons_head]
  -- the keys that are being put together play no part in putting one together
  have hbusy : assemble { r with assembling := (tag, chunk.sign) :: r.assembling } cache tag
      chunk.sign chunk.num.toNat d = r.assemble cache tag chunk.sign chunk.num.toNat d := rfl
  rw [hbusy]
  rcases r.assemble cache tag chunk.sign chunk.num.toNat d with ⟨_ | report, cache', d'⟩
  · rfl
  · rfl

/-- A chunk is either waited upon, or its file is put together or not. -/
theorem receive_cases (r : Receiver) (cache : ChunkCache) (chunk : Chunk) (d : Disk) :
    ((∃ processed total,
        (r.receive cache chunk d).result = .ok (.progress chunk.sign processed total)) ∧
      (r.receive cache chunk d).cache = cache) ∨
    ∃ tag, chunk.info.owner = some tag ∧ cache.completed tag chunk.sign = true ∧
      ((∃ e, (r.receive cache chunk d).result = .error e ∧
          (r.receive cache chunk d).cache = cache) ∨
        ∃ name content, Path.fileName? chunk.sign = some name ∧
          gather cache tag chunk.sign (cache.count tag chunk.sign) 0 = .ok content ∧
          (r.receive cache chunk d).result = .ok (.completed
            { sign := chunk.sign, path := Path.join r.dir name, bytes := content.length
              fragments := cache.count tag chunk.sign
              digest := Text.hex (Blake3.digest content) }) ∧
          (r.receive cache chunk d).cache = (cache.clear tag chunk.sign).2 ∧
          (r.receive cache chunk d).disk.content? (Path.join r.dir name) = some content) := by
  rcases r.waiting_or_ready cache chunk with hwaiting | ⟨tag, howner, hcomplete, hfree⟩
  · rw [receive_waiting hwaiting]
    exact .inl ⟨⟨_, _, rfl⟩, rfl⟩
  · refine .inr ⟨tag, howner, hcomplete, ?_⟩
    rw [receive_ready howner hcomplete hfree]
    rcases hassemble : r.assemble cache tag chunk.sign chunk.num.toNat d with
      ⟨e | report, cache', d'⟩
    · exact .inl ⟨e, rfl, (assemble_error hassemble).1⟩
    · obtain ⟨name, content, hname, hgather, hreport, hcache, hcontent, -⟩ := assemble_ok hassemble
      exact .inr ⟨name, content, hname, hgather, by rw [hreport], hcache, hcontent⟩

end Parley.Transfer.Receiver
