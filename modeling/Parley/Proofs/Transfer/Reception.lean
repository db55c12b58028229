import Parley.Proofs.Cache.History
import Parley.Proofs.Transfer.Assembly
import Parley.Proofs.Wire.Binding
import Parley.Proofs.Wire.Relay
import Parley.Transfer.Host

/-! # What a reception does to one file

  Three things that hold of every file, by whatever the chunks of it came:

  - what is held under its key grows by the fragment that arrives, stays or goes as a whole;
  - by arrival, the fragments that are held are gathered one after the other;
  - the sign of a chunk that was read off the wire is backslash-safe, so that no file is ever
    completed under another name.
-/

namespace Parley

/-! ## Section 1: One key of the cache -/

namespace ChunkCache

variable {c : ChunkCache} {tag sign : String}

/-- By arrival, a fragment goes behind those that are held; or the write evicts them all. -/
theorem fragments?_write_arrival (horder : c.order = .arrival) {chunk : Chunk}
    (howner : chunk.info.owner = some tag) :
    (c.write chunk).fragments? tag chunk.sign
        = some ((c.fragments? tag chunk.sign).getD [] ++ [chunk]) ∨
      (c.write chunk).fragments? tag chunk.sign = none := by
  have hinsert : (c.insert tag chunk).fragments? tag chunk.sign
      = some ((c.fragments? tag chunk.sign).getD [] ++ [chunk]) := by
    rw [fragments?_insert, if_pos ⟨rfl, rfl⟩, horder]
    rfl
  rcases write_cases howner c with h | ⟨t, s, h⟩
  · rw [h]
    exact .inl hinsert
  · rw [h, fragments?_clear]
    split
    · exact .inr rfl
    · exact .inl hinsert

/-- Whatever is done to other keys, what is held under a key stays or goes as a whole. -/
theorem fragments?_perform {op : CacheOp}
    (hop : ∀ chunk, op = .write chunk →
      ¬ (chunk.info.owner = some tag ∧ chunk.sign = sign)) :
    (c.perform op).fragments? tag sign = c.fragments? tag sign ∨
      (c.perform op).fragments? tag sign = none := by
  cases op with
  | write chunk =>
    cases howner : chunk.info.owner with
    | none =>
      have hsame : c.perform (.write chunk) = c := by
        unfold perform
        dsimp only
        unfold write
        rw [howner]
      rw [hsame]
      exact .inl rfl
    | some owner =>
      have hkey : ¬ (tag = owner ∧ sign = chunk.sign) := by
        rintro ⟨rfl, rfl⟩
        exact hop chunk rfl ⟨howner, rfl⟩
      have hinsert : (c.insert owner chunk).fragments? tag sign = c.fragments? tag sign := by
        rw [fragments?_insert, if_neg hkey]
      unfold perform
      rcases write_cases howner c with h | ⟨t, s, h⟩
      · dsimp only
        rw [h]
        exact .inl hinsert
      · dsimp only
        rw [h, fragments?_clear]
        split
        · exact .inr rfl
        · exact .inl hinsert
  | clear t s =>
    unfold perform
    dsimp only
    rw [fragments?_clear]
    split
    · exact .inr rfl
    · exact .inl rfl
  | shutdown => exact .inr rfl
  | tick now => exact .inl rfl

end ChunkCache

namespace Transfer

namespace Receiver

/-- A chunk leaves what is held under a key, or clears it. -/
theorem fragments?_receive (r : Receiver) (cache : ChunkCache) (chunk : Chunk) (d : Disk)
    (tag sign : String) :
    (r.receive cache chunk d).cache.fragments? tag sign = cache.fragments? tag sign ∨
      (r.receive cache chunk d).cache.fragments? tag sign = none := by
  rcases r.receive_cases cache chunk d with ⟨-, h⟩ | ⟨t, -, -, ⟨_, -, h⟩ | ⟨_, _, -, -, -, h, -⟩⟩
  · rw [h]
    exact .inl rfl
  · rw [h]
    exact .inl rfl
  · rw [h, ChunkCache.fragments?_clear]
    split
    · exact .inr rfl
    · exact .inl rfl

theorem order_receive (r : Receiver) (cache : ChunkCache) (chunk : Chunk) (d : Disk) :
    (r.receive cache chunk d).cache.order = cache.order := by
  rcases r.receive_cases cache chunk d with ⟨-, h⟩ | ⟨t, -, -, ⟨_, -, h⟩ | ⟨_, _, -, -, -, h, -⟩⟩
  · rw [h]
  · rw [h]
  · rw [h, ChunkCache.clear_order]

/-- Only a chunk that completes a file is followed by a report. -/
theorem result_of_completed {r : Receiver} {cache : ChunkCache} {chunk : Chunk} {d : Disk}
    {report : Report} (h : .completed report ∈ (r.receive cache chunk d).notices) :
    (r.receive cache chunk d).result = .ok (.completed report) := by
  rcases r.waiting_or_ready cache chunk with hwaiting | ⟨tag, howner, hcomplete, hfree⟩
  · rw [receive_waiting hwaiting] at h
    simp [told] at h
  · rw [receive_ready howner hcomplete hfree] at h ⊢
    rcases hassemble : r.assemble cache tag chunk.sign chunk.num.toNat d with ⟨e | written, _, _⟩
    · rw [hassemble] at h
      simp [told] at h
    · rw [hassemble] at h
      have hreport : report = written := by simpa [told] using h
      rw [hreport]

/-- It is reported under the sign of the chunk. -/
theorem sign_of_completed {r : Receiver} {cache : ChunkCache} {chunk : Chunk} {d : Disk}
    {report : Report} (h : .completed report ∈ (r.receive cache chunk d).notices) :
    report.sign = chunk.sign := by
  have hresult := result_of_completed h
  rcases r.receive_cases cache chunk d with
    ⟨⟨_, _, hother⟩, -⟩ | ⟨_, -, -, ⟨_, hother, -⟩ | ⟨_, _, -, -, hother, -⟩⟩
  · rw [hother] at hresult
    cases hresult
  · rw [hother] at hresult
    cases hresult
  · rw [hother] at hresult
    cases hresult
    rfl

/-- By arrival, fragments are gathered one after the other. -/
theorem gather_arrival {cache : ChunkCache} (horder : cache.order = .arrival) {tag sign : String}
    {held : List Chunk} (hheld : cache.fragments? tag sign = some held) (n index : Nat)
    (hlength : index + n = held.length) :
    gather cache tag sign n index = .ok ((held.drop index).flatMap Chunk.payload) := by
  induction n generalizing index with
  | zero =>
    rw [List.drop_eq_nil_of_le (by omega)]
    rfl
  | succ n ih =>
    have hlt : index < held.length := by omega
    have hat : cache.fragment? tag sign index = some held[index] := by
      unfold ChunkCache.fragment? ChunkCache.locate?
      rw [hheld, horder]
      exact List.getElem?_eq_getElem hlt
    rw [gather_succ hat, ih (index + 1) (by omega), List.drop_eq_getElem_cons hlt]
    rfl

end Receiver

/-! ## Section 2: Names that do not survive the wire -/

variable {κ : Type} [Content κ]

/-- A chunk that is filled from safe stuffs has one of them for its sign, or none. -/
theorem backslashSafe_of_fill {f : Factory κ} {tracker : String} {p : Primitive κ} {k : Chunk}
    (hsafe : p.stuffs.Safe) (h : f.fill tracker p = .chunk k) :
    Wire.BackslashSafe (Text.bytes k.sign) := by
  have hsign : ∃ fresh : Chunk, fresh.sign = "" ∧ k = fresh.build p.stuffs := by
    unfold Factory.fill at h
    cases f with
    | action => cases howner : p.owner <;> rw [howner] at h <;> cases h
    | chunk =>
      cases howner : p.owner <;> rw [howner] at h <;> exact ⟨_, rfl, (Dialect.chunk.inj h).symm⟩
    | custom f => cases howner : p.owner <;> rw [howner] at h <;> cases h
  obtain ⟨fresh, hfresh, rfl⟩ := hsign
  show Wire.BackslashSafe
    (Text.bytes ((((p.stuffs.of .subject)[0]?).map Literal.text).getD fresh.sign))
  cases hfirst : (p.stuffs.of .subject)[0]? with
  | none =>
    rw [hfresh]
    decide
  | some l =>
    apply hsafe (.ofLiteral .subject l)
    rw [Stuffs.mem_toList]
    exact List.mem_of_getElem? hfirst

/-- Whatever bytes a chunk was read from, its sign is backslash-safe. -/
theorem backslashSafe_of_deserialize (c : Codec κ) (bs : Bytes) (owner : Option String) {k : Chunk}
    (h : (c.deserialize bs owner).primitive.dialect = some (.chunk k)) :
    Wire.BackslashSafe (Text.bytes k.sign) := by
  -- the dialect is filled from the stuffs that were read, and these are safe
  have hbind : ∀ (s : Stuffs) name tracker, s.Safe →
      (c.bind { stuffs := s, owner } name tracker).primitive.dialect = some (.chunk k) →
      Wire.BackslashSafe (Text.bytes k.sign) := by
    intro s name tracker hsafe hdialect
    cases hf : c.factory? name with
    | none =>
      rw [Codec.bind_of_none hf] at hdialect
      cases hdialect
    | some f =>
      rw [Codec.bind_of_some hf] at hdialect
      exact backslashSafe_of_fill hsafe (Option.some.inj hdialect)
  have hconclude : ∀ (s : Stuffs) outcome, s.Safe →
      (c.conclude { stuffs := s, owner } outcome).primitive.dialect = some (.chunk k) →
      Wire.BackslashSafe (Text.bytes k.sign) := by
    intro s outcome hsafe hdialect
    rcases outcome with e | _ | header
    · cases hdialect
    · cases hdialect
    · exact hbind s _ _ hsafe hdialect
  have hnothing : Stuffs.Safe {} := by
    intro stuff hmem
    cases hmem
  cases bs with
  | nil => exact hconclude {} _ hnothing h
  | cons b bs =>
    have hread := Wire.scan_safe c.mode (a := .start) trivial hnothing (b :: bs)
    rw [Codec.deserialize_eq c (List.cons_ne_nil b bs)] at h
    cases hscan : Wire.scan c.mode .start {} (b :: bs) with
    | running a s =>
      rw [hscan] at h hread
      exact hconclude s _ hread h
    | finished header s rest =>
      rw [hscan] at h hread
      exact hconclude s _ hread h
    | failed e s =>
      rw [hscan] at h hread
      exact hconclude s _ hread h

omit [Content κ] in
/-- What is delivered of a chunk has its sign. -/
theorem exists_of_delivered {n : Nucleus κ} {cellet peer cellet' peer' : String}
    {p p' : Primitive κ} {c : Chunk} (hchunk : p'.dialect = some (.chunk c))
    (h : .delivered cellet' peer' p' ∈ (n.deliver cellet peer p).events) :
    ∃ k, p.dialect = some (.chunk k) ∧ k.sign = c.sign := by
  unfold Nucleus.deliver at h
  cases hdialect : p.dialect with
  | none =>
    rw [hdialect] at h
    have hsame : p' = p := by simp_all
    rw [hsame, hdialect] at hchunk
    cases hchunk
  | some d =>
    have hcaptured : p' = p.capture (d.setCellet cellet) := by
      rw [hdialect] at h
      dsimp only at h
      split at h <;> simp_all
    rw [hcaptured] at hchunk
    have hset : d.setCellet cellet = .chunk c := Option.some.inj hchunk
    cases d with
    | action a => cases hset
    | chunk k =>
      cases hset
      exact ⟨k, rfl, rfl⟩
    | custom k => cases hset

omit [Content κ] in
/-- A chunk is handed to the receiver with what was delivered. -/
theorem Host.exists_of_chunkOf? {h : Host κ} {event : Event κ} {c : Chunk}
    (hchunk : h.chunkOf? event = some c) :
    ∃ cellet peer p, event = .delivered cellet peer p ∧ p.dialect = some (.chunk c) := by
  unfold chunkOf? at hchunk
  split at hchunk
  · next cellet peer p =>
    split at hchunk
    · next c' hdialect =>
      split at hchunk
      · cases hchunk
        exact ⟨cellet, peer, p, rfl, hdialect⟩
      · cases hchunk
    · cases hchunk
  · cases hchunk

/-- Whatever arrives, a chunk that is delivered has a sign that is backslash-safe. -/
theorem backslashSafe_of_delivered {n : Nucleus κ} {cellet peer : String} {raw : Bytes}
    {cellet' peer' : String} {p : Primitive κ} {c : Chunk} (hchunk : p.dialect = some (.chunk c))
    (h : .delivered cellet' peer' p ∈ (n.arrive cellet peer raw).events) :
    Wire.BackslashSafe (Text.bytes c.sign) := by
  unfold Nucleus.arrive at h
  split at h
  · cases h
  · dsimp only at h
    split at h
    · simp at h
    · dsimp only at h
      rcases List.mem_append.1 h with hhook | hdelivered
      · simp at hhook
      · obtain ⟨k, hk, hsign⟩ := exists_of_delivered hchunk hdelivered
        rw [← hsign]
        exact backslashSafe_of_deserialize _ _ _ hk

/-- Whatever arrives, a file is never completed under a name that is not backslash-safe. -/
theorem backslashSafe_of_completed {h : Host κ} {peer : String} {raw : Bytes} {d : Disk}
    {report : Report} (hreport : .completed report ∈ (h.arrive peer raw d).notices) :
    Wire.BackslashSafe (Text.bytes report.sign) := by
  unfold Host.arrive at hreport
  dsimp only at hreport
  split at hreport
  · cases hreport
  · next c hevent =>
    have hsign : report.sign = c.sign := Receiver.sign_of_completed hreport
    obtain ⟨event, hmem, hchunk⟩ := List.exists_of_findSome?_eq_some hevent
    obtain ⟨_, _, p, rfl, hdialect⟩ := Host.exists_of_chunkOf? hchunk
    rw [hsign]
    exact backslashSafe_of_delivered hdialect hmem

end Transfer

end Parley
