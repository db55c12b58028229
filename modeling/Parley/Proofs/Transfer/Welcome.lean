import Parley.Proofs.Transfer.Confinement

/-! # Disks that do not get in the way

  A receiver fails for the disk only if the disk fails: if the outside world makes nothing fail, if
  the directory is there or can be made, and if files can be put there under the name and under that
  of the temporary file, then **no failure is one of the disk**. A disk of this kind is of this kind
  again after every chunk, whatever comes of it: the receiver makes no directory but its own, and
  directories stay.
-/

namespace Parley.Transfer.Receiver

variable {P : List String → Prop} {r : Receiver} {cache : ChunkCache} {tag sign name : String}
  {chunk : Chunk} {d d₁ d' : Disk} {dir temp path : String}

/-- A file of a name can be put into a directory, which is there or can be made. -/
def Welcomes (dir name : String) (d : Disk) : Prop :=
  ∃ made, Disk.createDirAll dir d = (.ok (), made) ∧
    Serves (Path.join dir (partName name)) (Path.join dir name) made

/-! ## Section 1: What is kept -/

/-- Where only files were touched, a disk serves as it did. -/
theorem Serves.of_touches (h : Serves temp path d) (htouches : d.TouchesFiles P d') :
    Serves temp path d' where
  works := h.works.of_faults htouches.faults
  temp := by
    obtain ⟨p, hplace, hfree⟩ := h.temp
    exact ⟨p, htouches.keeps.place hplace, fun hdir => hfree (htouches.dirs p hdir)⟩
  path := by
    obtain ⟨q, hplace, hfree⟩ := h.path
    exact ⟨q, htouches.keeps.place hplace, fun hdir => hfree (htouches.dirs q hdir)⟩

/-- Once the directory has been made, it is found again. -/
theorem welcomes_of_touches (hmade : Disk.createDirAll dir d = (.ok (), d₁))
    (hserves : Serves (Path.join dir (partName name)) (Path.join dir name) d₁)
    (htouches : d₁.TouchesFiles P d') : Welcomes dir name d' := by
  have hworks := hserves.works.of_faults htouches.faults
  exact ⟨d'.tick, Disk.createDirAll_again hmade htouches.keeps hworks,
    hserves.of_touches (htouches.trans (.tick P d'))⟩

/-- **What a file that is put together leaves is as welcoming as before**, for files of any name. -/
theorem Welcomes.assemble (h : Welcomes r.dir name d) (cache : ChunkCache) (tag sign : String)
    (expected : Nat) : Welcomes r.dir name (r.assemble cache tag sign expected d).2.2 := by
  obtain ⟨d₁, hmade, hserves⟩ := h
  cases hsign : Path.fileName? sign with
  | none =>
    rw [assemble_of_no_name hsign]
    exact ⟨d₁, hmade, hserves⟩
  | some other =>
    -- nothing has happened, or the directory was made, or files were touched in it after that
    rcases assemble_disk hsign rfl with heq | heq | ⟨d₂, hmade₂, heq⟩
    · rw [heq]
      exact ⟨d₁, hmade, hserves⟩
    · rw [heq, hmade]
      exact welcomes_of_touches hmade hserves (.refl (fun _ => False) d₁)
    · obtain rfl : d₂ = d₁ := congrArg Prod.snd (hmade₂.symm.trans hmade)
      obtain ⟨home, hleads⟩ := Disk.leads_of_createDirAll hmade
      rw [heq]
      exact welcomes_of_touches hmade hserves
        (written_holds cache tag sign (Path.isName_of_fileName? hsign) hleads)

/-- So does a chunk. -/
theorem Welcomes.receive (h : Welcomes r.dir name d) (cache : ChunkCache) (chunk : Chunk) :
    Welcomes r.dir name (r.receive cache chunk d).disk := by
  rcases r.receive_disk cache chunk d with heq | ⟨tag, -, heq⟩
  · rw [heq]
    exact h
  · rw [heq]
    exact h.assemble cache tag chunk.sign chunk.num.toNat

/-- A chunk leaves the receiver as it was. -/
theorem receiver_receive (r : Receiver) (cache : ChunkCache) (chunk : Chunk) (d : Disk) :
    (r.receive cache chunk d).receiver = r := by
  rcases r.waiting_or_ready cache chunk with hwaiting | ⟨tag, howner, hcomplete, hfree⟩
  · rw [receive_waiting hwaiting]
  · rw [receive_ready howner hcomplete hfree]
    split <;> rfl

/-! ## Section 2: What does not fail -/

/-- Gathering fails for a missing fragment and nothing else. -/
theorem gather_error {n index : Nat} {e : TransferError}
    (h : gather cache tag sign n index = .error e) : ∃ i, e = .missingFragment sign i := by
  induction n generalizing index with
  | zero => cases h
  | succ n ih =>
    unfold gather at h
    split at h
    · exact ⟨index, (Except.error.inj h).symm⟩
    · cases hrest : gather cache tag sign n (index + 1) with
      | error e' =>
        rw [hrest] at h
        obtain rfl := Except.error.inj h
        exact ih hrest
      | ok rest =>
        rw [hrest] at h
        cases h

/-- A disk that welcomes the file of a sign is no reason to fail. -/
theorem assemble_ne_disk (h : ∀ name, Path.fileName? sign = some name → Welcomes r.dir name d)
    (cache : ChunkCache) (tag : String) (expected : Nat) :
    (r.assemble cache tag sign expected d).1 ≠ .error .disk := by
  intro herror
  unfold assemble at herror
  split at herror
  · cases herror
  · next name hname =>
    obtain ⟨d₁, hmade, hserves⟩ := h name hname
    dsimp only at herror
    split at herror
    · cases herror
    · rw [hmade] at herror
      dsimp only at herror
      split at herror
      · next e d₂ hwrite =>
        obtain rfl := Except.error.inj herror
        rcases writeFragments_error hwrite with hgather | ⟨-, hdisk⟩
        · obtain ⟨i, hmissing⟩ := gather_error hgather
          cases hmissing
        · exact hdisk hserves
      · cases herror

/-- **On such a disk no chunk fails for the disk.** -/
theorem receive_calm
    (h : ∀ name, Path.fileName? chunk.sign = some name → Welcomes r.dir name d) (sign : String) :
    .failed sign .disk ∉ (r.receive cache chunk d).notices := by
  rcases r.waiting_or_ready cache chunk with hwaiting | ⟨tag, howner, hcomplete, hfree⟩
  · rw [receive_waiting hwaiting]
    simp [told]
  · have hcalm := assemble_ne_disk h cache tag chunk.num.toNat
    rw [receive_ready howner hcomplete hfree]
    rcases hassemble : r.assemble cache tag chunk.sign chunk.num.toNat d with
      ⟨e | report, cache', d'⟩
    · rw [hassemble] at hcalm
      have hne : e ≠ .disk := fun he => hcalm (congrArg Except.error he)
      simp [told, hne.symm]
    · simp [told]

end Parley.Transfer.Receiver
