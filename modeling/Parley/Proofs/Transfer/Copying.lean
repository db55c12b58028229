import Parley.Proofs.Files.Writing
import Parley.Proofs.Transfer.Cutting

/-! # Copying fragments

  The receiver reads fragments one by one and writes each of them before it reads the next, through
  a buffer. If nothing fails, what it has copied is what the cache held, **one fragment behind the
  other**, and the file holds just that. If something fails, a fragment was missing or the disk has
  failed.
-/

namespace Parley.Transfer.Receiver

variable {cache : ChunkCache} {tag sign : String}

/-! ## Section 1: Gathering -/

/-- The fragments of a sign from an index on, one after the other. -/
def gather (cache : ChunkCache) (tag sign : String) : Nat → Nat → Except TransferError Bytes
  | 0, _ => .ok []
  | n + 1, index =>
    match cache.fragment? tag sign index with
    | none => .error (.missingFragment sign index)
    | some f => (gather cache tag sign n (index + 1)).map fun rest => f.payload ++ rest

/-- A fragment that is there comes first. -/
theorem gather_succ {index : Nat} {f : Chunk} (hfound : cache.fragment? tag sign index = some f)
    (n : Nat) : gather cache tag sign (n + 1) index =
      (gather cache tag sign n (index + 1)).map fun rest => f.payload ++ rest := by
  rw [gather, hfound]

/-- Gathered from some index on, pieces give what is left of their content from there on. -/
theorem gather_of_pieces {cache : ChunkCache} {tag sign : String} {content : Bytes} {size : Nat}
    (n index : Nat)
    (hpieces : ∀ i, index ≤ i → i < index + n →
      (cache.fragment? tag sign i).map Chunk.payload = some (piece content size i))
    (hend : content.drop ((index + n) * size) = []) :
    gather cache tag sign n index = .ok (content.drop (index * size)) := by
  induction n generalizing index with
  | zero =>
    rw [Nat.add_zero] at hend
    rw [hend]
    rfl
  | succ n ih =>
    have hrest := ih (index + 1) (fun i hlo hhi => hpieces i (by omega) (by omega))
      (by rwa [Nat.add_assoc, Nat.add_comm 1 n])
    have hfirst := hpieces index (Nat.le_refl index) (by omega)
    obtain ⟨f, hf, hpayload⟩ := Option.map_eq_some_iff.1 hfirst
    rw [gather_succ hf, hrest, hpayload]
    show Except.ok (piece content size index ++ content.drop ((index + 1) * size)) = _
    rw [piece_append_drop]

/-- If every index of a file that was cut leads to its piece, the content is gathered. -/
theorem gather_of_cut {cache : ChunkCache} {tag sign name : String} {content : Bytes}
    {chunkSize : Nat} {file : Fragments} (hcut : fragments name content chunkSize = .ok file)
    (hpieces : ∀ i < file.count.toNat,
      (cache.fragment? tag sign i).map Chunk.payload
        = some (piece content (max chunkSize 1) i)) :
    gather cache tag sign file.count.toNat 0 = .ok content := by
  have hend := drop_count_mul hcut
  rw [← Nat.zero_add file.count.toNat] at hend
  have hgather := gather_of_pieces file.count.toNat 0
    (fun i _ hi => hpieces i (by rwa [Nat.zero_add] at hi)) hend
  rw [hgather, Nat.zero_mul, List.drop_zero]

/-! ## Section 2: Copying -/

variable {w w' : Writer} {d d' : Disk} {p : List String} {given : Bytes} {n index count : Nat}
  {temp : String} {result : Except TransferError Bytes}

/-- What copying fragments leaves: only the file was touched, and the writer was given what was
    gathered. It fails where gathering fails, or because the disk does. -/
structure Copied (cache : ChunkCache) (tag sign : String) (n index : Nat) (p : List String)
    (given : Bytes) (d : Disk) (result : Except TransferError Bytes) (w' : Writer) (d' : Disk) :
    Prop where
  touches : d.TouchesFiles (· = p) d'
  /-- Some of it was given in any case. -/
  holds : ∃ left, w'.Holds d' p left
  ok : ∀ content, result = .ok content →
    gather cache tag sign n index = .ok content ∧ w'.Holds d' p (given ++ content)
  error : ∀ e, result = .error e →
    gather cache tag sign n index = .error e ∨ e = .disk ∧ ¬ d.Works

/-- **Copying gives a writer what is gathered**, fragment by fragment. -/
theorem copyFragments_spec (h : w.Holds d p given)
    (hrun : copyFragments cache tag sign n index w d = (result, w', d')) :
    Copied cache tag sign n index p given d result w' d' := by
  -- on the number of fragments; what the writer has been given grows by one of them at a time
  induction n generalizing index w d given result w' d' with
  | zero =>
    obtain ⟨rfl, hrest⟩ := Prod.mk.inj hrun
    obtain ⟨rfl, rfl⟩ := Prod.mk.inj hrest
    refine ⟨.refl _ d, ⟨given, h⟩, fun content hok => ?_, nofun⟩
    obtain rfl := Except.ok.inj hok
    rw [List.append_nil]
    exact ⟨rfl, h⟩
  | succ n ih =>
    unfold copyFragments at hrun
    cases hfound : cache.fragment? tag sign index with
    | none =>
      rw [hfound] at hrun
      obtain ⟨rfl, hrest⟩ := Prod.mk.inj hrun
      obtain ⟨rfl, rfl⟩ := Prod.mk.inj hrest
      refine ⟨.refl _ d, ⟨given, h⟩, nofun, fun e herror => .inl ?_⟩
      unfold gather
      rw [hfound, Except.error.inj herror]
    | some f =>
      rw [hfound] at hrun
      dsimp only at hrun
      -- the fragment is written before the next one is looked for
      rcases hput : w.put f.payload d with ⟨_ | ⟨⟩, w₁, d₁⟩ <;> rw [hput] at hrun <;>
        obtain ⟨⟨added, -, hadded⟩, hgiven, htouches, hworks⟩ := h.put hput
      · obtain ⟨rfl, hrest⟩ := Prod.mk.inj hrun
        obtain ⟨rfl, rfl⟩ := Prod.mk.inj hrest
        refine ⟨htouches, ⟨_, hadded⟩, nofun, fun e herror => .inr ⟨?_, fun hcalm => ?_⟩⟩
        · exact (Except.error.inj herror).symm
        · cases hworks hcalm
      · -- from here on it is as if the fragment had been given all along
        dsimp only at hrun
        rcases hcopy : copyFragments cache tag sign n (index + 1) w₁ d₁ with ⟨result₁, w₂, d₂⟩
        rw [hcopy] at hrun
        obtain ⟨rfl, hrest⟩ := Prod.mk.inj hrun
        obtain ⟨rfl, rfl⟩ := Prod.mk.inj hrest
        have hrest := ih (hgiven rfl) hcopy
        refine ⟨htouches.trans hrest.touches, hrest.holds, fun content hok => ?_,
          fun e herror => ?_⟩
        · cases result₁ with
          | error e => cases hok
          | ok behind =>
            obtain rfl := Except.ok.inj hok
            obtain ⟨hgather, hholds⟩ := hrest.ok behind rfl
            refine ⟨?_, by rwa [← List.append_assoc]⟩
            rw [gather_succ hfound, hgather]
            rfl
        · cases result₁ with
          | ok behind => cases herror
          | error e' =>
            obtain rfl := Except.error.inj herror
            rcases hrest.error e' rfl with hgather | ⟨hdisk, hfails⟩
            · left
              rw [gather_succ hfound, hgather]
              rfl
            · exact .inr ⟨hdisk, fun hcalm => hfails (hcalm.of_faults htouches.faults)⟩

/-- What filling a file leaves: only the file was touched and it is still there. It holds what was
    gathered, unless gathering fails or the disk does. -/
structure Filled (cache : ChunkCache) (tag sign : String) (count : Nat) (p : List String)
    (d : Disk) (result : Except TransferError Bytes) (d' : Disk) : Prop where
  touches : d.TouchesFiles (· = p) d'
  file : ∃ data, d'.node? p = some (.file data)
  ok : ∀ content, result = .ok content →
    gather cache tag sign count 0 = .ok content ∧ d'.node? p = some (.file content)
  error : ∀ e, result = .error e →
    gather cache tag sign count 0 = .error e ∨ e = .disk ∧ ¬ d.Works

/-- If copying or the flush behind it has failed, the writer is let go. -/
theorem filled_of_letGo (htouches : d.TouchesFiles (· = p) d') (hholds : w'.Holds d' p given)
    {e : TransferError} (herror : gather cache tag sign count 0 = .error e ∨ e = .disk ∧ ¬ d.Works) :
    Filled cache tag sign count p d (.error e) (w'.letGo d') := by
  obtain ⟨⟨done, hnode, -⟩, hgoes⟩ := hholds.letGo
  refine ⟨htouches.trans hgoes, ⟨done, hnode⟩, nofun, fun e' he => ?_⟩
  obtain rfl := Except.error.inj he
  exact herror

/-- **An empty file is filled with what is gathered.** -/
theorem fill_spec {dirOnly : Bool} (hplace : d.place temp = .ok (p, dirOnly))
    (hnode : d.node? p = some (.file []))
    (hrun : fill cache tag sign count temp d = (result, d')) :
    Filled cache tag sign count p d result d' := by
  unfold fill at hrun
  rcases hcopy : copyFragments cache tag sign count 0 { path := temp } d with
    ⟨_ | content, w₁, d₁⟩ <;> rw [hcopy] at hrun <;>
    have hcopied := copyFragments_spec (.new hplace hnode) hcopy
  · obtain ⟨rfl, rfl⟩ := Prod.mk.inj hrun
    obtain ⟨left, hholds⟩ := hcopied.holds
    exact filled_of_letGo hcopied.touches hholds (hcopied.error _ rfl)
  · obtain ⟨hgather, hholds⟩ := hcopied.ok content rfl
    dsimp only at hrun
    rcases hflush : w₁.flush d₁ with ⟨_ | ⟨⟩, w₂, d₂⟩ <;> rw [hflush] at hrun <;>
      obtain ⟨hkept, htouches, hempty, hworks⟩ := hholds.flush hflush <;>
      obtain ⟨rfl, rfl⟩ := Prod.mk.inj hrun
    · refine filled_of_letGo (hcopied.touches.trans htouches) hkept (.inr ⟨rfl, fun hcalm => ?_⟩)
      cases hworks (hcalm.of_faults hcopied.touches.faults)
    · -- as nothing waits any more, the file holds all that was given
      have hfile := hkept.node_of_nil (hempty rfl)
      refine ⟨hcopied.touches.trans htouches, ⟨_, hfile⟩, fun content' hok => ?_, nofun⟩
      obtain rfl := Except.ok.inj hok
      exact ⟨hgather, hfile⟩

end Parley.Transfer.Receiver
