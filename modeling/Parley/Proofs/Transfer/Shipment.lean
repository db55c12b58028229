import Parley.Proofs.Transfer.InOrder

/-! # Files that are sent

  A **shipment** is a file that a nucleus sends: where it stands, who sends it, and
  as whose it comes in. If it can be sent at all, one frame goes out for each of its
  fragments; the host takes the fragments in as those of a parcel.
-/

namespace Parley.Transfer

variable {κ : Type}

/-! ## Shipments -/

/-- A file that a nucleus sends to a host. -/
structure Shipment (κ : Type) where
  /-- The nucleus that sends it, before it does. -/
  sender : Nucleus κ
  /-- The cellet that sends it. -/
  cellet : String
  /-- The peer that it is sent to. -/
  peer : String
  /-- Where the file stands. -/
  path : String
  /-- The disk on which it stands. -/
  disk : Disk
  /-- The peer that it comes from, for the host. -/
  origin : String
  /-- The name of the file. -/
  sign : String
  /-- What the file holds. -/
  content : Bytes

namespace Shipment

/-- How many fragments a file has: the least number that holds all of it, and at least one. No
    size counts as one. -/
def count (s : Shipment κ) (chunkSize : UInt64) : Nat :=
  max ((s.content.length + max chunkSize.toNat 1 - 1) / max chunkSize.toNat 1) 1

/-- The file cut into chunks. -/
def file (s : Shipment κ) (chunkSize : UInt64) : Fragments :=
  { sign := s.sign, count := UInt32.ofNat (s.count chunkSize)
    chunks := cut s.sign (UInt64.ofNat s.content.length) (UInt32.ofNat (s.count chunkSize))
      (max chunkSize.toNat 1) (UInt32.ofNat (s.count chunkSize)).toNat 0 s.content }

/-- A fragment of the file. -/
def fragment (s : Shipment κ) (chunkSize : UInt64) (k : Nat) : Chunk :=
  fragmentAt s.sign s.content (UInt32.ofNat (s.count chunkSize)) (max chunkSize.toNat 1) k

/-- The frame of a fragment. -/
def frame (s : Shipment κ) (chunkSize : UInt64) (k : Nat) : Frame :=
  frameOf κ s.cellet s.peer (s.fragment chunkSize k)

/-- The report about the file, put together in a directory. -/
def report (s : Shipment κ) (chunkSize : UInt64) (dir : String) : Report :=
  { sign := s.sign, path := Path.join dir s.sign, bytes := s.content.length
    fragments := s.count chunkSize, digest := Text.hex (Blake3.digest s.content) }

/-- What sending the file comes to. -/
def sent [Content κ] (s : Shipment κ) (chunkSize : UInt64) :
    Except NucleusError UInt32 × Nucleus κ × Disk :=
  sendFile s.sender s.cellet s.peer s.path chunkSize.toNat s.disk

/-- The frames that sending the file puts on the link. -/
def recorded [Content κ] (s : Shipment κ) (chunkSize : UInt64) : List Frame :=
  (s.sent chunkSize).2.1.link.frames.drop s.sender.link.frames.length

/-! ## What can be sent -/

/-- The file can be sent: the nucleus is up to it, the file can be read, its fragments can be
    counted in 32 bits (more are refused), and its name is backslash-safe. -/
structure Sendable (s : Shipment κ) (chunkSize : UInt64) : Prop where
  canSend : CanSend s.sender s.cellet
  name : Path.fileName? s.path = some s.sign
  reads : ∃ length d₁ d₂, Disk.openLength s.path s.disk = (.ok length, d₁) ∧
    Disk.read s.path d₁ = (.ok s.content, d₂)
  countable : s.count chunkSize < UInt32.size
  safe : Wire.BackslashSafe (Text.bytes s.sign)

namespace Sendable

variable {s : Shipment κ} {chunkSize : UInt64}

theorem cut (h : s.Sendable chunkSize) :
    fragments s.sign s.content chunkSize.toNat = .ok (s.file chunkSize) := by
  have hcount : fragmentCount s.content.length chunkSize.toNat
      = .ok (UInt32.ofNat (s.count chunkSize)) := if_pos h.countable
  unfold fragments
  rw [hcount]
  rfl

/-- The file on its way. -/
def parcel (h : s.Sendable chunkSize) : Parcel where
  origin := s.origin
  sign := s.sign
  content := s.content
  chunkSize := chunkSize
  file := s.file chunkSize
  cut := h.cut
  isName := Path.isName_of_fileName? h.name
  safe := h.safe

theorem count_parcel (h : s.Sendable chunkSize) : h.parcel.count = s.count chunkSize :=
  UInt32.toNat_ofNat_of_lt' h.countable

theorem report_parcel (h : s.Sendable chunkSize) (dir : String) :
    h.parcel.report dir = s.report chunkSize dir := by
  unfold Parcel.report
  rw [h.count_parcel]
  rfl

/-- **The file is sent**: one frame for each of its fragments. -/
theorem sent_eq [Content κ] (h : s.Sendable chunkSize) :
    (s.sent chunkSize).1 = .ok (UInt32.ofNat (s.count chunkSize)) ∧
    s.recorded chunkSize = (List.range (s.count chunkSize)).map (s.frame chunkSize) := by
  obtain ⟨length, d₁, d₂, hopen, hread⟩ := h.reads
  obtain ⟨hresult, hframes⟩ := sendFile_ok h.canSend s.peer h.name hopen hread h.cut
  refine ⟨hresult, ?_⟩
  unfold recorded sent
  rw [hframes, List.drop_left, (fragments_eq_ok h.cut).1, List.map_map]
  show (List.range h.parcel.count).map _ = _
  rw [h.count_parcel]
  rfl

end Sendable

end Shipment

end Parley.Transfer
