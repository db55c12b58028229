import Parley.Transfer.Fragments

/-! # What a cut file consists of

  The fragments of a file are its **pieces** in order: the stretches of one size
  that follow each other from the start, of which the last may be shorter. Nothing
  of the content lies behind the last piece.
-/

namespace Parley.Transfer

/-! ## Pieces -/

/-- The stretch of content that a fragment of an index holds. -/
def piece (content : Bytes) (size index : Nat) : Bytes := (content.drop (index * size)).take size

theorem length_piece (content : Bytes) (size index : Nat) :
    (piece content size index).length = min size (content.length - index * size) := by
  unfold piece
  rw [List.length_take, List.length_drop]

/-- What is left from a piece on is the piece and what is left behind it. -/
theorem piece_append_drop (content : Bytes) (size index : Nat) :
    piece content size index ++ content.drop ((index + 1) * size)
      = content.drop (index * size) := by
  have hnext : (index + 1) * size = index * size + size := Nat.succ_mul index size
  unfold piece
  rw [hnext, ← List.drop_drop, List.take_append_drop]

/-- The fragment of an index. -/
def fragmentAt (sign : String) (content : Bytes) (num : UInt32) (size index : Nat) : Chunk :=
  Chunk.make sign (UInt64.ofNat content.length) (UInt32.ofNat index) num
    (piece content size index)

theorem payload_fragmentAt (sign : String) (content : Bytes) (num : UInt32) (size index : Nat) :
    (fragmentAt sign content num size index).payload = piece content size index := by
  unfold fragmentAt Chunk.payload Chunk.make
  exact List.take_length

theorem index_fragmentAt (sign : String) (content : Bytes) {num : UInt32} (size : Nat)
    {index : Nat} (h : index < num.toNat) :
    (fragmentAt sign content num size index).index.toNat = index :=
  UInt32.toNat_ofNat_of_lt' (Nat.lt_trans h num.toNat_lt)

/-- Cutting takes one piece after the other. -/
theorem cut_eq_map (sign : String) (total : UInt64) (num : UInt32) (size : Nat) (content : Bytes)
    (n index : Nat) :
    cut sign total num size n index (content.drop (index * size))
      = (List.range' index n).map fun i =>
          Chunk.make sign total (UInt32.ofNat i) num (piece content size i) := by
  -- on the number of pieces, for every index to start from
  induction n generalizing index with
  | zero => rfl
  | succ n ih =>
    have hnext : (content.drop (index * size)).drop size = content.drop ((index + 1) * size) := by
      rw [List.drop_drop, Nat.succ_mul]
    rw [cut, hnext, ih, List.range'_succ, List.map_cons]
    rfl

/-! ## Files -/

/-- No size counts as one. -/
theorem size_pos (chunkSize : Nat) : 0 < max chunkSize 1 :=
  Nat.lt_of_lt_of_le Nat.one_pos (Nat.le_max_right _ _)

variable {sign : String} {content : Bytes} {chunkSize : Nat} {file : Fragments}

/-- A file that is cut consists of its pieces in order. -/
theorem fragments_eq_ok (h : fragments sign content chunkSize = .ok file) :
    file =
      { sign, count := file.count
        chunks := (List.range file.count.toNat).map
          (fragmentAt sign content file.count (max chunkSize 1)) } ∧
    file.count.toNat
      = max ((content.length + max chunkSize 1 - 1) / max chunkSize 1) 1 := by
  unfold fragments fragmentCount at h
  dsimp only at h
  split at h
  · next hlt =>
    have hfile := Except.ok.inj h
    have hcut := cut_eq_map sign (UInt64.ofNat content.length) file.count (max chunkSize 1)
      content file.count.toNat 0
    rw [Nat.zero_mul, List.drop_zero, ← List.range_eq_range'] at hcut
    subst hfile
    refine ⟨?_, UInt32.toNat_ofNat_of_lt' hlt⟩
    rw [Fragments.mk.injEq]
    exact ⟨rfl, rfl, hcut, rfl⟩
  · cases h

theorem count_pos (h : fragments sign content chunkSize = .ok file) : 0 < file.count.toNat := by
  rw [(fragments_eq_ok h).2]
  exact Nat.lt_of_lt_of_le Nat.one_pos (Nat.le_max_right _ _)

/-- The pieces reach to the end of the content. -/
theorem length_le_count_mul (h : fragments sign content chunkSize = .ok file) :
    content.length ≤ file.count.toNat * max chunkSize 1 := by
  -- rounded up, so that as many pieces hold no less than all
  have hdiv := Nat.lt_div_mul_add (size_pos chunkSize) (a := content.length + max chunkSize 1 - 1)
  have hcount : (content.length + max chunkSize 1 - 1) / max chunkSize 1 ≤ file.count.toNat := by
    rw [(fragments_eq_ok h).2]
    exact Nat.le_max_left _ _
  have hmul := Nat.mul_le_mul_right (max chunkSize 1) hcount
  omega

theorem drop_count_mul (h : fragments sign content chunkSize = .ok file) :
    content.drop (file.count.toNat * max chunkSize 1) = [] :=
  List.drop_eq_nil_of_le (length_le_count_mul h)

/-- The pieces of a file that was cut, one after the other, are its content. -/
theorem flatMap_piece (hcut : fragments sign content chunkSize = .ok file) :
    (List.range file.count.toNat).flatMap (piece content (max chunkSize 1)) = content := by
  have hall : ∀ n, (List.range n).flatMap (piece content (max chunkSize 1)) ++
      content.drop (n * max chunkSize 1) = content := by
    intro n
    induction n with
    | zero => simp
    | succ n ih =>
      rw [List.range_succ, List.flatMap_append, List.append_assoc]
      simpa [piece_append_drop] using ih
  have hend := hall file.count.toNat
  rwa [drop_count_mul hcut, List.append_nil] at hend

end Parley.Transfer
