import Mathlib.Order.Bounds.Basic
import Parley.Proofs.Transfer.Cutting

/-! # Files are split exactly

  A file of any length is split into the **fewest** pieces of the size that hold it, and an
  empty file into one. That fails exactly where there are more of them than a 32-bit number
  tells; else nothing of the file is missing or there twice (`fragments_split`).

  Only the last piece can be short, since one piece fewer does not hold the file. That is also
  why what has been read after each of them (`Chunk.progress`) comes to the whole length with
  the last one and not before.

  Lengths and numbers are what counts here. That there is memory for a piece is presupposed.
-/

namespace Parley.Transfer

/-! ## How many pieces -/

/-- How many pieces of a size hold so many bytes; there is at least one. -/
def Enough (length size : Nat) : Set Nat := {n | 1 ≤ n ∧ length ≤ n * size}

/-- The quotient that is rounded up is the least number that is enough. -/
theorem isLeast_enough (length : Nat) {size : Nat} (hsize : 0 < size) :
    IsLeast (Enough length size) (max ((length + size - 1) / size) 1) := by
  have hiff : ∀ m, (length + size - 1) / size ≤ m ↔ length ≤ m * size := by
    intro m
    rw [Nat.div_le_iff_le_mul_add_pred hsize, Nat.mul_comm size m]
    omega
  constructor
  · exact ⟨Nat.le_max_right _ _, (hiff _).1 (Nat.le_max_left _ _)⟩
  · rintro m ⟨hpos, hholds⟩
    exact Nat.max_le.2 ⟨(hiff m).2 hholds, hpos⟩

/-- One piece fewer is not enough. -/
theorem lt_of_isLeast_enough {length size n : Nat} (h : IsLeast (Enough length size) (n + 1))
    (hn : 1 ≤ n) : n * size < length := by
  by_contra hlt
  have hle : n + 1 ≤ n := h.2 ⟨hn, Nat.le_of_not_lt hlt⟩
  omega

/-! ## Pieces of a file -/

section Places

variable {content : Bytes} {size n : Nat} (h : IsLeast (Enough content.length size) n)

include h

/-- Every piece but the last is full. -/
theorem length_piece_of_lt {i : Nat} (hi : i + 1 < n) : (piece content size i).length = size := by
  obtain ⟨k, rfl⟩ : ∃ k, n = k + 1 := ⟨n - 1, by omega⟩
  -- it ends where the last piece begins or before, and the content goes on there
  have hshort := lt_of_isLeast_enough h (by omega)
  have hmul : (i + 1) * size ≤ k * size := Nat.mul_le_mul_right size (by omega)
  rw [Nat.succ_mul] at hmul
  rw [length_piece]
  omega

/-- The last piece holds something, unless there is nothing. -/
theorem length_piece_last_pos {i : Nat} (hi : i + 1 = n) (hsize : 0 < size)
    (hne : content ≠ []) :
    1 ≤ (piece content size i).length := by
  subst hi
  have hpos : 0 < content.length := List.length_pos_iff.2 hne
  have hshort : i * size < content.length := by
    by_cases hzero : i = 0
    · rw [hzero, Nat.zero_mul]
      exact hpos
    · exact lt_of_isLeast_enough h (by omega)
  rw [length_piece]
  omega

end Places

/-! ## Fragments of a file -/

/-- Chunks that split content into so many pieces of a size. -/
structure Split (content : Bytes) (size n : Nat) (chunks : List Chunk) : Prop where
  /-- There are as many. -/
  length : chunks.length = n
  /-- What they hold, one after the other, is the content. -/
  whole : chunks.flatMap Chunk.payload = content
  /-- They are numbered in order, and each tells how many there are and how long the content
      is. -/
  numbered : ∀ (i : Nat) (c : Chunk), chunks[i]? = some c →
    c.index.toNat = i ∧ c.num.toNat = n ∧ c.total.toNat = content.length
  /-- Every one but the last is full. -/
  full : ∀ (i : Nat) (c : Chunk), chunks[i]? = some c → i + 1 < n → c.payload.length = size
  /-- The last one is no longer than that, and holds something unless there is nothing. -/
  rest : ∀ c, chunks.getLast? = some c →
    c.payload.length ≤ size ∧ (content ≠ [] → 1 ≤ c.payload.length)
  /-- It alone says that it is the last. -/
  last : ∀ (i : Nat) (c : Chunk), chunks[i]? = some c → (c.isLast = true ↔ i + 1 = n)
  /-- What has been read never gets less. -/
  grows : (chunks.map (Chunk.progress · size)).Pairwise (· ≤ ·)
  /-- Nor is it ever more than there is. -/
  bounded : ∀ c ∈ chunks, c.progress size ≤ content.length
  /-- With the last one, everything has been read. -/
  complete : ∀ c, chunks.getLast? = some c → c.progress size = content.length

section Fragment

variable {sign : String} {content : Bytes} {num : UInt32} {size i : Nat}

theorem isLast_fragmentAt (hi : i < num.toNat) :
    (fragmentAt sign content num size i).isLast = true ↔ i + 1 = num.toNat := by
  -- there is a fragment, so one less than the number is no overflow
  have hone : (1 : UInt32) ≤ num := by
    rw [UInt32.le_iff_toNat_le, UInt32.toNat_one]
    omega
  have hpred : (num - 1).toNat = num.toNat - 1 := by
    rw [UInt32.toNat_sub_of_le _ _ hone, UInt32.toNat_one]
  have hnum : (fragmentAt sign content num size i).num = num := rfl
  unfold Chunk.isLast
  rw [decide_eq_true_iff, hnum, ← UInt32.toNat_inj, index_fragmentAt sign content size hi, hpred,
    UInt32.lt_iff_toNat_lt, UInt32.toNat_zero]
  omega

theorem progress_fragmentAt (hlen : content.length < UInt64.size) (hi : i < num.toNat) :
    (fragmentAt sign content num size i).progress size = min ((i + 1) * size) content.length := by
  have htotal : (fragmentAt sign content num size i).total.toNat = content.length :=
    UInt64.toNat_ofNat_of_lt' hlen
  unfold Chunk.progress
  rw [index_fragmentAt sign content size hi, htotal]

end Fragment

section Cut

variable {sign : String} {content : Bytes} {chunkSize : Nat} {file : Fragments}
  (h : fragments sign content chunkSize = .ok file)

include h

/-- The fragment of every index stands at its place, and no others are there. -/
theorem getElem?_chunks (i : Nat) (c : Chunk) :
    file.chunks[i]? = some c ↔
      i < file.count.toNat ∧ fragmentAt sign content file.count (max chunkSize 1) i = c := by
  rw [congrArg Fragments.chunks (fragments_eq_ok h).1, List.getElem?_map,
    Option.map_eq_some_iff]
  simp only [List.getElem?_eq_some_iff, List.length_range, List.getElem_range]
  constructor
  · rintro ⟨j, ⟨hi, rfl⟩, hc⟩
    exact ⟨hi, hc⟩
  · rintro ⟨hi, hc⟩
    exact ⟨i, ⟨hi, rfl⟩, hc⟩

theorem length_chunks : file.chunks.length = file.count.toNat := by
  rw [congrArg Fragments.chunks (fragments_eq_ok h).1, List.length_map, List.length_range]

/-- The last of the fragments. -/
theorem getLast?_chunks (c : Chunk) :
    file.chunks.getLast? = some c ↔
      fragmentAt sign content file.count (max chunkSize 1) (file.count.toNat - 1) = c := by
  have hpos := count_pos h
  rw [List.getLast?_eq_getElem?, length_chunks h, getElem?_chunks h]
  exact ⟨And.right, fun hc => ⟨by omega, hc⟩⟩

theorem isLeast_count : IsLeast (Enough content.length (max chunkSize 1)) file.count.toNat := by
  rw [(fragments_eq_ok h).2]
  exact isLeast_enough content.length (size_pos chunkSize)

/-- A file that is cut is split into the pieces that are enough for it. -/
theorem split_of_fragments (hlen : content.length < UInt64.size) :
    Split content (max chunkSize 1) file.count.toNat file.chunks where
  length := length_chunks h
  whole := by
    rw [congrArg Fragments.chunks (fragments_eq_ok h).1, List.flatMap_map]
    simp only [payload_fragmentAt]
    exact flatMap_piece h
  numbered := by
    intro i c hget
    obtain ⟨hi, rfl⟩ := (getElem?_chunks h i c).1 hget
    exact ⟨index_fragmentAt sign content _ hi, rfl, UInt64.toNat_ofNat_of_lt' hlen⟩
  full := by
    intro i c hget hi
    obtain ⟨-, rfl⟩ := (getElem?_chunks h i c).1 hget
    rw [payload_fragmentAt]
    exact length_piece_of_lt (isLeast_count h) hi
  rest := by
    intro c hget
    obtain rfl := (getLast?_chunks h c).1 hget
    rw [payload_fragmentAt]
    refine ⟨List.length_take_le _ _, ?_⟩
    exact length_piece_last_pos (isLeast_count h) (Nat.sub_add_cancel (count_pos h))
      (size_pos chunkSize)
  last := by
    intro i c hget
    obtain ⟨hi, rfl⟩ := (getElem?_chunks h i c).1 hget
    exact isLast_fragmentAt hi
  grows := by
    rw [congrArg Fragments.chunks (fragments_eq_ok h).1, List.map_map, List.pairwise_map]
    refine List.pairwise_lt_range.imp_of_mem ?_
    intro i j hi hj hij
    rw [List.mem_range] at hi hj
    -- it grows with the index until all has been read
    have hmul : (i + 1) * max chunkSize 1 ≤ (j + 1) * max chunkSize 1 :=
      Nat.mul_le_mul_right _ (by omega)
    simp only [Function.comp_apply, progress_fragmentAt hlen hi, progress_fragmentAt hlen hj]
    omega
  bounded := by
    intro c hc
    obtain ⟨i, hget⟩ := List.getElem?_of_mem hc
    obtain ⟨hi, rfl⟩ := (getElem?_chunks h i c).1 hget
    rw [progress_fragmentAt hlen hi]
    exact Nat.min_le_right _ _
  complete := by
    intro c hget
    have hpos := count_pos h
    obtain rfl := (getLast?_chunks h c).1 hget
    rw [progress_fragmentAt hlen (by omega), Nat.sub_add_cancel hpos]
    exact Nat.min_eq_right (length_le_count_mul h)

end Cut

/-- **Files are split exactly.** For content of any length that a file can have and any size of
    fragments, of which none counts as one: the number of fragments is the least that is enough,
    and it is an error that it exceeds what 32 bits hold, and the only one. The fragments are
    then that many, and they split the content.

    It is presupposed that **there is memory for a piece**: room for one of full size is taken before
    it is read, however short the content is. No room can be had from `2 ^ 63` bytes on, where a
    program ends instead of answering; below that it depends on the machine. -/
theorem fragments_split (sign : String) (content : Bytes) (chunkSize : Nat)
    (hlen : content.length < UInt64.size) :
    ∃ n, IsLeast (Enough content.length (max chunkSize 1)) n ∧
      (n < UInt32.size →
        fragmentCount content.length chunkSize = .ok (UInt32.ofNat n) ∧
        ∃ file, fragments sign content chunkSize = .ok file ∧ file.count.toNat = n ∧
          file.fault = none ∧ Split content (max chunkSize 1) n file.chunks) ∧
      (UInt32.size ≤ n →
        fragmentCount content.length chunkSize =
          .error (.tooManyFragments content.length (max chunkSize 1)) ∧
        fragments sign content chunkSize =
          .error (.tooManyFragments content.length (max chunkSize 1))) := by
  refine ⟨_, isLeast_enough content.length (size_pos chunkSize), ?_, ?_⟩
  · intro hfew
    have hcount : fragmentCount content.length chunkSize = .ok (UInt32.ofNat _) := if_pos hfew
    refine ⟨hcount, ?_⟩
    -- nothing but the number can fail
    obtain ⟨file, hfile⟩ : ∃ file, fragments sign content chunkSize = .ok file := by
      unfold fragments
      rw [hcount]
      exact ⟨_, rfl⟩
    have hnum := (fragments_eq_ok hfile).2
    have hsplit := split_of_fragments hfile hlen
    rw [hnum] at hsplit
    exact ⟨file, hfile, hnum, congrArg Fragments.fault (fragments_eq_ok hfile).1, hsplit⟩
  · intro hmany
    have hcount : fragmentCount content.length chunkSize =
        .error (.tooManyFragments content.length (max chunkSize 1)) :=
      if_neg (Nat.not_lt.2 hmany)
    refine ⟨hcount, ?_⟩
    unfold fragments
    rw [hcount]
    rfl

/-- Seven bytes in threes: two full fragments, and one of a single byte. -/
theorem fragments_split_seven :
    ([1, 2, 3, 4, 5, 6, 7] : Bytes).length < UInt64.size ∧
      ∃ file, fragments "f" [1, 2, 3, 4, 5, 6, 7] 3 = .ok file ∧
        file.chunks.map Chunk.payload = [[1, 2, 3], [4, 5, 6], [7]] ∧
        Split [1, 2, 3, 4, 5, 6, 7] 3 3 file.chunks := by
  refine ⟨by decide, ?_⟩
  obtain ⟨n, hleast, hfew, -⟩ := fragments_split "f" [1, 2, 3, 4, 5, 6, 7] 3 (by decide)
  obtain rfl : n = 3 := hleast.unique (isLeast_enough 7 (by decide))
  obtain ⟨-, file, hfile, -, -, hsplit⟩ := hfew (by decide)
  refine ⟨file, hfile, ?_, hsplit⟩
  obtain rfl := Except.ok.inj hfile
  decide

/-- Single bytes are the finest cut, and the longest file that can be cut so fills the 32 bits. -/
example :
    fragmentCount 4294967295 0 = .ok 4294967295 ∧
      fragmentCount 4294967296 0 = .error (.tooManyFragments 4294967296 1) := by
  decide

end Parley.Transfer
