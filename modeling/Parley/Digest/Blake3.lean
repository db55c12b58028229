import Parley.Text.Utf8

/-! # BLAKE3

  The digest of received files: thirty-two bytes for any content.

  The content is cut into chunks of 1024 bytes and a chunk into blocks of 64.
  Each block is compressed into a chaining value of eight words; the chunks are
  the leaves of a binary tree in which the left subtree is always **the largest
  complete one that leaves something for the right**. The last compression, of
  the root, gives the digest.
-/

namespace Parley.Blake3

/-! ### Words -/

/-- The starting values of a compression. -/
def iv : List UInt32 :=
  [0x6A09E667, 0xBB67AE85, 0x3C6EF372, 0xA54FF53A, 0x510E527F, 0x9B05688C, 0x1F83D9AB, 0x5BE0CD19]

/-- The order in which each round reads the words of the round before it. -/
def schedule : List Nat := [2, 6, 3, 10, 7, 0, 4, 13, 1, 11, 12, 5, 9, 14, 15, 8]

/-- The bits of `x` turned right by `n`. -/
def turn (x : UInt32) (n : UInt32) : UInt32 := (x >>> n) ||| (x <<< (32 - n))

/-- The words of some bytes, four bytes each, the lowest first; a short last
    word is filled with zeros. -/
def words : Bytes → List UInt32
  | [] => []
  | [a] => [a.toUInt32]
  | [a, b] => [a.toUInt32 ||| b.toUInt32 <<< 8]
  | [a, b, c] => [a.toUInt32 ||| b.toUInt32 <<< 8 ||| c.toUInt32 <<< 16]
  | a :: b :: c :: d :: rest =>
    (a.toUInt32 ||| b.toUInt32 <<< 8 ||| c.toUInt32 <<< 16 ||| d.toUInt32 <<< 24) :: words rest

/-- The sixteen words of a block, filled with zeros. -/
def blockWords (block : Bytes) : List UInt32 :=
  let ws := words block
  ws ++ List.replicate (16 - ws.length) 0

/-- The four bytes of a word, the lowest first. -/
def wordBytes (w : UInt32) : Bytes :=
  [w.toUInt8, (w >>> 8).toUInt8, (w >>> 16).toUInt8, (w >>> 24).toUInt8]

/-! ### Compression -/

/-- Mixes two words of the message into four words of the state. -/
def mix (s : Array UInt32) (a b c d : Nat) (x y : UInt32) : Array UInt32 :=
  let va := s.getD a 0 + s.getD b 0 + x
  let vd := turn (s.getD d 0 ^^^ va) 16
  let vc := s.getD c 0 + vd
  let vb := turn (s.getD b 0 ^^^ vc) 12
  let va := va + vb + y
  let vd := turn (vd ^^^ va) 8
  let vc := vc + vd
  let vb := turn (vb ^^^ vc) 7
  (((s.setIfInBounds a va).setIfInBounds b vb).setIfInBounds c vc).setIfInBounds d vd

/-- The places that a round mixes, columns first, then diagonals. -/
def places : List (Nat × Nat × Nat × Nat) :=
  [(0, 4, 8, 12), (1, 5, 9, 13), (2, 6, 10, 14), (3, 7, 11, 15),
    (0, 5, 10, 15), (1, 6, 11, 12), (2, 7, 8, 13), (3, 4, 9, 14)]

/-- Mixes the message, two words a place. -/
def mixAll (s : Array UInt32) : List (Nat × Nat × Nat × Nat) → List UInt32 → Array UInt32
  | (a, b, c, d) :: rest, x :: y :: message => mixAll (mix s a b c d x y) rest message
  | _, _ => s

/-- Runs some rounds, the message reordered after each. -/
def rounds : Nat → Array UInt32 → List UInt32 → Array UInt32
  | 0, s, _ => s
  | n + 1, s, message =>
    let table := message.toArray
    rounds n (mixAll s places message) (schedule.map fun i => table.getD i 0)

/-- Marks the first block of a chunk. -/
def chunkStart : UInt32 := 1

/-- Marks the last block of a chunk. -/
def chunkEnd : UInt32 := 2

/-- Marks a node with two children. -/
def parent : UInt32 := 4

/-- Marks the root. -/
def root : UInt32 := 8

/-- The chaining value after a block: eight words. -/
def compress (chain block : List UInt32) (counter : Nat) (size flags : UInt32) : List UInt32 :=
  let start := chain ++ iv.take 4 ++
    [UInt32.ofNat counter, UInt32.ofNat (counter / UInt32.size), size, flags]
  let s := (rounds 7 start.toArray block).toList
  (s.take 8).zipWith (· ^^^ ·) (s.drop 8)

/-! ### The tree -/

/-- The chaining value of a chunk of at most 1024 bytes, block by block. -/
def chunkChain (counter : Nat) (flags : UInt32) : Nat → List UInt32 → UInt32 → Bytes → List UInt32
  | 0, chain, _, _ => chain
  | n + 1, chain, first, bs =>
    let block := bs.take 64
    let size := UInt32.ofNat block.length
    if n = 0 then compress chain (blockWords block) counter size (first ||| chunkEnd ||| flags)
    else
      chunkChain counter flags n (compress chain (blockWords block) counter 64 first) 0 (bs.drop 64)

/-- The chaining value of one chunk. -/
def leaf (counter : Nat) (flags : UInt32) (bs : Bytes) : List UInt32 :=
  chunkChain counter flags (max 1 ((bs.length + 63) / 64)) iv chunkStart bs

/-- How many chunks the left subtree has when there are `n`, at least two. -/
def leftChunks (n : Nat) : Nat := Nat.pow 2 (n - 1).log2

/-- The chaining value of the tree over some chunks. The first argument bounds
    the depth of the tree. -/
def tree : Nat → Nat → UInt32 → Nat → Bytes → List UInt32
  | 0, counter, flags, _, bs => leaf counter flags bs
  | fuel + 1, counter, flags, chunks, bs =>
    if chunks ≤ 1 then leaf counter flags bs
    else
      let left := leftChunks chunks
      let l := tree fuel counter 0 left (bs.take (left * 1024))
      let r := tree fuel (counter + left) 0 (chunks - left) (bs.drop (left * 1024))
      compress iv (l ++ r) 0 64 (parent ||| flags)

/-- The digest of some content. -/
def digest (bs : Bytes) : Bytes :=
  let chunks := max 1 ((bs.length + 1023) / 1024)
  (tree chunks 0 root chunks bs).flatMap wordBytes

end Parley.Blake3
