import MemSmr.State
import MemSmr.Lib.Outcome

/-!
# `read_ext2.c`: the blocks of a file

`read_ext2_file_blocks` and the functions for direct, indirect, double and triple indirect blocks.

* `disk` is what `READ_BLOCKS` puts into a buffer, and `entry` is what `*ptr` gives when `ptr` points
  at an entry of such a buffer; it is a parameter, so that the entries can be read in more than one way.
* A function gives what it returns and the list of the reads it makes (`FileRead`), in order.  The
  caller's buffer is only written by those reads, so a pointer into it is a number of bytes.
* A product of two `int`s that is past the range of `int` is a fault where its value is used; a read of
`pos[-1]` is a fault.
-/

namespace MemSmr

namespace Ext2File

/-! ## Constants -/

/-- `EXT2_NDIR_BLOCKS`. -/
abbrev ext2NdirBlocks : ℕ := 12

/-- `EXT2_IND_BLOCK`. -/
abbrev ext2IndBlock : ℕ := ext2NdirBlocks

/-- `BLK_NUM_PER_BLK`; the divisor is `sizeof(__u32)`. -/
abbrev blkNumPerBlk : ℕ := ext2BlockSize / 4

/-- `INDIRECT_BLKS`. -/
abbrev indirectBlks : ℕ := blkNumPerBlk

/-- `DOUBLE_IND_BLKS`. -/
abbrev doubleIndBlks : ℕ := blkNumPerBlk * blkNumPerBlk

/-- `TRIPLE_IND_BLKS`. -/
abbrev tripleIndBlks : ℕ := blkNumPerBlk * blkNumPerBlk * blkNumPerBlk

/-- `struct ext2_inode`, the field that is read here. -/
structure Ext2Inode where
  iBlock : ℕ → ℕ

/-- What the model does not go on after. -/
inductive ReadFault where
  /-- `pos[-1]` is read. -/
  | noZone
  /-- An entry is read that is not in the buffer. -/
  | pastBuffer (index : ℕ)
  /-- A product of two `int`s is past the range of `int`. -/
  | overflow
  deriving DecidableEq

/-- One call of `READ_BLOCKS`. -/
inductive FileRead where
  /-- An indirect block is read into a buffer of its own. -/
  | indirect (blkNo : ℕ)
  /-- A data block is read into the caller's buffer, `fdata` bytes from its start. -/
  | data (fdata blkNo : ℕ)
  deriving DecidableEq

/-- What a function returns, and its reads. -/
abbrev ReadResult : Type := Except ReadFault (ℕ × List FileRead)

/-- `blocks * EXT2_BLOCK_SIZE`, a product of two `int`s. -/
def blocks2Bytes (blocks : ℕ) : Except ReadFault ℕ :=
  if blocks * ext2BlockSize < 2 ^ 31 then .ok (blocks * ext2BlockSize) else .error .overflow

/-- `read_direct_blocks`. -/
def readDirectBlocks (fdata : ℕ) (ip : Ext2Inode) (lo n : ℕ) : ℕ × List FileRead :=
  (n, (List.range n).map fun i => .data (fdata + i * ext2BlockSize) (ip.iBlock (lo + i)))

section Indirect

variable (entry : Block → ℕ → Except ReadFault ℕ) (disk : ℕ → Block)

/-- `read_indirect1_blocks`. -/
def readIndirect1Blocks (fdata blkNo lo n : ℕ) : ReadResult := do
  let buf := disk blkNo
  let reads ← (List.range n).mapM fun i => do
    let no ← entry buf (lo + i)
    return FileRead.data (fdata + i * ext2BlockSize) no
  return (n, .indirect blkNo :: reads)

/-! `read_indirect2_blocks` and `read_indirect3_blocks` are one function: `callee` reads up to `size`
blocks of a file through one entry. -/

section Pieces

variable (callee : ℕ → ℕ → ℕ → ℕ → ReadResult) {size : ℕ}

/-- The loop over the entries from `index` on, each of which is used from its start. -/
def readPieces (hsize : 0 < size) (buf : Block) (fdata index n : ℕ) :
    Except ReadFault (List FileRead) :=
  if n = 0 then .ok []
  else if n ≤ size then do
    let no ← entry buf index
    let r ← callee fdata no 0 n
    return r.2
  else do
    let no ← entry buf index
    let r ← callee fdata no 0 size
    let rest ← readPieces hsize buf (fdata + size * ext2BlockSize) (index + 1) (n - size)
    return r.2 ++ rest
termination_by n
decreasing_by omega

/-- The blocks from `lo` on: the first entry may be used from its middle. -/
def readIndirectBlocks (hsize : 0 < size) (fdata blkNo lo n : ℕ) : ReadResult := do
  let buf := disk blkNo
  let index := lo / size
  let offset := lo % size
  let count := size - offset
  if n ≤ count then
    let no ← entry buf index
    let r ← callee fdata no offset n
    return (n, .indirect blkNo :: r.2)
  else
    let no ← entry buf index
    let r ← callee fdata no offset count
    let bytes ← blocks2Bytes count
    let rest ← readPieces entry callee hsize buf (fdata + bytes) (index + 1) (n - count)
    return (n, .indirect blkNo :: (r.2 ++ rest))

end Pieces

theorem indirectBlks_pos : 0 < indirectBlks := by decide

theorem doubleIndBlks_pos : 0 < doubleIndBlks := by decide

/-- `read_indirect2_blocks`. -/
def readIndirect2Blocks : ℕ → ℕ → ℕ → ℕ → ReadResult :=
  readIndirectBlocks entry disk (readIndirect1Blocks entry disk) indirectBlks_pos

/-- `read_indirect3_blocks`. -/
def readIndirect3Blocks : ℕ → ℕ → ℕ → ℕ → ReadResult :=
  readIndirectBlocks entry disk (readIndirect2Blocks entry disk) doubleIndBlks_pos

/-- `read_func`; the entry for direct blocks is `NULL` and is not used. -/
def readFunc : ℕ → ℕ → ℕ → ℕ → ℕ → ReadResult
  | 1 => readIndirect1Blocks entry disk
  | 2 => readIndirect2Blocks entry disk
  | _ => readIndirect3Blocks entry disk

end Indirect

/-! ## `read_ext2_file_blocks` -/

/-- `pos`: where the four zones of a file end. -/
def pos : ℕ → ℕ
  | 0 => ext2NdirBlocks
  | 1 => ext2NdirBlocks + indirectBlks
  | 2 => ext2NdirBlocks + indirectBlks + doubleIndBlks
  | _ => ext2NdirBlocks + indirectBlks + doubleIndBlks + tripleIndBlks

/-- The loop that looks for the zones in which the blocks begin and end; `none` is `-1`. -/
def findZones (lo n : ℕ) : Option ℕ × Option ℕ :=
  (List.range 4).foldl (fun st i =>
    (if lo < pos i ∧ st.1 = none then some i else st.1,
      if lo + n ≤ pos i ∧ st.2 = none then some i else st.2)) (none, none)

/-- One round of the loop that splits the blocks over the zones: `blocks`, `from` and `n`. -/
def splitRound (st : (ℕ → ℕ) × ℕ × ℕ) (i : ℕ) : (ℕ → ℕ) × ℕ × ℕ :=
  let (blocks, lo, n) := st
  if pos i - lo < n then (Function.update blocks i (pos i - lo), pos i, n - (pos i - lo))
  else (Function.update blocks i n, lo, n)

/-- The array `blocks`.  Without a first zone the loop starts with `pos[-1]`. -/
def zoneBlocks (lo n : ℕ) : Except ReadFault (ℕ → ℕ) :=
  match findZones lo n with
  | (none, _) => .error .noZone
  | (some _, none) => .ok fun _ => 0
  | (some first, some last) =>
    .ok ((List.range' first (last + 1 - first)).foldl splitRound (fun _ => 0, lo, n)).1

/-- The direct blocks, if there are any in the range: `buf` and the reads.  `buf` is moved past them
whether or not it is used again. -/
def directRound (ip : Ext2Inode) (lo : ℕ) (blocks : ℕ → ℕ) : Except ReadFault ℕ × List FileRead :=
  if blocks 0 ≠ 0 then (blocks2Bytes (blocks 0), (readDirectBlocks 0 ip lo (blocks 0)).2)
  else (.ok 0, [])

section Zones

variable (entry : Block → ℕ → Except ReadFault ℕ) (disk : ℕ → Block)

/-- One round of the loop that reads the zones: `buf` and the reads. -/
def zoneRound (ip : Ext2Inode) (savedFrom : ℕ) (blocks : ℕ → ℕ)
    (st : Except ReadFault ℕ × List FileRead) (i : ℕ) :
    Except ReadFault (Except ReadFault ℕ × List FileRead) :=
  if blocks i ≠ 0 then do
    let lo := if blocks (i - 1) ≠ 0 then 0 else savedFrom - pos (i - 1)
    let fdata ← st.1
    let r ← readFunc entry disk i fdata (ip.iBlock (ext2IndBlock + i - 1)) lo (blocks i)
    return ((blocks2Bytes (blocks i)).map (fdata + ·), st.2 ++ r.2)
  else return st

/-- `read_ext2_file_blocks`; `readInode` is what `read_ext2_inode` reads. -/
def readExt2FileBlocks (readInode : ℕ → Ext2Inode) (ino lo n : ℕ) : ReadResult := do
  let ip := readInode ino
  let blocks ← zoneBlocks lo n
  let st ← [1, 2, 3].foldlM (zoneRound entry disk ip lo blocks) (directRound ip lo blocks)
  return (n, st.2)

end Zones

end Ext2File

end MemSmr
