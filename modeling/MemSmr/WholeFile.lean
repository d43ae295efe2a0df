import MemSmr.FileBlocks

/-!
# A whole file

`read_whole_ext2_file` takes the zones of a file one after the other, `read_ext2_file_blocks` splits
a range over them beforehand.

* `bytesAlignToBlocks`, `alignedBytes`: the macros, in 32-bit arithmetic.
* `readWholeExt2File`: the bytes that are allocated, and the reads.
* `readExt2FileBlocks_whole`: the two make the same reads for a number of blocks that an `i_size`
  can stand for.
* `WholeFileAgrees`, `whole_file_agrees_iff`: when the two readers agree about a file.
-/

namespace MemSmr

namespace Ext2File

open Outcome

/-! ## `read_whole_ext2_file` -/

/-- `struct ext2_inode`, with the fields that are read of a directory. -/
structure FileInode extends Ext2Inode where
  iMode : UInt16
  iSize : UInt32

/-- `EXT2_BLOCK_SIZE`, next to an operand of type `__u32`. -/
abbrev blockBytes : UInt32 := 4096

/-- `BYTES_ALIGN_TO_BLOCKS`. -/
def bytesAlignToBlocks (bytes : UInt32) : UInt32 := (bytes + blockBytes - 1) / blockBytes

/-- `ALIGNED_BYTES`. -/
def alignedBytes (bytes : UInt32) : UInt32 := bytesAlignToBlocks bytes * blockBytes

/-- What `read_whole_ext2_file` leaves: how many bytes it has allocated, and its reads. -/
structure WholeFile where
  bytes : ℕ
  reads : List FileRead
  deriving DecidableEq

section Whole

variable (entry : Block → ℕ → Except ReadFault ℕ) (disk : ℕ → Block)

/-- `read_whole_ext2_file`: the list of reads after the pieces that have been read. -/
def wholeReads (ip : Ext2Inode) (blocks : ℕ) : Except ReadFault (List FileRead) :=
  if blocks ≤ ext2NdirBlocks then return (readDirectBlocks 0 ip 0 blocks).2
  else do
    let reads := (readDirectBlocks 0 ip 0 ext2NdirBlocks).2
    let curBuf := ext2NdirBlocks * ext2BlockSize
    let blocks := blocks - ext2NdirBlocks
    if blocks ≤ indirectBlks then
      let r ← readIndirect1Blocks entry disk curBuf (ip.iBlock ext2IndBlock) 0 blocks
      return reads ++ r.2
    else
      let r ← readIndirect1Blocks entry disk curBuf (ip.iBlock ext2IndBlock) 0 indirectBlks
      let reads := reads ++ r.2
      let curBuf := curBuf + indirectBlks * ext2BlockSize
      let blocks := blocks - indirectBlks
      if blocks ≤ doubleIndBlks then
        let r ← readIndirect2Blocks entry disk curBuf (ip.iBlock (ext2IndBlock + 1)) 0 blocks
        return reads ++ r.2
      else
        let r ← readIndirect2Blocks entry disk curBuf (ip.iBlock (ext2IndBlock + 1)) 0 doubleIndBlks
        let reads := reads ++ r.2
        let curBuf := curBuf + doubleIndBlks * ext2BlockSize
        let blocks := blocks - doubleIndBlks
        -- "too large blocks"
        if tripleIndBlks < blocks then return reads
        else
          let r ← readIndirect3Blocks entry disk curBuf (ip.iBlock (ext2IndBlock + 2)) 0 blocks
          return reads ++ r.2

/-- `read_whole_ext2_file`. -/
def readWholeExt2File (ip : FileInode) : Except ReadFault WholeFile := do
  let reads ← wholeReads entry disk ip.toExt2Inode (bytesAlignToBlocks ip.iSize).toNat
  return ⟨(alignedBytes ip.iSize).toNat, reads⟩

end Whole

/-! ## The sizes -/

/-- How many blocks the bytes fill: the quotient is rounded up. -/
def ceilBlocks (bytes : ℕ) : ℕ := (bytes + (ext2BlockSize - 1)) / ext2BlockSize

/-- **The macro rounds up** as long as its sum does not wrap. -/
theorem bytesAlignToBlocks_toNat (bytes : UInt32) : (bytesAlignToBlocks bytes).toNat =
    if bytes.toNat ≤ 2 ^ 32 - ext2BlockSize then ceilBlocks bytes.toNat else 0 := by
  have hbytes := bytes.toNat_lt
  have hsum : (bytes + blockBytes - 1).toNat = (bytes.toNat + 4095) % 2 ^ 32 := by
    rw [UInt32.toNat_sub, UInt32.toNat_add]
    change (2 ^ 32 - 1 + (bytes.toNat + 4096) % 2 ^ 32) % 2 ^ 32 = _
    omega
  unfold bytesAlignToBlocks
  rw [UInt32.toNat_div, hsum]
  change (bytes.toNat + 4095) % 2 ^ 32 / 4096 = _
  unfold ceilBlocks
  change _ = if _ ≤ 2 ^ 32 - 4096 then (bytes.toNat + 4095) / 4096 else 0
  split_ifs
  · omega
  · omega

theorem alignedBytes_toNat (bytes : UInt32) :
    (alignedBytes bytes).toNat = (bytesAlignToBlocks bytes).toNat * ext2BlockSize := by
  have hbytes := bytes.toNat_lt
  have hblocks : (bytesAlignToBlocks bytes).toNat < 2 ^ 20 := by
    rw [bytesAlignToBlocks, UInt32.toNat_div]
    exact Nat.div_lt_of_lt_mul (UInt32.toNat_lt _)
  unfold alignedBytes
  rw [UInt32.toNat_mul]
  change (bytesAlignToBlocks bytes).toNat * 4096 % 2 ^ 32 = (bytesAlignToBlocks bytes).toNat * 4096
  omega

theorem ceilBlocks_le (bytes : UInt32) : ceilBlocks bytes.toNat ≤ 2 ^ 20 := by
  have hbytes := bytes.toNat_lt
  unfold ceilBlocks
  change (bytes.toNat + 4095) / 4096 ≤ 2 ^ 20
  omega

/-! ## The same reads -/

section Same

variable (entry : Block → ℕ → Except ReadFault ℕ) (disk : ℕ → Block) {ip : Ext2Inode} {n : ℕ}
  {blocks : ℕ → ℕ}

/-- A zone that the range does not reach. -/
theorem zoneRound_zero {lo i : ℕ} (h : blocks i = 0) (st : Except ReadFault ℕ × List FileRead) :
    zoneRound entry disk ip lo blocks st i = .ok st := if_neg fun hne => hne h

/-- A zone that is read from its start on. -/
theorem zoneRound_start {i fdata : ℕ} {reads : List FileRead} (h : blocks i ≠ 0) :
    zoneRound entry disk ip 0 blocks (.ok fdata, reads) i = (do
      let r ← readFunc entry disk i fdata (ip.iBlock (ext2IndBlock + i - 1)) 0 (blocks i)
      return ((blocks2Bytes (blocks i)).map (fdata + ·), reads ++ r.2)) := by
  have hlo : (if blocks (i - 1) ≠ 0 then 0 else 0 - pos (i - 1)) = 0 := by
    split_ifs
    · rfl
    · exact Nat.zero_sub _
  rw [zoneRound, if_pos h, hlo]
  rfl

/-- From the start of the file on. -/
theorem inZone_zero (n i : ℕ) : inZone 0 n i = min n (pos i) - min n (zoneStart i) := by
  rw [inZone, upTo]
  simp

/-- The three rounds, one after the other. -/
theorem readExt2FileBlocks_rounds (readInode : ℕ → Ext2Inode) (ino : ℕ) {lo : ℕ}
    (h : zoneBlocks lo n = .ok blocks) :
    (readExt2FileBlocks entry disk readInode ino lo n).map Prod.snd = (do
      let st ← zoneRound entry disk (readInode ino) lo blocks
        (directRound (readInode ino) lo blocks) 1
      let st ← zoneRound entry disk (readInode ino) lo blocks st 2
      let st ← zoneRound entry disk (readInode ino) lo blocks st 3
      return st.2) := by
  change Prod.snd <$> readExt2FileBlocks entry disk readInode ino lo n = _
  rw [readExt2FileBlocks, h, ok_bind]
  simp

/-- **The reads of `read_ext2_file_blocks`** from the start of a file on are those of
`read_whole_ext2_file`, up to the end of the double indirect blocks.  The third zone may move `buf`
past the range of an `int`, but `buf` is not used behind it. -/
theorem readExt2FileBlocks_whole (readInode : ℕ → Ext2Inode) (ino : ℕ) (hn : n ≤ pos 2) :
    (readExt2FileBlocks entry disk readInode ino 0 n).map Prod.snd =
      wholeReads entry disk (readInode ino) n := by
  obtain ⟨p0, p1, p2, p3⟩ := pos_eq
  obtain ⟨blocks, hsplit, hblocks⟩ := zoneBlocks_spec (show 0 < pos 3 by omega)
    (show 0 + n ≤ pos 3 by omega)
  simp only [inZone_zero] at hblocks
  have h0 := hblocks 0 (by decide)
  have h1 := hblocks 1 (by decide)
  have h2 := hblocks 2 (by decide)
  have h3 := hblocks 3 (by decide)
  simp only [zoneStart, p0, p1, p2, p3] at h0 h1 h2 h3
  have hthird : blocks 3 = 0 := by omega
  rw [readExt2FileBlocks_rounds entry disk readInode ino hsplit]
  unfold wholeReads
  by_cases hdirect : n ≤ ext2NdirBlocks
  · have hd : n ≤ 12 := hdirect
    rw [if_pos hdirect, zoneRound_zero entry disk (by omega), ok_bind,
      zoneRound_zero entry disk (by omega), ok_bind, zoneRound_zero entry disk hthird, directRound]
    split_ifs with hne
    · rw [show blocks 0 = n by omega]
      rfl
    · rw [show n = 0 by omega]
      rfl
  have hd : ¬ n ≤ 12 := hdirect
  have hround : directRound (readInode ino) 0 blocks = (.ok (ext2NdirBlocks * ext2BlockSize),
      (readDirectBlocks 0 (readInode ino) 0 ext2NdirBlocks).2) := by
    have hall : blocks 0 = ext2NdirBlocks := by
      change blocks 0 = 12
      omega
    rw [directRound, if_pos (by rw [hall]; decide), hall]
    rfl
  rw [if_neg hdirect, hround, zoneRound_start entry disk (by omega), bind_assoc]
  by_cases hind : n - ext2NdirBlocks ≤ indirectBlks
  · have hi : n - 12 ≤ 1024 := hind
    have hrest : blocks 1 = n - ext2NdirBlocks := by
      change blocks 1 = n - 12
      omega
    rw [if_pos hind, hrest]
    refine congrArg _ (funext fun r => ?_)
    rw [pure_bind, zoneRound_zero entry disk (by omega), ok_bind, zoneRound_zero entry disk hthird]
    rfl
  have hi : ¬ n - 12 ≤ 1024 := hind
  have hall : blocks 1 = indirectBlks := by
    change blocks 1 = 1024
    omega
  have hrest : blocks 2 = n - ext2NdirBlocks - indirectBlks := by
    change blocks 2 = n - 12 - 1024
    omega
  rw [if_neg hind, hall]
  refine congrArg _ (funext fun r => ?_)
  have hmoved : (blocks2Bytes indirectBlks).map (ext2NdirBlocks * ext2BlockSize + ·) =
      .ok (ext2NdirBlocks * ext2BlockSize + indirectBlks * ext2BlockSize) := by rfl
  have hdouble : n - ext2NdirBlocks - indirectBlks ≤ doubleIndBlks := by
    change n - 12 - 1024 ≤ 1048576
    omega
  rw [if_pos hdouble, pure_bind, hmoved, zoneRound_start entry disk (by omega), bind_assoc, hrest]
  refine congrArg _ (funext fun r' => ?_)
  rw [pure_bind, zoneRound_zero entry disk hthird]
  rfl

end Same

/-- The products of `int`s with which `read_ext2_file_blocks` moves `buf` behind the zones that it
has read, from the start of a file on, are in the range of `int`. -/
def MovesFit (n : ℕ) : Prop :=
  ∃ blocks, zoneBlocks 0 n = .ok blocks ∧ ∀ i < 4, blocks i * ext2BlockSize < 2 ^ 31

/-- Behind a larger file `buf` is moved past the range, and not used again. -/
theorem movesFit_iff {n : ℕ} (hn : n ≤ pos 2) : MovesFit n ↔ n ≤ 525323 := by
  obtain ⟨p0, p1, p2, p3⟩ := pos_eq
  obtain ⟨blocks, hsplit, hblocks⟩ := zoneBlocks_spec (show 0 < pos 3 by omega)
    (show 0 + n ≤ pos 3 by omega)
  simp only [inZone_zero] at hblocks
  have hsize : ext2BlockSize = 4096 := rfl
  unfold MovesFit
  constructor
  · rintro ⟨blocks', hsplit', hfit⟩
    obtain rfl := Except.ok.inj (hsplit.symm.trans hsplit')
    have h2 := hfit 2 (by decide)
    rw [hblocks 2 (by decide), zoneStart, p1, p2, hsize] at h2
    omega
  · intro hle
    refine ⟨blocks, hsplit, fun i hi => ?_⟩
    rw [hblocks i hi, hsize]
    have hcases : i = 0 ∨ i = 1 ∨ i = 2 ∨ i = 3 := by omega
    rcases hcases with rfl | rfl | rfl | rfl
    · rw [zoneStart, p0]
      omega
    · rw [zoneStart, p0, p1]
      omega
    · rw [zoneStart, p1, p2]
      omega
    · rw [zoneStart, p2, p3]
      omega

/-! ## Agreement -/

section Agreement

variable (entry : Block → ℕ → Except ReadFault ℕ) (disk : ℕ → Block)

/-- **The two readers agree** about inode `ino`: the buffer has as many blocks as the bytes of the
file fill, and the same reads, in the same order and to the same places, fill it. -/
structure WholeFileAgrees (readInode : ℕ → FileInode) (ino : ℕ) : Prop where
  allocated : (alignedBytes (readInode ino).iSize).toNat =
    ceilBlocks (readInode ino).iSize.toNat * ext2BlockSize
  reads : (readWholeExt2File entry disk (readInode ino)).map WholeFile.reads =
    (readExt2FileBlocks entry disk (fun i => (readInode i).toExt2Inode) ino 0
      (ceilBlocks (readInode ino).iSize.toNat)).map Prod.snd

theorem map_reads_readWholeExt2File (ip : FileInode) :
    (readWholeExt2File entry disk ip).map WholeFile.reads =
      wholeReads entry disk ip.toExt2Inode (bytesAlignToBlocks ip.iSize).toNat := by
  change WholeFile.reads <$> readWholeExt2File entry disk ip = _
  rw [readWholeExt2File]
  simp

/-- **The two file readers agree** just when the size, rounded up, fits in 32 bits.  Where an entry
of an indirect block cannot be read, they come to the same fault. -/
theorem whole_file_agrees_iff (readInode : ℕ → FileInode) (ino : ℕ) :
    WholeFileAgrees entry disk readInode ino ↔
      (readInode ino).iSize.toNat ≤ 2 ^ 32 - ext2BlockSize := by
  constructor
  · intro h
    by_contra hlarge
    have hblocks := h.allocated
    rw [alignedBytes_toNat, bytesAlignToBlocks_toNat, if_neg hlarge, Nat.zero_mul] at hblocks
    unfold ceilBlocks at hblocks
    change 0 = (_ + 4095) / 4096 * 4096 at hblocks
    change ¬ _ ≤ 2 ^ 32 - 4096 at hlarge
    omega
  · intro hsmall
    have hblocks := bytesAlignToBlocks_toNat (readInode ino).iSize
    rw [if_pos hsmall] at hblocks
    refine ⟨by rw [alignedBytes_toNat, hblocks], ?_⟩
    have hn : ceilBlocks (readInode ino).iSize.toNat ≤ pos 2 :=
      (ceilBlocks_le _).trans (by decide)
    rw [map_reads_readWholeExt2File, hblocks]
    exact (readExt2FileBlocks_whole entry disk (fun i => (readInode i).toExt2Inode) ino hn).symm

end Agreement

/-- **The largest size.**  The sum in the macro wraps: no byte is allocated and no block is read of
a file of `2 ^ 20` blocks. -/
theorem largest_size_reads_nothing :
    readWholeExt2File (viewEntry fun buf i => buf.le32 (4 * i)) (fun _ => 0)
        ⟨⟨fun i => i + 100⟩, 0x4000, 4294967295⟩ = .ok ⟨0, []⟩ ∧
      ceilBlocks 4294967295 = 2 ^ 20 ∧
      ¬ WholeFileAgrees (viewEntry fun buf i => buf.le32 (4 * i)) (fun _ => 0)
        (fun _ => ⟨⟨fun i => i + 100⟩, 0x4000, 4294967295⟩) 2 :=
  ⟨by rfl, by decide, fun h => absurd h.allocated (by decide)⟩

/-! ## The bytes of the buffer -/

/-- A block in the caller's buffer, `fdata` bytes from its start. -/
def putBlock (buf : ℕ → UInt8) (fdata : ℕ) (blk : Block) : ℕ → UInt8 :=
  fun k => if h : fdata ≤ k ∧ k < fdata + ext2BlockSize then blk ⟨k - fdata, by omega⟩ else buf k

/-- What a list of reads leaves in the caller's buffer. -/
def fillData (disk : ℕ → Block) (reads : List FileRead) (buf : ℕ → UInt8) : ℕ → UInt8 :=
  (reads.filterMap FileRead.data?).foldl (fun buf read => putBlock buf read.1 (disk read.2)) buf

/-- Readers that agree leave the same bytes. -/
theorem WholeFileAgrees.fillData {entry : Block → ℕ → Except ReadFault ℕ} {disk : ℕ → Block}
    {readInode : ℕ → FileInode} {ino : ℕ} (h : WholeFileAgrees entry disk readInode ino)
    (buf : ℕ → UInt8) :
    (readWholeExt2File entry disk (readInode ino)).map (fun w => fillData disk w.reads buf) =
      (readExt2FileBlocks entry disk (fun i => (readInode i).toExt2Inode) ino 0
        (ceilBlocks (readInode ino).iSize.toNat)).map fun r => Ext2File.fillData disk r.2 buf := by
  have hmap := congrArg (fun x : Except ReadFault (List FileRead) =>
    (fun reads => Ext2File.fillData disk reads buf) <$> x) h.reads
  change _ <$> WholeFile.reads <$> _ = _ <$> Prod.snd <$> _ at hmap
  rw [Functor.map_map, Functor.map_map] at hmap
  exact hmap

end Ext2File

end MemSmr
