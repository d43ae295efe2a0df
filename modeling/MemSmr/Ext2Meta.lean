import MemSmr.State

/-!
# `ext2_meta.c`: the detector of the file system

The detector reads and trims blocks through five operations of the translation layer, gathered in
`BlockLayer`.  `MemSmr.Device` gives the operations of `stl.c` and `hdd_buf.c`, and
`MemSmr.ArrayDisk` those of a plain array of blocks; the functions here are the same over both.

A use of `mapping_table` at an index past its end is a `Fault`, which `checkIndex` raises at each
place where the source indexes the table by a block number that it has read from the disk.
-/

namespace MemSmr

/-- The operations of the translation layer that the detector and the block driver call. -/
structure BlockLayer (σ : Type) where
  /-- `has_mapping`. -/
  hasMapping : σ → ℕ → Bool
  /-- `read_smr_blocks`: the buffer, the first block and the number of blocks. -/
  readSmrBlocks : σ → (ℕ → Block) → ℕ → ℕ → (ℕ → Block) × σ
  /-- `setup_meta_flag`. -/
  setupMetaFlag : σ → ℕ → ℕ → σ
  /-- What `mark_one_blk_bmp` does with a block that is free. -/
  trimBlock : σ → ℕ → σ
  /-- What `write_smr_blocks` does with one block, after the detection. -/
  storeBlock : σ → ℕ → Block → Except Fault σ

/-- The module: the translation layer, the control struct of the detector and the static buffers
of `detect_SBs_if_SB0`, `detect_BG_DESCs_if_SBs` and `mark_all_free_blks`. -/
structure Ext2Sys (σ : Type) where
  dev : σ
  metaCtr : Ext2MetaCtr
  sbsBuf : Block
  bgDescsBuf : Block
  blkBmp : Block

/-- An access to `mapping_table[blkNo]`. -/
def checkIndex (blkNo : ℕ) : Except Fault Unit :=
  if blkNo < totalSmrBlocksCnt then .ok () else .error (.tableIndex blkNo)

/-! ## Super blocks -/

/-- `EXT2_MAGIC_NUMBER`. -/
abbrev ext2MagicNumber : ℕ := 0xEF53

/-- `blk_size`, the table in `is_legal_super_block`. -/
def blkSize : ℕ → ℕ
  | 0 => 1024
  | 1 => 2048
  | _ => 4096

namespace Ext2SuperBlock

/-- `is_legal_super_block`. -/
def isLegal (sbp : Ext2SuperBlock) : Bool :=
  if sbp.sMagic ≠ ext2MagicNumber then false
  else if sbp.sBlocksCount < sbp.sFirstDataBlock then false
  else if 2 < sbp.sLogBlockSize then false
  else if sbp.sLogBlockSize < 2 then false
  else if sbp.sBlocksPerGroup ≠ blkSize sbp.sLogBlockSize * 8 then false
  else if smrDiskSize / blkSize sbp.sLogBlockSize < sbp.sBlocksCount then false
  else true

/-- `is_compatible_fs`. -/
def isCompatible (oldSb newSb : Ext2SuperBlock) : Bool :=
  oldSb.sBlocksPerGroup = newSb.sBlocksPerGroup ∧ oldSb.sInodesPerGroup = newSb.sInodesPerGroup ∧
    oldSb.sBlocksCount = newSb.sBlocksCount ∧ oldSb.sInodesCount = newSb.sInodesCount ∧
    oldSb.sLogBlockSize = newSb.sLogBlockSize

/-- `gd_cnt`, the number of groups.  The subtractions are on `__u32`. -/
def gdCnt (sb : Ext2SuperBlock) : ℕ :=
  (sb.sBlocksCount + 2 ^ 32 - sb.sFirstDataBlock + 2 ^ 32 - 1) % 2 ^ 32 / sb.sBlocksPerGroup + 1

/-- The number of descriptor blocks after each super block. -/
def gdBlks (sb : Ext2SuperBlock) : ℕ :=
  (sb.gdCnt * sizeofGroupDesc + (ext2BlockSize - 1)) / ext2BlockSize

/-- The first block of a group, computed on `__u32`. -/
def groupStart (sb : Ext2SuperBlock) (g : ℕ) : ℕ :=
  (sb.sFirstDataBlock + g * sb.sBlocksPerGroup) % 2 ^ 32

/-- The `blks` of `do_group_descriptor`: the subtraction is on `unsigned long`, the result an
`int`. -/
def inodeTableBlks (sb : Ext2SuperBlock) : ℕ :=
  ((sb.sInodesPerGroup * sizeofInode + 2 ^ 64 - 1) % 2 ^ 64 / ext2BlockSize + 1) % 2 ^ 32

end Ext2SuperBlock

namespace Ext2MetaCtr

/-- An assignment to `status`. -/
def setStatus (m : Ext2MetaCtr) (status : MetaStatus) : Ext2MetaCtr := { m with status := status }

/-- An assignment to `meta_blks[idx]`. -/
def setVect (m : Ext2MetaCtr) (idx : MetaVectIndex) (v : SortedVector) : Ext2MetaCtr :=
  { m with metaBlks := Function.update m.metaBlks idx v }

/-- `insert_into_sorted_vector(meta_ctr.meta_blks[idx], blkNo)`. -/
def insertBlk (m : Ext2MetaCtr) (idx : MetaVectIndex) (blkNo : ℕ) : Ext2MetaCtr :=
  m.setVect idx ((m.metaBlks idx).insert blkNo)

/-- `remove_all_elements(meta_ctr.meta_blks[idx])`. -/
def clearBlks (m : Ext2MetaCtr) (idx : MetaVectIndex) : Ext2MetaCtr :=
  m.setVect idx (m.metaBlks idx).clear

/-- `remove_all_elements` of `TMP_IDX` and `copy_all_elements` into it. -/
def refillTmp (m : Ext2MetaCtr) (idx : MetaVectIndex) : Ext2MetaCtr :=
  m.setVect .tmpIdx ((m.metaBlks .tmpIdx).clear.copyFrom (m.metaBlks idx))

/-! ## The positions of super blocks and descriptors -/

/-- The variables of the loop over the groups 3, 5, 7, 9, 25, 49, …; `tmp` holds the next group of
each of the three sequences. -/
structure SbScan where
  tmp : Fin 3 → ℕ
  overflow : Bool
  ctr : Ext2MetaCtr

/-- `bg_no`. -/
def bgNo : Fin 3 → ℕ
  | 0 => 3
  | 1 => 5
  | 2 => 7

/-- Record the super block of group `g` in `TMP_IDX` and `SB_IDX`. -/
def insertSuperBlk (m : Ext2MetaCtr) (sbp : Ext2SuperBlock) (g : ℕ) : Ext2MetaCtr :=
  (m.insertBlk .tmpIdx (sbp.groupStart g)).insertBlk .sbIdx (sbp.groupStart g)

/-- One round of the `for` loop, which ends as soon as `overflow` is set. -/
def sbScanRound (sbp : Ext2SuperBlock) (st : SbScan) (i : Fin 3) : SbScan :=
  if st.overflow then st
  else if sbp.gdCnt ≤ st.tmp i then { st with overflow := true }
  else
    { st with
      ctr := st.ctr.insertSuperBlk sbp (st.tmp i)
      tmp := Function.update st.tmp i (st.tmp i * bgNo i) }

/-- The `while(!overflow)` loop.  Each round multiplies the groups, so `gd_cnt` rounds are more
than enough. -/
def sbScanLoop (sbp : Ext2SuperBlock) : ℕ → SbScan → Except Fault SbScan
  | 0, _ => .error .noReturn
  | fuel + 1, st =>
    if st.overflow then .ok st
    else sbScanLoop sbp fuel ([0, 1, 2].foldl (sbScanRound sbp) st)

/-- The part of `detect_SB0_if_NO_SB0` that records the positions of the super blocks. -/
def recordSuperBlks (m : Ext2MetaCtr) (sbp : Ext2SuperBlock) : Except Fault Ext2MetaCtr := do
  let m := MetaVectIndex.all.foldl clearBlks m
  let m := m.insertBlk .sbIdx sb0BlockNo
  if 1 < sbp.gdCnt then
    let m := m.insertSuperBlk sbp 1
    let st ← sbScanLoop sbp (sbp.gdCnt + 1) ⟨bgNo, false, m⟩
    return st.ctr
  else return m

/-- The inner loop of `detect_SBs_if_SB0`: the `n` blocks after super block `sb` hold
descriptors. -/
def recordBgDescs (n : ℕ) (m : Ext2MetaCtr) (sb : ℕ) : Ext2MetaCtr :=
  (List.range n).foldl (fun m i =>
    let m := m.insertBlk .bgDescIdx (sb + 1 + i)
    if sb = sb0BlockNo then m.insertBlk .tmpIdx (sb + 1 + i) else m) m

/-- The search in `get_number_of_BG_DESCs` for the super block before `blkNo`.  The source would go
on below block 0, with `block_t` wrapping around; the model stops there. -/
def precedingSb (v : SortedVector) (blkNo : ℕ) : ℕ → ℕ → Except Fault ℕ
  | 0, _ => .error .noReturn
  | fuel + 1, offset =>
    if v.isExisting (blkNo - offset) then .ok offset else precedingSb v blkNo fuel (offset + 1)

/-- `get_number_of_BG_DESCs`. -/
def getNumberOfBgDescs (m : Ext2MetaCtr) (blkNo : ℕ) : Except Fault ℕ :=
  let descsPerBlock := ext2BlockSize / sizeofGroupDesc
  if m.sb0.gdBlks ≤ 1 then .ok m.sb0.gdCnt
  else do
    let offset ← precedingSb (m.metaBlks .sbIdx) blkNo blkNo 1
    return if offset = m.sb0.gdBlks then m.sb0.gdCnt % descsPerBlock else descsPerBlock

/-- `do_group_descriptor`. -/
def doGroupDescriptor (m : Ext2MetaCtr) (gdp : Ext2GroupDesc) : Ext2MetaCtr :=
  let m := m.insertBlk .blkBmpIdx gdp.bgBlockBitmap
  let m := m.insertBlk .inoBmpIdx gdp.bgInodeBitmap
  (List.range m.sb0.inodeTableBlks).foldl
    (fun m i => m.insertBlk .inoTableIdx ((gdp.bgInodeTable + i) % 2 ^ 32)) m

end Ext2MetaCtr

/-! ## The functions that reach the disk -/

/-- `idx_2_flag`. -/
def idx2Flag : List (MetaVectIndex × ℕ) :=
  [(.sbIdx, metaSuperBlock), (.bgDescIdx, metaBgDescriptors), (.inoTableIdx, metaInodeTable),
    (.inoBmpIdx, metaInodeBitmap), (.blkBmpIdx, metaBlockBitmap)]

/-- The parameter of `mark_meta_blks`. -/
inductive MarkAction where
  | cleanMetaFlag
  | setMetaFlag
  deriving DecidableEq

namespace Ext2Sys

variable {σ : Type} (L : BlockLayer σ)

/-- `all_elements_mapped`, over the elements that are left. -/
def allElementsMapped (s : Ext2Sys σ) : List ℕ → Except Fault Bool
  | [] => .ok true
  | blkNo :: rest => do
    checkIndex blkNo
    if L.hasMapping s.dev blkNo then allElementsMapped s rest else return false

/-- `read_smr_blocks(buf, blk_no, 1)`. -/
def readOne (dev : σ) (buf : Block) (blkNo : ℕ) : Except Fault (Block × σ) := do
  checkIndex blkNo
  let (bufs, dev) := L.readSmrBlocks dev (fun _ => buf) blkNo 1
  return (bufs 0, dev)

/-- `mark_meta_blks`. -/
def markMetaBlks (s : Ext2Sys σ) (action : MarkAction) : Except Fault (Ext2Sys σ) :=
  idx2Flag.foldlM (fun s entry =>
    (s.metaCtr.metaBlks entry.1).toList.foldlM (fun s blkNo => do
      checkIndex blkNo
      return { s with dev := L.setupMetaFlag s.dev blkNo
                        (if action = .cleanMetaFlag then 0 else entry.2) }) s) s

/-- `EXT2_BLOCK_SIZE / sizeof(unsigned int)`, the words of a bitmap. -/
@[irreducible] def wordsPerBlock : ℕ := ext2BlockSize / 4

/-- One bit of `mark_one_blk_bmp`.  The state is `blk_no`, `count` and the layer. -/
def markBit (word : ℕ) (st : ℕ × ℕ × σ) (j : ℕ) : Except Fault (ℕ × ℕ × σ) :=
  if word.testBit j then .ok (st.1 + 1, st.2)
  else do
    checkIndex st.1
    return (st.1 + 1, st.2.1 + 1, L.trimBlock st.2.2 st.1)

/-- One word of `mark_one_blk_bmp`. -/
def markWord (bmp : Block) (st : ℕ × ℕ × σ) (i : ℕ) : Except Fault (ℕ × ℕ × σ) :=
  if bmp.le32 (4 * i) = 2 ^ 32 - 1 then .ok (st.1 + 32, st.2)
  else (List.range 32).foldlM (markBit L (bmp.le32 (4 * i))) st

/-- `mark_one_blk_bmp`: the count of free blocks, and the layer. -/
def markOneBlkBmp (status : MetaStatus) (dev : σ) (bmp : Block) (start : ℕ) :
    Except Fault (ℕ × σ) :=
  if status = .ext2Detected then do
    let st ← (List.range wordsPerBlock).foldlM (markWord L bmp) (start, 0, dev)
    return st.2
  else .ok (0, dev)

/-- One round of `mark_all_free_blks`. -/
def markGroup (st : ℕ × Ext2Sys σ) (pos : ℕ) : Except Fault (ℕ × Ext2Sys σ) := do
  let s := st.2
  let start := (pos * s.metaCtr.sb0.sBlocksPerGroup + s.metaCtr.sb0.sFirstDataBlock) % 2 ^ 32
  let (bmp, dev) ← readOne L s.dev s.blkBmp ((s.metaCtr.metaBlks .blkBmpIdx).get pos)
  let (count, dev) ← markOneBlkBmp L s.metaCtr.status dev bmp start
  return (st.1 + count, { s with dev := dev, blkBmp := bmp })

/-- `mark_all_free_blks`: the total count, and the module. -/
def markAllFreeBlks (s : Ext2Sys σ) : Except Fault (ℕ × Ext2Sys σ) :=
  (List.range (s.metaCtr.metaBlks .blkBmpIdx).size).foldlM (markGroup L) (0, s)

/-! ## The stages -/

/-- `detect_INO_TABLE_if_INO_BMP`. -/
def detectInoTableIfInoBmp (s : Ext2Sys σ) : Except Fault (Ext2Sys σ) := do
  if ← s.allElementsMapped L (s.metaCtr.metaBlks .tmpIdx).toList then
    let m := (s.metaCtr.clearBlks .tmpIdx).setStatus .ext2Detected
    let s ← markMetaBlks L { s with metaCtr := m } .setMetaFlag
    let (_, s) ← markAllFreeBlks L s
    return s
  else return s

/-- `detect_INO_BMP_if_BLK_BMP`. -/
def detectInoBmpIfBlkBmp (s : Ext2Sys σ) : Except Fault (Ext2Sys σ) := do
  if ← s.allElementsMapped L (s.metaCtr.metaBlks .tmpIdx).toList then
    let m := (s.metaCtr.setStatus .inoBitmapDetected).refillTmp .inoTableIdx
    detectInoTableIfInoBmp L { s with metaCtr := m }
  else return s

/-- `detect_BLK_BMP_if_BG_DESCs`. -/
def detectBlkBmpIfBgDescs (s : Ext2Sys σ) : Except Fault (Ext2Sys σ) := do
  if ← s.allElementsMapped L (s.metaCtr.metaBlks .tmpIdx).toList then
    let m := (s.metaCtr.setStatus .blkBitmapDetected).refillTmp .inoBmpIdx
    detectInoBmpIfBlkBmp L { s with metaCtr := m }
  else return s

/-- The loop of `detect_BG_DESCs_if_SBs` over one descriptor block. -/
def readBgDescBlk (s : Ext2Sys σ) (blk : ℕ) : Except Fault (Ext2Sys σ) := do
  let (buf, dev) ← readOne L s.dev s.bgDescsBuf blk
  let n ← s.metaCtr.getNumberOfBgDescs blk
  let m := (List.range n).foldl
    (fun m k => m.doGroupDescriptor (Ext2GroupDesc.ofBlock buf k)) s.metaCtr
  return { s with dev := dev, metaCtr := m, bgDescsBuf := buf }

/-- `detect_BG_DESCs_if_SBs`. -/
def detectBgDescsIfSBs (s : Ext2Sys σ) : Except Fault (Ext2Sys σ) := do
  if ← s.allElementsMapped L (s.metaCtr.metaBlks .tmpIdx).toList then
    let s ← (s.metaCtr.metaBlks .tmpIdx).toList.foldlM (readBgDescBlk L) s
    let m := (s.metaCtr.setStatus .bgDescsDetected).refillTmp .blkBmpIdx
    detectBlkBmpIfBgDescs L { s with metaCtr := m }
  else return s

/-- The loop of `detect_SBs_if_SB0` over the other super blocks: whether all of them are legal. -/
def checkSuperBlks (s : Ext2Sys σ) : List ℕ → Except Fault (Bool × Ext2Sys σ)
  | [] => .ok (true, s)
  | blkNo :: rest => do
    let (buf, dev) ← readOne L s.dev s.sbsBuf blkNo
    let s := { s with dev := dev, sbsBuf := buf }
    if (Ext2SuperBlock.ofBlock buf 0).isLegal then checkSuperBlks s rest else return (false, s)

/-- `detect_SBs_if_SB0`. -/
def detectSBsIfSB0 (s : Ext2Sys σ) : Except Fault (Ext2Sys σ) := do
  if ← s.allElementsMapped L (s.metaCtr.metaBlks .tmpIdx).toList then
    let (legal, s) ← checkSuperBlks L s (s.metaCtr.metaBlks .tmpIdx).toList
    if legal then
      let m := (s.metaCtr.clearBlks .tmpIdx).setStatus .sbsDetected
      let m := (m.metaBlks .sbIdx).toList.foldl (Ext2MetaCtr.recordBgDescs m.sb0.gdBlks) m
      detectBgDescsIfSBs L { s with metaCtr := m }
    else return { s with metaCtr := s.metaCtr.setStatus .noSb0 }
  else return s

/-- `detect_SB0_if_NO_SB0`. -/
def detectSB0IfNoSB0 (s : Ext2Sys σ) (buf : Block) (blkNo : ℕ) : Except Fault (Ext2Sys σ) :=
  let sbp := Ext2SuperBlock.ofBlock buf firstSuperBlockOffset
  if blkNo = sb0BlockNo ∧ sbp.isLegal then do
    let m := { s.metaCtr.setStatus .sb0Detected with sb0 := sbp }
    let m ← m.recordSuperBlks sbp
    detectSBsIfSB0 L { s with metaCtr := m }
  else .ok s

/-- The branch of `detect_ext2_fs` for a write of block 0 in status `EXT2_DETECTED`. -/
def recheckSB0 (s : Ext2Sys σ) (buf : Block) : Except Fault (Ext2Sys σ) :=
  let sbp := Ext2SuperBlock.ofBlock buf firstSuperBlockOffset
  if sbp.isLegal ∧ s.metaCtr.sb0.isCompatible sbp then
    .ok { s with metaCtr := { s.metaCtr with sb0 := sbp } }
  else markMetaBlks L { s with metaCtr := s.metaCtr.setStatus .noSb0 } .cleanMetaFlag

/-- `detect_ext2_fs`. -/
def detectExt2Fs (s : Ext2Sys σ) (buf : Block) (blkNo : ℕ) : Except Fault (Ext2Sys σ) :=
  match s.metaCtr.status with
  | .ext2Detected => if blkNo = sb0BlockNo then recheckSB0 L s buf else .ok s
  | .noSb0 => detectSB0IfNoSB0 L s buf blkNo
  | .sb0Detected => detectSBsIfSB0 L s
  | .sbsDetected => detectBgDescsIfSBs L s
  | .bgDescsDetected => detectBlkBmpIfBgDescs L s
  | .blkBitmapDetected => detectInoBmpIfBlkBmp L s
  | .inoBitmapDetected => detectInoTableIfInoBmp L s
  | .inodeTableDetected => .error .noDetector
  | .undefined _ => .error .noDetector

/-! ## The block driver -/

/-- One round of `write_smr_blocks`. -/
def writeOne (aware : Bool) (s : Ext2Sys σ) (buf : Block) (blkNo : ℕ) :
    Except Fault (Ext2Sys σ) := do
  let s ← if aware then detectExt2Fs L s buf blkNo else .ok s
  checkIndex blkNo
  let dev ← L.storeBlock s.dev blkNo buf
  return { s with dev := dev }

/-- `write_smr_blocks`; the buffer is a list of blocks, as many as the call writes. -/
def writeSmrBlocks (aware : Bool) (s : Ext2Sys σ) (bufs : List Block) (blkNo : ℕ) :
    Except Fault (Ext2Sys σ) :=
  match bufs with
  | [] => .ok s
  | buf :: rest => do
    let s ← writeOne L aware s buf blkNo
    writeSmrBlocks aware s rest (blkNo + 1)

/-- `read_smr_blocks`; the list is the buffer, first as the caller hands it over and in the result
as the call leaves it. -/
def readSmrBlocks (s : Ext2Sys σ) (bufs : List Block) (blkNo : ℕ) :
    Except Fault (List Block × Ext2Sys σ) :=
  if blkNo + bufs.length ≤ totalSmrBlocksCnt then
    let (out, dev) := L.readSmrBlocks s.dev (fun i => bufs.getD i 0) blkNo bufs.length
    .ok ((List.range bufs.length).map out, { s with dev := dev })
  else .error (.tableIndex (blkNo + bufs.length - 1))

end Ext2Sys

end MemSmr
