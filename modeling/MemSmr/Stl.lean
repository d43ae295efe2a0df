import MemSmr.State

/-!
# `stl.c`: the mapping tables, the bands and the append

The lower half of the translation layer, together with `read_hdd_blocks` and `write_hdd_blocks` of
`mem_disk.c`: everything that `hdd_buf.c` needs.  `write_smr_blocks` and `read_smr_blocks`, which
need `hdd_buf.c`, are in `MemSmr.Device`.

The messages that `check_band_state` and `garbage_collecting` print are left out; nothing else
depends on them.
-/

namespace MemSmr

/-- `is_counter_enabled`, and the increment of a read count. -/
def DsCounter.addRead (c : DsCounter) (n : ℕ) : DsCounter :=
  if c.enable ≠ 0 then { c with readCount := c.readCount + UInt64.ofNat n } else c

/-- `is_counter_enabled`, and the increment of a write count. -/
def DsCounter.addWrite (c : DsCounter) (n : ℕ) : DsCounter :=
  if c.enable ≠ 0 then { c with writeCount := c.writeCount + UInt64.ofNat n } else c

namespace SmrDev

/-! ## The tables -/

/-- `in_smr_disk`. -/
def inSmrDisk (d : SmrDev) (blkNo : ℕ) : Bool :=
  (d.smr.mappingTable blkNo).mappingFlag = .inSmrDisk

/-- `in_hdd_buf`. -/
def inHddBuf (d : SmrDev) (blkNo : ℕ) : Bool :=
  (d.smr.mappingTable blkNo).mappingFlag = .inHddBuf

/-- `has_mapping`. -/
def hasMapping (d : SmrDev) (blkNo : ℕ) : Bool := d.inSmrDisk blkNo || d.inHddBuf blkNo

/-- `has_meta_data`. -/
def hasMetaData (d : SmrDev) (blkNo : ℕ) : Bool :=
  metaBgDescriptors ≤ (d.smr.mappingTable blkNo).metaFlag ∧
    (d.smr.mappingTable blkNo).metaFlag ≤ metaInodeTable

/-- `setup_global_mapping_entry`. -/
def setupGlobalMappingEntry (d : SmrDev) (blkNo paddr : ℕ) (flag : MappingFlag) : SmrDev :=
  { d with smr := { d.smr with
      mappingTable := Function.update d.smr.mappingTable blkNo
        { d.smr.mappingTable blkNo with paddr := paddr, mappingFlag := flag } } }

/-- `setup_meta_flag`, and the assignments of `mark_meta_blks`. -/
def setupMetaFlag (d : SmrDev) (blkNo metaFlag : ℕ) : SmrDev :=
  { d with smr := { d.smr with
      mappingTable := Function.update d.smr.mappingTable blkNo
        { d.smr.mappingTable blkNo with metaFlag := metaFlag } } }

/-- `setup_smr_reverse_mapping`. -/
def setupSmrReverseMapping (d : SmrDev) (paddr blkNo : ℕ) (phyStatus : PhyStatus) : SmrDev :=
  { d with smr := { d.smr with
      smrReverseTable := Function.update d.smr.smrReverseTable paddr ⟨blkNo, phyStatus⟩ } }

/-- The loops that free every slot from `paddr` on, `n` of them. -/
def freeSlots (d : SmrDev) (paddr n : ℕ) : SmrDev :=
  { d with smr := { d.smr with
      smrReverseTable := Slots.fillRange d.smr.smrReverseTable paddr n ⟨0, .freePhyBlock⟩ } }

/-- An assignment to `phy_bands[b]`. -/
def setPhyBand (d : SmrDev) (b : ℕ) (band : BandInfo) : SmrDev :=
  { d with smr := { d.smr with phyBands := Function.update d.smr.phyBands b band } }

/-- An assignment to `cur_paddr`. -/
def setCurPaddr (d : SmrDev) (paddr : ℕ) : SmrDev :=
  { d with smr := { d.smr with curPaddr := paddr } }

/-- An assignment to `fully_invalid_bands`. -/
def setFullyInvalidBands (d : SmrDev) (v : SortedVector) : SmrDev :=
  { d with smr := { d.smr with fullyInvalidBands := v } }

/-! ## The memory disk -/

/-- `read_hdd_blocks` for one block. -/
def readHddBlock (d : SmrDev) (paddr : ℕ) : Block × SmrDev :=
  (d.data paddr, { d with smr := { d.smr with hddCnt := d.smr.hddCnt.addRead 1 } })

/-- `write_hdd_blocks`. -/
def writeHddBlocks (d : SmrDev) (buf : ℕ → Block) (paddr n : ℕ) : SmrDev :=
  { d with
    smr := { d.smr with hddCnt := d.smr.hddCnt.addWrite n }
    data := fun p => if paddr ≤ p ∧ p < paddr + n then buf (p - paddr) else d.data p }

/-! ## Bands -/

/-- `free_band`. -/
def freeBand (d : SmrDev) (b : ℕ) : SmrDev :=
  (d.freeSlots (b * blocksPerBand) blocksPerBand).setPhyBand b ⟨0, blocksPerBand, 0⟩

/-- `get_fully_invalid_band`, called on a vector that is not empty. -/
def getFullyInvalidBand (d : SmrDev) : ℕ × SmrDev :=
  if 0 < d.smr.fullyInvalidBands.size then
    (d.smr.fullyInvalidBands.get 0,
      d.setFullyInvalidBands (d.smr.fullyInvalidBands.remove (d.smr.fullyInvalidBands.get 0)))
  else (0, d)

/-- One round of the first loop of `do_gc_in_band`: a valid block is read into `band_buf`, and both
tables are pointed at the slot that it will move to.  The pair is `cnt` and the state. -/
def gcRound (b : ℕ) (st : ℕ × SmrDev) (i : ℕ) : ℕ × SmrDev :=
  let cnt := st.1
  let d := st.2
  let paddr := b * blocksPerBand + i
  if (d.smr.smrReverseTable paddr).phyStatus = .validPhyBlock then
    let blkNo := (d.smr.smrReverseTable paddr).blkNo
    let (blk, d) := d.readHddBlock paddr
    let d := { d with bandBuf := Function.update d.bandBuf cnt blk }
    let d := d.setupGlobalMappingEntry blkNo (b * blocksPerBand + cnt) .inSmrDisk
    let d := d.setupSmrReverseMapping (b * blocksPerBand + cnt) blkNo .validPhyBlock
    (cnt + 1, d)
  else (cnt, d)

/-- The rest of `do_gc_in_band`: the band is reset, and the `n` blocks in `band_buf` are written
back. -/
def writeBackBand (d : SmrDev) (b : ℕ) (n : ℤ) : SmrDev :=
  let d := d.setPhyBand b ⟨0, blocksPerBand - n, n⟩
  let d := d.freeSlots (b * blocksPerBand + n.toNat) (blocksPerBand - n.toNat)
  d.writeHddBlocks d.bandBuf (b * blocksPerBand) n.toNat

/-- `do_gc_in_band`. -/
def doGcInBand (d : SmrDev) (b : ℕ) : ℕ × SmrDev :=
  (b * blocksPerBand + (d.smr.phyBands b).validCnt.toNat,
    ((List.range blocksPerBand).foldl (gcRound b) (0, d)).2.writeBackBand b
      (d.smr.phyBands b).validCnt)

/-- The scan of `garbage_collecting` for the band with most invalid blocks: `pos` and `max`. -/
def mostInvalidBand (d : SmrDev) : ℕ × ℤ :=
  (List.range totalSmrBandsCnt).foldl
    (fun st i => if st.2 < (d.smr.phyBands i).invalidCnt then (i, (d.smr.phyBands i).invalidCnt)
      else st) (0, 0)

/-- `garbage_collecting`. -/
def garbageCollecting (d : SmrDev) : SmrDev :=
  let d :=
    if 0 < d.smr.fullyInvalidBands.size then
      let (b, d) := d.getFullyInvalidBand
      (d.freeBand b).setCurPaddr (b * blocksPerBand)
    else
      let (paddr, d) := d.doGcInBand d.mostInvalidBand.1
      d.setCurPaddr paddr
  d.emit (.collected d.smr.curPaddr d.smr.smrReverseTable)

/-- The status that a read of `smr_reverse_table[index].phy_status` gives. -/
def phyStatusAt (env : Env) (d : SmrDev) (index : ℕ) : PhyStatus :=
  if index < totalSmrBlocksCnt then (d.smr.smrReverseTable index).phyStatus else env.pastEnd d.smr

/-- The check in `get_free_smr_block`, with the collection that it may ask for. -/
def checkFrontier (env : Env) (d : SmrDev) : SmrDev :=
  if d.smr.curPaddr % blocksPerBand = 0 then
    let d := d.emit (.frontierCheck d.smr.curPaddr)
    if d.phyStatusAt env d.smr.curPaddr ≠ .freePhyBlock then d.garbageCollecting else d
  else d

/-- `get_free_smr_block`. -/
def getFreeSmrBlock (env : Env) (d : SmrDev) : ℕ × SmrDev :=
  let d := d.checkFrontier env
  let d := d.emit (.handed d.smr.curPaddr d.smr.smrReverseTable)
  (d.smr.curPaddr, d.setCurPaddr (d.smr.curPaddr + 1))

/-! ## Append and invalidate -/

/-- The body of `append_smr_blocks` after a slot has been chosen. -/
def placeBlock (d : SmrDev) (blk : Block) (blkNo paddr : ℕ) : SmrDev :=
  let d := d.setupGlobalMappingEntry blkNo paddr .inSmrDisk
  let d := d.setupSmrReverseMapping paddr blkNo .validPhyBlock
  let band := d.smr.phyBands (paddr / blocksPerBand)
  let d := d.setPhyBand (paddr / blocksPerBand)
    { band with freeCnt := band.freeCnt - 1, validCnt := band.validCnt + 1 }
  d.writeHddBlocks (fun _ => blk) paddr 1

/-- `append_smr_blocks`.  A slot past the end of the device is where the run of the model ends: the
source goes on to write there. -/
def appendSmrBlocks (env : Env) (d : SmrDev) (buf : ℕ → Block) (blkNo num : ℕ) :
    Except Fault SmrDev :=
  (List.range num).foldlM (fun d i =>
    let (paddr, d) := d.getFreeSmrBlock env
    if paddr < totalSmrBlocksCnt then .ok (d.placeBlock (buf i) (i + blkNo) paddr)
    else .error (.pastDevice paddr)) d

/-- `invalidate_mapping_entry`. -/
def invalidateMappingEntry (d : SmrDev) (blkNo : ℕ) : SmrDev :=
  if d.inSmrDisk blkNo then
    let paddr := (d.smr.mappingTable blkNo).paddr
    let b := paddr / blocksPerBand
    let band := d.smr.phyBands b
    let d := d.setPhyBand b
      { band with invalidCnt := band.invalidCnt + 1, validCnt := band.validCnt - 1 }
    let d := d.setupSmrReverseMapping paddr 0 .invalidPhyBlock
    let d := d.setupGlobalMappingEntry blkNo 0 .invalidMapping
    if (d.smr.phyBands b).invalidCnt = blocksPerBand then
      d.setFullyInvalidBands (d.smr.fullyInvalidBands.insert b)
    else d
  else d

end SmrDev

end MemSmr
