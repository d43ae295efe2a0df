import MemSmr.Stl

/-!
# `hdd_buf.c`: the write buffer

The first write of a block is appended to the SMR area; every update goes to the HDD buffer.  When
no buffer is free, the `SWAP_OUT_CNT` buffers with the fewest accesses are appended to the SMR area.
-/

namespace MemSmr

namespace SmrDev

/-- An assignment to `reverse_table[buf_no]` of the buffer. -/
def setHddBufEntry (d : SmrDev) (bufNo : ℕ) (e : HddBufEntry) : SmrDev :=
  { d with buf := { d.buf with reverseTable := Function.update d.buf.reverseTable bufNo e } }

/-- An assignment to `free_hdd_bufs`. -/
def setFreeHddBufs (d : SmrDev) (v : SortedVector) : SmrDev :=
  { d with buf := { d.buf with freeHddBufs := v } }

/-- An assignment to `cold_bufs[i]`. -/
def setColdBuf (d : SmrDev) (i bufNo : ℕ) : SmrDev :=
  { d with buf := { d.buf with coldBufs := Function.update d.buf.coldBufs i (bufNo : ℤ) } }

/-- `cold_bufs[i]` as the number of a buffer.  The entry is set before the source uses it so. -/
def coldBuf (d : SmrDev) (i : ℕ) : ℕ := (d.buf.coldBufs i).toNat

/-- `is_hdd_buf_full`. -/
def isHddBufFull (d : SmrDev) : Bool := d.buf.freeHddBufs.size = 0

/-- `get_access_cnt`. -/
def getAccessCnt (d : SmrDev) (bufNo : ℕ) : Int32 :=
  (d.buf.reverseTable bufNo).writeCnt + (d.buf.reverseTable bufNo).readCnt

/-- `get_one_free_buf`, on `free_hdd_bufs`. -/
def getOneFreeBuf (d : SmrDev) : ℕ × SmrDev :=
  let d := d.emit (.freeBufAsked d.buf.freeHddBufs.size)
  if d.buf.freeHddBufs.size = 0 then (0, d)
  else
    (d.buf.freeHddBufs.get 0,
      d.setFreeHddBufs (d.buf.freeHddBufs.remove (d.buf.freeHddBufs.get 0)))

/-- `reset_phy_buf_counter`. -/
def resetPhyBufCounter (d : SmrDev) (bufNo : ℕ) : SmrDev :=
  d.setHddBufEntry bufNo { d.buf.reverseTable bufNo with writeCnt := 0, readCnt := 0 }

/-- The loop of `update_cold_buf`: the position of the largest access count, `none` while it is
still `-1`, and that count.  The loop itself gives `none` when it meets `buf_no`. -/
def scanColdBufs (d : SmrDev) (bufNo : ℕ) : Option (Option ℕ × Int32) :=
  (List.range swapOutCnt).foldlM (fun st i =>
    let curNo := d.buf.coldBufs i
    if curNo = (bufNo : ℤ) then none
    else if st.2 < d.getAccessCnt (d.coldBuf i) then some (some i, d.getAccessCnt (d.coldBuf i))
    else some st) (none, Int32.minValue)

/-- `update_cold_buf`. -/
def updateColdBuf (d : SmrDev) (bufNo : ℕ) : SmrDev :=
  match d.scanColdBufs bufNo with
  | none => d
  | some (maxPos, max) =>
    if (d.buf.reverseTable bufNo).writeCnt < max then
      match maxPos with
      | some i => d.setColdBuf i bufNo
      | none => d
    else d

/-- The first loop of `swap_out_coldest`. -/
def selectColdBufs (d : SmrDev) : SmrDev :=
  (List.range blocksOfHddBuf).foldl
    (fun d i => if i < swapOutCnt then d.setColdBuf i i else d.updateColdBuf i) d

/-- One round of the second loop of `swap_out_coldest`. -/
def swapOutBuf (env : Env) (d : SmrDev) (i : ℕ) : Except Fault SmrDev := do
  let bufNo := d.coldBuf i
  let d := d.resetPhyBufCounter bufNo
  let d ← d.appendSmrBlocks env (fun _ => d.buf.hddBuf bufNo) (d.buf.reverseTable bufNo).blkNo 1
  return d.setFreeHddBufs (d.buf.freeHddBufs.insert bufNo)

/-- `swap_out_coldest`. -/
def swapOutColdest (env : Env) (d : SmrDev) : Except Fault SmrDev :=
  (List.range swapOutCnt).foldlM (swapOutBuf env) d.selectColdBufs

/-- `reclaim_free_hdd_buf`. -/
def reclaimFreeHddBuf (d : SmrDev) (blk : ℕ) : SmrDev :=
  if d.inHddBuf blk then
    let bufNo := (d.smr.mappingTable blk).paddr
    let d := d.resetPhyBufCounter bufNo
    let d := d.setFreeHddBufs (d.buf.freeHddBufs.insert bufNo)
    d.setupGlobalMappingEntry blk 0 .invalidMapping
  else d

/-- `is_meta_favored() && has_meta_data(blk_no)`. -/
def countsTwice (env : Env) (d : SmrDev) (blkNo : ℕ) : Bool := env.favor && d.hasMetaData blkNo

/-- `read_block_from_hdd_buf`, called on a block that is in the buffer. -/
def readBlockFromHddBuf (env : Env) (d : SmrDev) (blkNo : ℕ) : Block × SmrDev :=
  let bufNo := (d.smr.mappingTable blkNo).paddr
  let e := d.buf.reverseTable bufNo
  let d' := d.setHddBufEntry bufNo
    { e with readCnt := e.readCnt + 1 + (if d.countsTwice env blkNo then 1 else 0) }
  (d.buf.hddBuf bufNo, { d' with buf := { d'.buf with
    rwCounter := { d'.buf.rwCounter with readCount := d'.buf.rwCounter.readCount + 1 }
    hitCnt := d'.buf.hitCnt + 1 } })

/-- The choice of a buffer in `write_block_into_hdd_buf`. -/
def chooseHddBuf (env : Env) (d : SmrDev) (blkNo : ℕ) : Except Fault (ℕ × SmrDev) :=
  if d.inHddBuf blkNo then
    .ok ((d.smr.mappingTable blkNo).paddr,
      { d with buf := { d.buf with hitCnt := d.buf.hitCnt + 1 } })
  else do
    let d ← if d.isHddBufFull then d.swapOutColdest env else .ok d
    return d.getOneFreeBuf

/-- The rest of `write_block_into_hdd_buf`. -/
def fillHddBuf (env : Env) (d : SmrDev) (blkNo : ℕ) (blk : Block) (bufNo : ℕ) : SmrDev :=
  let d := { d with buf := { d.buf with hddBuf := Function.update d.buf.hddBuf bufNo blk } }
  let d := d.setupGlobalMappingEntry blkNo bufNo .inHddBuf
  let e := d.buf.reverseTable bufNo
  let d := d.setHddBufEntry bufNo
    ⟨blkNo, e.readCnt, e.writeCnt + 1 + (if d.countsTwice env blkNo then 1 else 0)⟩
  { d with buf := { d.buf with
    rwCounter := { d.buf.rwCounter with writeCount := d.buf.rwCounter.writeCount + 1 } } }

/-- `write_block_into_hdd_buf`. -/
def writeBlockIntoHddBuf (env : Env) (d : SmrDev) (blkNo : ℕ) (blk : Block) :
    Except Fault SmrDev := do
  let (bufNo, d) ← d.chooseHddBuf env blkNo
  return d.fillHddBuf env blkNo blk bufNo

end SmrDev

end MemSmr
