import MemSmr.HddBuf
import MemSmr.Ext2Meta

/-!
# The module on the memory disk

`read_smr_blocks`, the write of one block and the initialisation, over the two control structs; and
a run of the block device, a sequence of calls of `write_smr_blocks` and `read_smr_blocks`.

* `smrLayer`: the operations of `BlockLayer` as `stl.c` and `hdd_buf.c` implement them.
* `freshModule`, `initSmrDisk`: the module as it is loaded, and `init_smr_disk`.
* `HostOp`, `runOps`: a run.  `HostOp.InRange` says that a call stays inside the device.
-/

namespace MemSmr

namespace SmrDev

/-- One round of `read_smr_blocks`: the buffer, `no_map` and the state. -/
def readRound (env : Env) (blkNo : ℕ) (st : (ℕ → Block) × ℕ × SmrDev) (i : ℕ) :
    (ℕ → Block) × ℕ × SmrDev :=
  let d := st.2.2
  if d.inHddBuf (blkNo + i) then
    let (blk, d) := d.readBlockFromHddBuf env (blkNo + i)
    (Function.update st.1 i blk, st.2.1, d)
  else if d.inSmrDisk (blkNo + i) then
    let (blk, d) := d.readHddBlock (d.smr.mappingTable (blkNo + i)).paddr
    (Function.update st.1 i blk, st.2.1, d)
  else (st.1, st.2.1 + 1, d)

/-- `read_smr_blocks`. -/
def readSmrBlocks (env : Env) (d : SmrDev) (buf : ℕ → Block) (blkNo num : ℕ) :
    (ℕ → Block) × SmrDev :=
  let st := (List.range num).foldl (readRound env blkNo) (buf, 0, d)
  let d := st.2.2
  (st.1, { d with smr := { d.smr with hddCnt := { d.smr.hddCnt with
    readCount := d.smr.hddCnt.readCount + UInt64.ofNat st.2.1 } } })

/-- What `mark_one_blk_bmp` does with a block that is free. -/
def trimBlock (d : SmrDev) (blkNo : ℕ) : SmrDev :=
  if d.inHddBuf blkNo then d.reclaimFreeHddBuf blkNo
  else if d.inSmrDisk blkNo then d.invalidateMappingEntry blkNo
  else d

/-- What `write_smr_blocks` does with one block, after the detection. -/
def storeBlock (env : Env) (d : SmrDev) (blkNo : ℕ) (blk : Block) : Except Fault SmrDev :=
  if d.inHddBuf blkNo then d.writeBlockIntoHddBuf env blkNo blk
  else if d.inSmrDisk blkNo then
    (d.invalidateMappingEntry blkNo).writeBlockIntoHddBuf env blkNo blk
  else d.appendSmrBlocks env (fun _ => blk) blkNo 1

end SmrDev

/-- The translation layer of `stl.c` and `hdd_buf.c`. -/
def smrLayer (env : Env) : BlockLayer SmrDev where
  hasMapping := SmrDev.hasMapping
  readSmrBlocks := SmrDev.readSmrBlocks env
  setupMetaFlag := SmrDev.setupMetaFlag
  trimBlock := SmrDev.trimBlock
  storeBlock := SmrDev.storeBlock env

/-! ## Initialisation -/

/-- A counter in static memory. -/
def zeroCounter : DsCounter := ⟨0, 0, 0⟩

/-- `smr_ctr` as the module is loaded: static memory.  The vector pointers of the three structs are
null; an empty vector stands for each of them until `init_smr_disk` creates it. -/
def zeroSmrCtr : SmrCtrData where
  mappingTable := fun _ => ⟨.other 0, 0, 0⟩
  smrReverseTable := fun _ => ⟨0, .other 0⟩
  phyBands := fun _ => ⟨0, 0, 0⟩
  curPaddr := 0
  smrCnt := zeroCounter
  hddCnt := zeroCounter
  fullyInvalidBands := .create
  vecLen := 0

/-- `buf_ctr` as the module is loaded. -/
def zeroBufCtr : HddBufCtrData where
  hddBuf := fun _ => 0
  reverseTable := fun _ => ⟨0, 0, 0⟩
  coldBufs := fun _ => 0
  hitCnt := 0
  rwCounter := zeroCounter
  freeHddBufs := .create
  vectLen := 0

/-- `meta_ctr` as the module is loaded. -/
def zeroMetaCtr : Ext2MetaCtr where
  status := .noSb0
  metaRwCnt := zeroCounter
  sb0 := ⟨0⟩
  len := fun _ => 0
  metaBlks := fun _ => .create

/-- The module as it is loaded.  The data of the memory disk come from `vmalloc`. -/
def freshModule (data : ℕ → Block) : Ext2Sys SmrDev where
  dev := ⟨zeroSmrCtr, zeroBufCtr, fun _ => 0, data, []⟩
  metaCtr := zeroMetaCtr
  sbsBuf := 0
  bgDescsBuf := 0
  blkBmp := 0

namespace SmrDev

/-- `init_global_mapping_table`.  The meta flags are left alone. -/
def initGlobalMappingTable (d : SmrDev) : SmrDev :=
  { d with smr := { d.smr with
      mappingTable := fun i =>
        if i < totalSmrBlocksCnt then
          { d.smr.mappingTable i with mappingFlag := .invalidMapping, paddr := 0 }
        else d.smr.mappingTable i } }

/-- `init_smr_reverse_table`. -/
def initSmrReverseTable (d : SmrDev) : SmrDev := (List.range totalSmrBandsCnt).foldl freeBand d

/-- `init_hdd_buf`. -/
def initHddBuf (d : SmrDev) : SmrDev :=
  let d := d.setFreeHddBufs ((List.range blocksOfHddBuf).foldl SortedVector.insert .create)
  { d with buf := { d.buf with rwCounter := { d.buf.rwCounter with enable := 1 } } }

/-- The part of `init_smr_disk` that sets up the translation layer. -/
def initTables (d : SmrDev) : SmrDev :=
  let d := (d.setFullyInvalidBands .create).initGlobalMappingTable.initSmrReverseTable.initHddBuf
  { d with smr := { d.smr with
      smrCnt := { d.smr.smrCnt with enable := 1 }
      hddCnt := { d.smr.hddCnt with enable := 1 } } }

end SmrDev

/-- `init_meta_ctr`. -/
def Ext2MetaCtr.initMetaCtr (m : Ext2MetaCtr) : Ext2MetaCtr :=
  { m with metaBlks := fun _ => .create, status := .noSb0 }

/-- `init_smr_disk`. -/
def initSmrDisk (s : Ext2Sys SmrDev) : Ext2Sys SmrDev :=
  { s with dev := s.dev.initTables, metaCtr := s.metaCtr.initMetaCtr }

/-! ## Runs -/

/-- A call of the block driver: `write_smr_blocks` with the blocks to write, or `read_smr_blocks`
with the first contents of the caller's buffer. -/
inductive HostOp where
  | write (blkNo : ℕ) (bufs : List Block)
  | read (blkNo : ℕ) (bufs : List Block)

/-- The call stays inside `[0, TOTAL_SMR_BLOCKS_CNT)`. -/
def HostOp.InRange : HostOp → Prop
  | .write blkNo bufs => blkNo + bufs.length ≤ totalSmrBlocksCnt
  | .read blkNo bufs => blkNo + bufs.length ≤ totalSmrBlocksCnt

section Run

variable {σ : Type} (L : BlockLayer σ) (aware : Bool)

/-- One call; the list is the buffer after a read. -/
def runOp (s : Ext2Sys σ) : HostOp → Except Fault (List Block × Ext2Sys σ)
  | .write blkNo bufs => do
    let s ← s.writeSmrBlocks L aware bufs blkNo
    return ([], s)
  | .read blkNo bufs => s.readSmrBlocks L bufs blkNo

/-- A sequence of calls, and the buffers they leave. -/
def runOps (s : Ext2Sys σ) : List HostOp → Except Fault (List (List Block) × Ext2Sys σ)
  | [] => .ok ([], s)
  | op :: ops => do
    let (out, s) ← runOp L aware s op
    let (outs, s) ← runOps s ops
    return (out :: outs, s)

end Run

/-- A run of the module from `init_smr_disk`. -/
def runModule (env : Env) (data : ℕ → Block) (ops : List HostOp) :
    Except Fault (List (List Block) × Ext2Sys SmrDev) :=
  runOps (smrLayer env) env.aware (initSmrDisk (freshModule data)) ops

end MemSmr
