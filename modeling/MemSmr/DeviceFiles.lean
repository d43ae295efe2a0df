import MemSmr.InodeLookup
import MemSmr.VisitDir

/-!
# Reading files from the device

The functions of `read_ext2.c` as the module runs them: `READ_BLOCKS` is `read_smr_blocks`, an inode
comes from `read_ext2_inode`, and both may change the translation layer.

## 1.  The functions

They are the functions of `ReadExt2`, `WholeFile` and `VisitDir` with the state of the module in their
hands, and with the buffers that they fill.

## 2.  Files

`Sees` is what every read keeps.  `Fills` says that a function leaves in the buffer what a list of reads
of the disk leaves there.

## 3.  Inodes and directories

`InUse` is what the visit of an inode needs.  `readExt2FileBlocks_spec`, `visit_prints`: over the device the
reader of a range and the visit do what they do over the disk.
-/

namespace MemSmr

open Outcome Relation

namespace Ext2File

/-! ## 1.  The functions -/

/-- The module with the static buffers of the lookup, and how many buffers `ALLOC_MEM` has given. -/
structure FileReader (σ : Type) where
  lookup : InodeReader σ
  allocs : ℕ

/-- What the model does not go on after. -/
inductive FileFault where
  | lookup (e : LookupFault)
  | visit (e : VisitFault)
  deriving DecidableEq

/-- A buffer, and the module. -/
abbrev Filling (σ : Type) : Type := (ℕ → UInt8) × FileReader σ

namespace FileReader

variable {σ : Type} (L : BlockLayer σ) (entry : Block → ℕ → Except ReadFault ℕ)
  (heap : ℕ → ℕ → UInt8)

/-- `ALLOC_MEM`; the buffer holds `heap r.allocs`. -/
def alloc (r : FileReader σ) : FileReader σ := { r with allocs := r.allocs + 1 }

/-- The translation layer after a read. -/
def setDev (r : FileReader σ) (dev : σ) : FileReader σ :=
  { r with lookup := { r.lookup with sys := { r.lookup.sys with dev := dev } } }

/-- `READ_BLOCKS` into a buffer of one block. -/
def readBlock (r : FileReader σ) (buf : Block) (blkNo : ℕ) :
    Except FileFault (Block × FileReader σ) := do
  let (blk, dev) ←
    (Ext2Sys.readOne L r.lookup.sys.dev buf blkNo).mapError fun e => .lookup (.layer e)
  return (blk, r.setDev dev)

/-- `READ_BLOCKS` into the caller's buffer, `fdata` bytes from its start. -/
def readData (st : Filling σ) (fdata blkNo : ℕ) : Except FileFault (Filling σ) := do
  let (blk, r) ← st.2.readBlock L (fun i => st.1 (fdata + i)) blkNo
  return (putBlock st.1 fdata blk, r)

/-- `*ptr`. -/
def fetch (buf : Block) (index : ℕ) : Except FileFault ℕ :=
  (entry buf index).mapError fun e => .visit (.read e)

/-- `read_direct_blocks`. -/
def readDirectBlocks (st : Filling σ) (fdata : ℕ) (ip : Ext2Inode) (lo n : ℕ) :
    Except FileFault (Filling σ) :=
  (List.range n).foldlM (fun st i => readData L st (fdata + i * ext2BlockSize) (ip.iBlock (lo + i))) st

/-- One round of `read_indirect1_blocks`. -/
def readEntry (buf : Block) (fdata lo : ℕ) (st : Filling σ) (i : ℕ) :
    Except FileFault (Filling σ) := do
  let no ← fetch entry buf (lo + i)
  readData L st (fdata + i * ext2BlockSize) no

/-- `read_indirect1_blocks`. -/
def readIndirect1Blocks (st : Filling σ) (fdata blkNo lo n : ℕ) : Except FileFault (Filling σ) := do
  let (buf, r) ← st.2.alloc.readBlock L (fun i => heap st.2.allocs i) blkNo
  (List.range n).foldlM (readEntry L entry buf fdata lo) (st.1, r)

section Pieces

variable (callee : Filling σ → ℕ → ℕ → ℕ → ℕ → Except FileFault (Filling σ)) {size : ℕ}

/-- The loop over the entries from `index` on. -/
def readPieces (hsize : 0 < size) (buf : Block) (st : Filling σ) (fdata index n : ℕ) :
    Except FileFault (Filling σ) :=
  if n = 0 then .ok st
  else if n ≤ size then do
    let no ← fetch entry buf index
    callee st fdata no 0 n
  else do
    let no ← fetch entry buf index
    let st ← callee st fdata no 0 size
    readPieces hsize buf st (fdata + size * ext2BlockSize) (index + 1) (n - size)
termination_by n
decreasing_by omega

/-- `read_indirect2_blocks` and `read_indirect3_blocks`. -/
def readIndirectBlocks (hsize : 0 < size) (st : Filling σ) (fdata blkNo lo n : ℕ) :
    Except FileFault (Filling σ) := do
  let (buf, r) ← st.2.alloc.readBlock L (fun i => heap st.2.allocs i) blkNo
  let index := lo / size
  let offset := lo % size
  let count := size - offset
  if n ≤ count then do
    let no ← fetch entry buf index
    callee (st.1, r) fdata no offset n
  else do
    let no ← fetch entry buf index
    let st ← callee (st.1, r) fdata no offset count
    let bytes ← (blocks2Bytes count).mapError fun e => .visit (.read e)
    readPieces entry callee hsize buf st (fdata + bytes) (index + 1) (n - count)

end Pieces

/-- `read_indirect2_blocks`. -/
def readIndirect2Blocks : Filling σ → ℕ → ℕ → ℕ → ℕ → Except FileFault (Filling σ) :=
  readIndirectBlocks L entry heap (readIndirect1Blocks L entry heap) indirectBlks_pos

/-- `read_indirect3_blocks`. -/
def readIndirect3Blocks : Filling σ → ℕ → ℕ → ℕ → ℕ → Except FileFault (Filling σ) :=
  readIndirectBlocks L entry heap (readIndirect2Blocks L entry heap) doubleIndBlks_pos

/-- `read_whole_ext2_file`: the buffer that is returned. -/
def readWholeExt2File (r : FileReader σ) (ip : FileInode) : Except FileFault (Filling σ) :=
  let st : Filling σ := (heap r.allocs, r.alloc)
  let blocks := (bytesAlignToBlocks ip.iSize).toNat
  if blocks ≤ ext2NdirBlocks then readDirectBlocks L st 0 ip.toExt2Inode 0 blocks
  else do
    let st ← readDirectBlocks L st 0 ip.toExt2Inode 0 ext2NdirBlocks
    let curBuf := ext2NdirBlocks * ext2BlockSize
    let blocks := blocks - ext2NdirBlocks
    if blocks ≤ indirectBlks then
      readIndirect1Blocks L entry heap st curBuf (ip.iBlock ext2IndBlock) 0 blocks
    else do
      let st ← readIndirect1Blocks L entry heap st curBuf (ip.iBlock ext2IndBlock) 0 indirectBlks
      let curBuf := curBuf + indirectBlks * ext2BlockSize
      let blocks := blocks - indirectBlks
      if blocks ≤ doubleIndBlks then
        readIndirect2Blocks L entry heap st curBuf (ip.iBlock (ext2IndBlock + 1)) 0 blocks
      else do
        let st ←
          readIndirect2Blocks L entry heap st curBuf (ip.iBlock (ext2IndBlock + 1)) 0 doubleIndBlks
        let curBuf := curBuf + doubleIndBlks * ext2BlockSize
        let blocks := blocks - doubleIndBlks
        -- "too large blocks"
        if tripleIndBlks < blocks then return st
        else readIndirect3Blocks L entry heap st curBuf (ip.iBlock (ext2IndBlock + 2)) 0 blocks

/-- `read_func`. -/
def readFunc : ℕ → Filling σ → ℕ → ℕ → ℕ → ℕ → Except FileFault (Filling σ)
  | 1 => readIndirect1Blocks L entry heap
  | 2 => readIndirect2Blocks L entry heap
  | _ => readIndirect3Blocks L entry heap

/-- The direct blocks of a range, and where `buf` is moved. -/
def directRound (st : Filling σ) (ip : Ext2Inode) (lo : ℕ) (blocks : ℕ → ℕ) :
    Except FileFault (Except ReadFault ℕ × Filling σ) :=
  if blocks 0 ≠ 0 then do
    let st ← readDirectBlocks L st 0 ip lo (blocks 0)
    return (blocks2Bytes (blocks 0), st)
  else return (.ok 0, st)

/-- One round of the loop that reads the zones. -/
def zoneRound (ip : Ext2Inode) (savedFrom : ℕ) (blocks : ℕ → ℕ)
    (st : Except ReadFault ℕ × Filling σ) (i : ℕ) :
    Except FileFault (Except ReadFault ℕ × Filling σ) :=
  if blocks i ≠ 0 then do
    let lo := if blocks (i - 1) ≠ 0 then 0 else savedFrom - pos (i - 1)
    let fdata ← st.1.mapError fun e => .visit (.read e)
    let st ← readFunc L entry heap i st.2 fdata (ip.iBlock (ext2IndBlock + i - 1)) lo (blocks i)
    return ((blocks2Bytes (blocks i)).map (fdata + ·), st)
  else return st

/-- `read_ext2_inode` into memory that `ALLOC_MEM` has just given. -/
def readInode (r : FileReader σ) (ino : UInt32) : Except FileFault (FileInode × FileReader σ) := do
  let (ip, lookup) ← (r.lookup.readExt2Inode L ino).mapError .lookup
  return (ip.getD (.ofBlock (fun i => heap r.allocs i) 0), { r.alloc with lookup := lookup })

/-- `read_ext2_file_blocks`. -/
def readExt2FileBlocks (r : FileReader σ) (ino : UInt32) (buf : ℕ → UInt8) (lo n : ℕ) :
    Except FileFault (ℕ × Filling σ) := do
  let (ip, r) ← r.readInode L heap ino
  let blocks ← (zoneBlocks lo n).mapError fun e => .visit (.read e)
  let st ← directRound L (buf, r) ip.toExt2Inode lo blocks
  let st ← [1, 2, 3].foldlM (zoneRound L entry heap ip.toExt2Inode lo blocks) st
  return (n, st.2)

/-! The visit has a fuel as before.  What it gives is what is printed, and the module. -/

/-- The recursive call for an entry, if there is one. -/
def visitEntry (visit : UInt32 → FileReader σ → Except FileFault (List DirLine × FileReader σ))
    (dep : DirEntry) (r : FileReader σ) : Except FileFault (List DirLine × FileReader σ) :=
  if dep.IsDots then .ok ([], r)
  else if dep.inode ≠ 0 then visit dep.inode r
  else .ok ([], r)

/-- The loop of `visit_ext2_dir`. -/
def dirLoop {n : ℕ}
    (visit : UInt32 → FileReader σ → Except FileFault (List DirLine × FileReader σ)) (b : Bytes n)
    (iSize depth : ℕ) :
    ℕ → ℕ → ℕ → FileReader σ → Except FileFault (List DirLine × FileReader σ)
  | 0, _, _, _ => .error (.visit .noReturn)
  | fuel + 1, off, size, r =>
    if size < iSize then
      if EntryInside b off then do
        let dep := DirEntry.ofBytes b off
        let line : DirLine := ⟨indentLen depth, dep.name, dep.inode⟩
        let (sub, r) ← visitEntry visit dep r
        let size := (size + dep.recLen) % 2 ^ 32
        let (rest, r) ← dirLoop visit b iSize depth fuel (off + dep.recLen) size r
        return (line :: (sub ++ rest), r)
      else .error (.visit (.pastBuffer off))
    else .ok ([], r)

/-- `visit_ext2_dir`.  The first buffer is `name`, of which only what has been copied is read. -/
def visitExt2Dir :
    ℕ → UInt32 → ℕ → FileReader σ → Except FileFault (List DirLine × FileReader σ)
  | 0, _, _, _ => .error (.visit .noReturn)
  | fuel + 1, ino, depth, r => do
    let (ip, r) ← r.alloc.readInode L heap ino
    if ip.IsDir then do
      let (buf, r) ← r.readWholeExt2File L entry heap ip
      let fdata : Bytes (alignedBytes ip.iSize).toNat := fun i => buf i
      dirLoop (fun sub => visitExt2Dir fuel sub (depth + 1)) fdata ip.iSize.toNat depth fuel 0 0 r
    else return ([], r)

/-- `traverse_ext2_fs`. -/
def traverseExt2Fs (fuel : ℕ) (r : FileReader σ) : Except FileFault (List DirLine × FileReader σ) :=
  visitExt2Dir L entry heap fuel ext2RootIno 1 r

end FileReader

/-! ## 2.  Files -/

/-- The block that a call of `READ_BLOCKS` reads. -/
def FileRead.blkNo : FileRead → ℕ
  | .indirect blkNo => blkNo
  | .data _ blkNo => blkNo

theorem fillData_append (disk : ℕ → Block) (l l' : List FileRead) (buf : ℕ → UInt8) :
    fillData disk (l ++ l') buf = fillData disk l' (fillData disk l buf) := by
  rw [fillData, List.filterMap_append, List.foldl_append]
  rfl

/-- The module shows the array, and the detector is where it was. -/
structure Sees (a : ArrayDisk) (m : Ext2MetaCtr) (r : FileReader SmrDev) : Prop where
  dev : Shows r.lookup.sys.dev a
  metaCtr : r.lookup.sys.metaCtr = m

theorem Sees.alloc {a : ArrayDisk} {m : Ext2MetaCtr} {r : FileReader SmrDev} (h : Sees a m r) :
    Sees a m r.alloc := ⟨h.dev, h.metaCtr⟩

/-- The module with a buffer. -/
theorem Sees.filling {a : ArrayDisk} {m : Ext2MetaCtr} {r : FileReader SmrDev} (h : Sees a m r)
    (buf : ℕ → UInt8) : Sees a m (buf, r).2 := h

/-- The blocks of `U` have contents in the array, and these are the blocks of the disk. -/
def OnDisk (a : ArrayDisk) (disk : ℕ → Block) (U : ℕ → Prop) : Prop :=
  ∀ blkNo, U blkNo → blkNo < totalSmrBlocksCnt ∧ a blkNo = some (disk blkNo)

/-- The function leaves `buf`. -/
def Fills (a : ArrayDisk) (m : Ext2MetaCtr) (x : Except FileFault (Filling SmrDev))
    (buf : ℕ → UInt8) : Prop :=
  ∃ r, x = .ok (buf, r) ∧ Sees a m r

section Files

variable {a : ArrayDisk} {m : Ext2MetaCtr} {disk : ℕ → Block} {U : ℕ → Prop}

theorem Fills.bind {x : Except FileFault (Filling SmrDev)} {buf buf' : ℕ → UInt8}
    {f : Filling SmrDev → Except FileFault (Filling SmrDev)} (h : Fills a m x buf)
    (hf : ∀ r, Sees a m r → Fills a m (f (buf, r)) buf') : Fills a m (x >>= f) buf' := by
  obtain ⟨r, rfl, hr⟩ := h
  exact hf r hr

variable (env : Env) (hU : OnDisk a disk U)

include hU

/-- **One block** is read as it is on the disk, whatever the buffer held before. -/
theorem readBlock_spec {r : FileReader SmrDev} (hr : Sees a m r) (buf : Block) {blkNo : ℕ}
    (hblk : U blkNo) :
    ∃ r', r.readBlock (smrLayer env) buf blkNo = .ok (disk blkNo, r') ∧ Sees a m r' := by
  obtain ⟨hlt, hdisk⟩ := hU blkNo hblk
  obtain ⟨d', hread, hd'⟩ := readOne_shows env hr.dev buf hlt
  rw [hdisk, Option.getD_some] at hread
  refine ⟨r.setDev d', ?_, hd', hr.metaCtr⟩
  rw [FileReader.readBlock, hread]
  rfl

theorem readData_fills {st : Filling SmrDev} (hst : Sees a m st.2) (fdata : ℕ) {blkNo : ℕ}
    (hblk : U blkNo) : Fills a m (FileReader.readData (smrLayer env) st fdata blkNo)
      (fillData disk [.data fdata blkNo] st.1) := by
  obtain ⟨r, hread, hr⟩ := readBlock_spec env hU hst (fun i => st.1 (fdata + i)) hblk
  refine ⟨r, ?_, hr⟩
  rw [FileReader.readData, hread]
  rfl

theorem readDirectBlocks_fills {st : Filling SmrDev} (hst : Sees a m st.2) (fdata : ℕ)
    (ip : Ext2Inode) (lo n : ℕ) (hblks : ∀ read ∈ (readDirectBlocks fdata ip lo n).2, U read.blkNo) :
    Fills a m (FileReader.readDirectBlocks (smrLayer env) st fdata ip lo n)
      (fillData disk (readDirectBlocks fdata ip lo n).2 st.1) := by
  rw [FileReader.readDirectBlocks, readDirectBlocks]
  rw [readDirectBlocks] at hblks
  induction n with
  | zero => exact ⟨st.2, rfl, hst⟩
  | succ n ih =>
    simp only [List.range_succ, List.map_append, List.map_cons, List.map_nil] at hblks ⊢
    rw [List.foldlM_append, fillData_append]
    refine (ih fun read hread => hblks read (List.mem_append_left _ hread)).bind fun r hr => ?_
    rw [List.foldlM_cons]
    refine (readData_fills env hU (hr.filling _) _
      (hblks _ (List.mem_append_right _ List.mem_cons_self))).bind fun r hr => ?_
    exact ⟨r, rfl, hr⟩

variable (entry : Block → ℕ → Except ReadFault ℕ) (heap : ℕ → ℕ → UInt8)

/-- The entries from `lo` on, one after the other. -/
theorem readEntries_fills {buf : Block} {fdata lo : ℕ} {l : List ℕ} {reads : List FileRead}
    (hreads : (l.mapM fun i => do
      let no ← entry buf (lo + i)
      return FileRead.data (fdata + i * ext2BlockSize) no) = .ok reads)
    (hblks : ∀ read ∈ reads, U read.blkNo) {st : Filling SmrDev} (hst : Sees a m st.2) :
    Fills a m (l.foldlM (FileReader.readEntry (smrLayer env) entry buf fdata lo) st)
      (fillData disk reads st.1) := by
  induction l generalizing st reads with
  | nil =>
    obtain rfl := Except.ok.inj hreads
    exact ⟨st.2, rfl, hst⟩
  | cons i l ih =>
    rw [List.mapM_cons] at hreads
    obtain ⟨read, hread, hreads⟩ := bind_eq_ok.mp hreads
    obtain ⟨rest, hrest, hreads⟩ := bind_eq_ok.mp hreads
    obtain rfl := Except.ok.inj hreads
    obtain ⟨no, hno, hread⟩ := bind_eq_ok.mp hread
    obtain rfl := Except.ok.inj hread
    rw [List.foldlM_cons, FileReader.readEntry, FileReader.fetch, hno,
      show FileRead.data (fdata + i * ext2BlockSize) no :: rest = [.data (fdata + i * ext2BlockSize) no]
        ++ rest from rfl, fillData_append]
    refine (readData_fills env hU hst _ (hblks _ List.mem_cons_self)).bind fun r hr => ?_
    exact ih hrest (fun read hread => hblks read (List.mem_cons_of_mem _ hread)) hr

theorem readIndirect1Blocks_fills {fdata blkNo lo n : ℕ} {r : ℕ × List FileRead}
    (hr : readIndirect1Blocks entry disk fdata blkNo lo n = .ok r) (hblks : ∀ read ∈ r.2, U read.blkNo)
    {st : Filling SmrDev} (hst : Sees a m st.2) :
    Fills a m (FileReader.readIndirect1Blocks (smrLayer env) entry heap st fdata blkNo lo n)
      (fillData disk r.2 st.1) := by
  rw [readIndirect1Blocks] at hr
  obtain ⟨reads, hreads, hr⟩ := bind_eq_ok.mp hr
  obtain rfl := Except.ok.inj hr
  have hblk : U blkNo := hblks (.indirect blkNo) List.mem_cons_self
  obtain ⟨r', hread, hr'⟩ := readBlock_spec env hU hst.alloc (fun i => heap st.2.allocs i) hblk
  rw [FileReader.readIndirect1Blocks, hread, ok_bind]
  exact readEntries_fills env hU entry hreads
    (fun read hread => hblks read (List.mem_cons_of_mem _ hread)) (hr'.filling st.1)

/-- Over the device the function fills the buffer with what it reads of the disk. -/
def CalleeFills (a : ArrayDisk) (m : Ext2MetaCtr) (disk : ℕ → Block) (U : ℕ → Prop)
    (callee : ℕ → ℕ → ℕ → ℕ → ReadResult)
    (callee' : Filling SmrDev → ℕ → ℕ → ℕ → ℕ → Except FileFault (Filling SmrDev)) : Prop :=
  ∀ ⦃fdata blkNo lo n r⦄, callee fdata blkNo lo n = .ok r → (∀ read ∈ r.2, U read.blkNo) →
    ∀ ⦃st : Filling SmrDev⦄, Sees a m st.2 →
      Fills a m (callee' st fdata blkNo lo n) (fillData disk r.2 st.1)

omit hU in
theorem readPieces_fills {callee : ℕ → ℕ → ℕ → ℕ → ReadResult}
    {callee' : Filling SmrDev → ℕ → ℕ → ℕ → ℕ → Except FileFault (Filling SmrDev)} {size : ℕ}
    (hcallee : CalleeFills a m disk U callee callee') (hsize : 0 < size) {buf : Block}
    {fdata index n : ℕ} {reads : List FileRead}
    (hreads : readPieces entry callee hsize buf fdata index n = .ok reads)
    (hblks : ∀ read ∈ reads, U read.blkNo) {st : Filling SmrDev} (hst : Sees a m st.2) :
    Fills a m (FileReader.readPieces entry callee' hsize buf st fdata index n)
      (fillData disk reads st.1) := by
  induction n using Nat.strong_induction_on generalizing fdata index reads st with
  | h n ih =>
    rw [readPieces] at hreads
    rw [FileReader.readPieces]
    split_ifs at hreads ⊢ with hzero hlast
    · obtain rfl := Except.ok.inj hreads
      exact ⟨st.2, rfl, hst⟩
    · obtain ⟨no, hno, hreads⟩ := bind_eq_ok.mp hreads
      obtain ⟨r, hr, hreads⟩ := bind_eq_ok.mp hreads
      obtain rfl := Except.ok.inj hreads
      rw [FileReader.fetch, hno]
      exact hcallee hr hblks hst
    · obtain ⟨no, hno, hreads⟩ := bind_eq_ok.mp hreads
      obtain ⟨r, hr, hreads⟩ := bind_eq_ok.mp hreads
      obtain ⟨rest, hrest, hreads⟩ := bind_eq_ok.mp hreads
      obtain rfl := Except.ok.inj hreads
      rw [FileReader.fetch, hno, fillData_append]
      refine (hcallee hr (fun read hread => hblks read (List.mem_append_left _ hread)) hst).bind
        fun r' hr' => ?_
      exact ih (n - size) (by omega) hrest
        (fun read hread => hblks read (List.mem_append_right _ hread)) hr'

/-- **One level more of indirect blocks.** -/
theorem calleeFills_indirect {callee : ℕ → ℕ → ℕ → ℕ → ReadResult}
    {callee' : Filling SmrDev → ℕ → ℕ → ℕ → ℕ → Except FileFault (Filling SmrDev)} {size : ℕ}
    (hcallee : CalleeFills a m disk U callee callee') (hsize : 0 < size) :
    CalleeFills a m disk U (readIndirectBlocks entry disk callee hsize)
      (FileReader.readIndirectBlocks (smrLayer env) entry heap callee' hsize) := by
  intro fdata blkNo lo n r hr hblks st hst
  rw [readIndirectBlocks] at hr
  have hfirst : FileRead.indirect blkNo ∈ r.2 := by
    split_ifs at hr with hone
    · obtain ⟨_, -, hr⟩ := bind_eq_ok.mp hr
      obtain ⟨_, -, hr⟩ := bind_eq_ok.mp hr
      obtain rfl := Except.ok.inj hr
      exact List.mem_cons_self
    · obtain ⟨_, -, hr⟩ := bind_eq_ok.mp hr
      obtain ⟨_, -, hr⟩ := bind_eq_ok.mp hr
      obtain ⟨_, -, hr⟩ := bind_eq_ok.mp hr
      obtain ⟨_, -, hr⟩ := bind_eq_ok.mp hr
      obtain rfl := Except.ok.inj hr
      exact List.mem_cons_self
  have hblk : U blkNo := hblks _ hfirst
  obtain ⟨r', hread, hr'⟩ := readBlock_spec env hU hst.alloc (fun i => heap st.2.allocs i) hblk
  rw [FileReader.readIndirectBlocks, hread, ok_bind]
  dsimp only
  split_ifs at hr ⊢ with hone
  · obtain ⟨no, hno, hr⟩ := bind_eq_ok.mp hr
    obtain ⟨piece, hpiece, hr⟩ := bind_eq_ok.mp hr
    obtain rfl := Except.ok.inj hr
    rw [FileReader.fetch, hno]
    exact hcallee hpiece (fun read hread => hblks read (List.mem_cons_of_mem _ hread))
      (hr'.filling st.1)
  · obtain ⟨no, hno, hr⟩ := bind_eq_ok.mp hr
    obtain ⟨piece, hpiece, hr⟩ := bind_eq_ok.mp hr
    obtain ⟨bytes, hbytes, hr⟩ := bind_eq_ok.mp hr
    obtain ⟨rest, hrest, hr⟩ := bind_eq_ok.mp hr
    obtain rfl := Except.ok.inj hr
    have hin : ∀ read ∈ piece.2 ++ rest, U read.blkNo := fun read hread =>
      hblks read (List.mem_cons_of_mem _ hread)
    rw [FileReader.fetch, hno, hbytes]
    change Fills a m _ (fillData disk (piece.2 ++ rest) st.1)
    rw [fillData_append]
    refine (hcallee hpiece (fun read hread => hin read (List.mem_append_left _ hread))
      (hr'.filling st.1)).bind fun r'' hr'' => ?_
    exact readPieces_fills entry hcallee hsize hrest
      (fun read hread => hin read (List.mem_append_right _ hread)) hr''

theorem calleeFills_one : CalleeFills a m disk U (readIndirect1Blocks entry disk)
    (FileReader.readIndirect1Blocks (smrLayer env) entry heap) :=
  fun _ _ _ _ _ hr hblks _ hst => readIndirect1Blocks_fills env hU entry heap hr hblks hst

theorem calleeFills_two : CalleeFills a m disk U (readIndirect2Blocks entry disk)
    (FileReader.readIndirect2Blocks (smrLayer env) entry heap) :=
  calleeFills_indirect env hU entry heap (calleeFills_one env hU entry heap) indirectBlks_pos

theorem calleeFills_three : CalleeFills a m disk U (readIndirect3Blocks entry disk)
    (FileReader.readIndirect3Blocks (smrLayer env) entry heap) :=
  calleeFills_indirect env hU entry heap (calleeFills_two env hU entry heap) doubleIndBlks_pos

/-- **A whole file.**  Over the device the buffer holds what it holds over the disk. -/
theorem readWholeExt2File_fills {r : FileReader SmrDev} (hr : Sees a m r) {ip : FileInode}
    {w : WholeFile} (hw : readWholeExt2File entry disk ip = .ok w)
    (hblks : ∀ read ∈ w.reads, U read.blkNo) :
    Fills a m (r.readWholeExt2File (smrLayer env) entry heap ip)
      (fillData disk w.reads (heap r.allocs)) := by
  rw [readWholeExt2File] at hw
  obtain ⟨reads, hreads, hw⟩ := bind_eq_ok.mp hw
  obtain rfl := Except.ok.inj hw
  replace hblks : ∀ read ∈ reads, U read.blkNo := hblks
  change Fills a m _ (fillData disk reads (heap r.allocs))
  have hdirect := fun n => readDirectBlocks_fills env hU (hr.alloc.filling (heap r.allocs)) 0
    ip.toExt2Inode 0 n
  have hone := @calleeFills_one a m disk U env hU entry heap
  have htwo := @calleeFills_two a m disk U env hU entry heap
  have hthree := @calleeFills_three a m disk U env hU entry heap
  rw [wholeReads] at hreads
  rw [FileReader.readWholeExt2File]
  dsimp only at hreads ⊢
  -- the cases are those of the zone in which the file ends
  split_ifs at hreads ⊢ with h0 h1 h2 h3
  · obtain rfl := Except.ok.inj hreads
    exact hdirect _ hblks
  · obtain ⟨r₁, hr₁, hreads⟩ := bind_eq_ok.mp hreads
    obtain rfl := Except.ok.inj hreads
    rw [List.forall_mem_append] at hblks
    rw [fillData_append]
    exact (hdirect _ hblks.1).bind fun r hr => hone hr₁ hblks.2 hr
  · obtain ⟨r₁, hr₁, hreads⟩ := bind_eq_ok.mp hreads
    obtain ⟨r₂, hr₂, hreads⟩ := bind_eq_ok.mp hreads
    obtain rfl := Except.ok.inj hreads
    rw [List.forall_mem_append, List.forall_mem_append] at hblks
    rw [fillData_append, fillData_append]
    exact (hdirect _ hblks.1.1).bind fun r hr => (hone hr₁ hblks.1.2 hr).bind fun r hr =>
      htwo hr₂ hblks.2 hr
  · obtain ⟨r₁, hr₁, hreads⟩ := bind_eq_ok.mp hreads
    obtain ⟨r₂, hr₂, hreads⟩ := bind_eq_ok.mp hreads
    obtain rfl := Except.ok.inj hreads
    rw [List.forall_mem_append, List.forall_mem_append] at hblks
    rw [fillData_append, fillData_append]
    exact (hdirect _ hblks.1.1).bind fun r hr => (hone hr₁ hblks.1.2 hr).bind fun r hr =>
      (htwo hr₂ hblks.2 hr).bind fun r hr => ⟨r, rfl, hr⟩
  · obtain ⟨r₁, hr₁, hreads⟩ := bind_eq_ok.mp hreads
    obtain ⟨r₂, hr₂, hreads⟩ := bind_eq_ok.mp hreads
    obtain ⟨r₃, hr₃, hreads⟩ := bind_eq_ok.mp hreads
    obtain rfl := Except.ok.inj hreads
    rw [List.forall_mem_append, List.forall_mem_append, List.forall_mem_append] at hblks
    rw [fillData_append, fillData_append, fillData_append]
    exact (hdirect _ hblks.1.1.1).bind fun r hr => (hone hr₁ hblks.1.1.2 hr).bind fun r hr =>
      (htwo hr₂ hblks.1.2 hr).bind fun r hr => hthree hr₃ hblks.2 hr

theorem readFunc_fills (i : ℕ) : CalleeFills a m disk U (readFunc entry disk i)
    (FileReader.readFunc (smrLayer env) entry heap i) := by
  match i with
  | 1 => exact calleeFills_one env hU entry heap
  | 2 => exact calleeFills_two env hU entry heap
  | 0 | i + 3 => exact calleeFills_three env hU entry heap

/-- Over the device the state of the loop is what it is over the disk, and the buffer is filled. -/
def ZonesFill (a : ArrayDisk) (m : Ext2MetaCtr) (disk : ℕ → Block)
    (x : Except FileFault (Except ReadFault ℕ × Filling SmrDev)) (buf : ℕ → UInt8)
    (st : Except ReadFault ℕ × List FileRead) : Prop :=
  ∃ r, x = .ok (st.1, fillData disk st.2 buf, r) ∧ Sees a m r

omit hU in
/-- The rounds only add to the reads. -/
theorem mem_of_zoneRounds {ip : Ext2Inode} {lo : ℕ} {blocks : ℕ → ℕ} {l : List ℕ}
    {st st' : Except ReadFault ℕ × List FileRead}
    (h : l.foldlM (zoneRound entry disk ip lo blocks) st = .ok st') {read : FileRead}
    (hread : read ∈ st.2) : read ∈ st'.2 := by
  induction l generalizing st with
  | nil =>
    obtain rfl := Except.ok.inj h
    exact hread
  | cons i l ih =>
    rw [List.foldlM_cons] at h
    obtain ⟨st₁, hround, h⟩ := bind_eq_ok.mp h
    refine ih h ?_
    by_cases hzone : blocks i ≠ 0
    · rw [zoneRound, if_pos hzone] at hround
      obtain ⟨fdata, -, hround⟩ := bind_eq_ok.mp hround
      obtain ⟨r, -, hround⟩ := bind_eq_ok.mp hround
      obtain rfl := Except.ok.inj hround
      exact List.mem_append_left _ hread
    · rw [zoneRound, if_neg hzone] at hround
      obtain rfl := Except.ok.inj hround
      exact hread

theorem zoneRounds_fill {ip : Ext2Inode} {lo : ℕ} {blocks : ℕ → ℕ} {l : List ℕ}
    {st st' : Except ReadFault ℕ × List FileRead} (buf : ℕ → UInt8)
    (h : l.foldlM (zoneRound entry disk ip lo blocks) st = .ok st')
    (hblks : ∀ read ∈ st'.2, U read.blkNo) {r : FileReader SmrDev} (hr : Sees a m r) :
    ZonesFill a m disk (l.foldlM (FileReader.zoneRound (smrLayer env) entry heap ip lo blocks)
      (st.1, fillData disk st.2 buf, r)) buf st' := by
  induction l generalizing st r with
  | nil =>
    obtain rfl := Except.ok.inj h
    exact ⟨r, rfl, hr⟩
  | cons i l ih =>
    rw [List.foldlM_cons] at h ⊢
    obtain ⟨st₁, hround, h⟩ := bind_eq_ok.mp h
    have hblks₁ : ∀ read ∈ st₁.2, U read.blkNo := fun read hread =>
      hblks read (mem_of_zoneRounds entry h hread)
    by_cases hzone : blocks i ≠ 0
    · rw [zoneRound, if_pos hzone] at hround
      obtain ⟨fdata, hfdata, hround⟩ := bind_eq_ok.mp hround
      obtain ⟨reads, hreads, hround⟩ := bind_eq_ok.mp hround
      obtain rfl := Except.ok.inj hround
      obtain ⟨r₁, hfill, hr₁⟩ := readFunc_fills env hU entry heap i hreads
        (fun read hread => hblks₁ read (List.mem_append_right _ hread))
        (hr.filling (fillData disk st.2 buf))
      rw [← fillData_append] at hfill
      rw [FileReader.zoneRound, if_pos hzone]
      dsimp only
      rw [hfdata]
      change ZonesFill a m disk ((FileReader.readFunc (smrLayer env) entry heap i
        (fillData disk st.2 buf, r) fdata _ _ _ >>= _) >>= _) buf st'
      rw [hfill]
      exact ih h hr₁
    · rw [zoneRound, if_neg hzone] at hround
      obtain rfl := Except.ok.inj hround
      rw [FileReader.zoneRound, if_neg hzone]
      exact ih h hr

end Files

/-! The blocks of a file lie in the buffer one after the other. -/

/-- The data blocks lie one after the other, `n` of them from `fdata` on. -/
def LieAt (reads : List FileRead) (fdata n : ℕ) : Prop :=
  ∃ no, reads.filterMap FileRead.data? = dataList fdata no n

theorem LieAt.append {l l' : List FileRead} {fdata m n : ℕ} (h : LieAt l fdata m)
    (h' : LieAt l' (fdata + m * ext2BlockSize) n) : LieAt (l ++ l') fdata (m + n) := by
  obtain ⟨no, h⟩ := h
  obtain ⟨no', h'⟩ := h'
  refine ⟨fun k => if k < m then no k else no' (k - m), ?_⟩
  rw [List.filterMap_append, h, h', dataList_add]
  refine congrArg₂ _ (dataList_congr fun k hk => (if_pos hk).symm) (dataList_congr fun k _ => ?_)
  rw [if_neg (Nat.not_lt.mpr (Nat.le_add_right m k)), Nat.add_sub_cancel_left]

theorem LieAt.cons_indirect {l : List FileRead} {fdata n blkNo : ℕ} (h : LieAt l fdata n) :
    LieAt (.indirect blkNo :: l) fdata n := h

/-- **No byte is left as it was** among those of the blocks. -/
theorem LieAt.fillData_eq {reads : List FileRead} {n : ℕ} (h : LieAt reads 0 n) (disk : ℕ → Block)
    (buf buf' : ℕ → UInt8) {k : ℕ} (hk : k < n * ext2BlockSize) :
    fillData disk reads buf k = fillData disk reads buf' k := by
  obtain ⟨no, h⟩ := h
  rw [fillData, fillData, h]
  have hcover : ∃ p ∈ dataList 0 no n, p.1 ≤ k ∧ k < p.1 + ext2BlockSize := by
    have hdiv : k / ext2BlockSize < n := Nat.div_lt_of_lt_mul (by rwa [Nat.mul_comm])
    refine ⟨_, List.mem_map_of_mem (List.mem_range.mpr hdiv), ?_⟩
    change 0 + k / 4096 * 4096 ≤ k ∧ k < 0 + k / 4096 * 4096 + 4096
    omega
  generalize dataList 0 no n = l at hcover
  suffices hall : ∀ buf buf' : ℕ → UInt8,
      (buf k = buf' k ∨ ∃ p ∈ l, p.1 ≤ k ∧ k < p.1 + ext2BlockSize) →
        l.foldl (fun buf read => putBlock buf read.1 (disk read.2)) buf k =
          l.foldl (fun buf read => putBlock buf read.1 (disk read.2)) buf' k from
    hall buf buf' (Or.inr hcover)
  clear hcover h
  induction l with
  | nil =>
    rintro buf buf' (heq | ⟨p, hp, -⟩)
    · exact heq
    · exact absurd hp List.not_mem_nil
  | cons p l ih =>
    intro buf buf' hor
    rw [List.foldl_cons, List.foldl_cons]
    refine ih _ _ ?_
    by_cases hp : p.1 ≤ k ∧ k < p.1 + ext2BlockSize
    · left
      rw [putBlock, putBlock, dif_pos hp, dif_pos hp]
    · rw [putBlock, putBlock, dif_neg hp, dif_neg hp]
      refine hor.imp_right ?_
      rintro ⟨q, hq, hcover⟩
      rcases List.mem_cons.mp hq with rfl | hq
      · exact absurd hcover hp
      · exact ⟨q, hq, hcover⟩

/-- The data blocks that a list of entries names. -/
theorem data_of_entries {f : ℕ → Except ReadFault ℕ} {off : ℕ → ℕ} {l : List ℕ}
    {reads : List FileRead}
    (h : (l.mapM fun i => do
      let no ← f i
      return FileRead.data (off i) no) = .ok reads) :
    reads.filterMap FileRead.data? = l.map fun i => (off i, (f i).toOption.getD 0) := by
  induction l generalizing reads with
  | nil =>
    obtain rfl := Except.ok.inj h
    rfl
  | cons i l ih =>
    rw [List.mapM_cons] at h
    obtain ⟨read, hread, h⟩ := bind_eq_ok.mp h
    obtain ⟨rest, hrest, h⟩ := bind_eq_ok.mp h
    obtain rfl := Except.ok.inj h
    obtain ⟨no, hno, hread⟩ := bind_eq_ok.mp hread
    obtain rfl := Except.ok.inj hread
    rw [List.map_cons, ← ih hrest, hno]
    rfl

section Lie

variable {entry : Block → ℕ → Except ReadFault ℕ} {disk : ℕ → Block}

/-- The function reads data blocks that lie one after the other. -/
def CalleeLies (callee : ℕ → ℕ → ℕ → ℕ → ReadResult) : Prop :=
  ∀ ⦃fdata blkNo lo n r⦄, callee fdata blkNo lo n = .ok r → LieAt r.2 fdata n

theorem readDirectBlocks_lie (fdata : ℕ) (ip : Ext2Inode) (lo n : ℕ) :
    LieAt (readDirectBlocks fdata ip lo n).2 fdata n :=
  ⟨fun k => ip.iBlock (lo + k), filterMap_data⟩

theorem calleeLies_one : CalleeLies (readIndirect1Blocks entry disk) := by
  intro fdata blkNo lo n r hr
  rw [readIndirect1Blocks] at hr
  obtain ⟨reads, hreads, hr⟩ := bind_eq_ok.mp hr
  obtain rfl := Except.ok.inj hr
  exact LieAt.cons_indirect ⟨_, data_of_entries hreads⟩

theorem readPieces_lie {callee : ℕ → ℕ → ℕ → ℕ → ReadResult} (hcallee : CalleeLies callee)
    {size : ℕ} (hsize : 0 < size) {buf : Block} {fdata index n : ℕ} {reads : List FileRead}
    (hreads : readPieces entry callee hsize buf fdata index n = .ok reads) : LieAt reads fdata n := by
  induction n using Nat.strong_induction_on generalizing fdata index reads with
  | h n ih =>
    rw [readPieces] at hreads
    split_ifs at hreads with hzero hlast
    · obtain rfl := Except.ok.inj hreads
      exact ⟨fun _ => 0, by rw [hzero]; rfl⟩
    · obtain ⟨no, -, hreads⟩ := bind_eq_ok.mp hreads
      obtain ⟨r, hr, hreads⟩ := bind_eq_ok.mp hreads
      obtain rfl := Except.ok.inj hreads
      exact hcallee hr
    · obtain ⟨no, -, hreads⟩ := bind_eq_ok.mp hreads
      obtain ⟨r, hr, hreads⟩ := bind_eq_ok.mp hreads
      obtain ⟨rest, hrest, hreads⟩ := bind_eq_ok.mp hreads
      obtain rfl := Except.ok.inj hreads
      have hall := (hcallee hr).append (ih (n - size) (by omega) hrest)
      rwa [Nat.add_sub_cancel' (by omega)] at hall

theorem calleeLies_indirect {callee : ℕ → ℕ → ℕ → ℕ → ReadResult} (hcallee : CalleeLies callee)
    {size : ℕ} (hsize : 0 < size) : CalleeLies (readIndirectBlocks entry disk callee hsize) := by
  intro fdata blkNo lo n r hr
  rw [readIndirectBlocks] at hr
  split_ifs at hr with hone
  · obtain ⟨no, -, hr⟩ := bind_eq_ok.mp hr
    obtain ⟨piece, hpiece, hr⟩ := bind_eq_ok.mp hr
    obtain rfl := Except.ok.inj hr
    exact LieAt.cons_indirect (hcallee hpiece)
  · obtain ⟨no, -, hr⟩ := bind_eq_ok.mp hr
    obtain ⟨piece, hpiece, hr⟩ := bind_eq_ok.mp hr
    obtain ⟨bytes, hbytes, hr⟩ := bind_eq_ok.mp hr
    obtain ⟨rest, hrest, hr⟩ := bind_eq_ok.mp hr
    obtain rfl := Except.ok.inj hr
    rw [blocks2Bytes] at hbytes
    split_ifs at hbytes
    obtain rfl := Except.ok.inj hbytes
    have hall := (hcallee hpiece).append (readPieces_lie hcallee hsize hrest)
    rw [Nat.add_sub_cancel' (by omega)] at hall
    exact hall.cons_indirect

/-- **The bytes of a file** do not depend on what the buffer held before. -/
theorem fileBytes_eq {ip : FileInode} {w : WholeFile} (hw : readWholeExt2File entry disk ip = .ok w)
    (heap heap' : ℕ → UInt8) : fileBytes disk heap w = fileBytes disk heap' w := by
  have hone := @calleeLies_one entry disk
  have htwo : CalleeLies (readIndirect2Blocks entry disk) :=
    calleeLies_indirect hone indirectBlks_pos
  rw [readWholeExt2File] at hw
  obtain ⟨reads, hreads, hw⟩ := bind_eq_ok.mp hw
  obtain rfl := Except.ok.inj hw
  have hlt : (bytesAlignToBlocks ip.iSize).toNat < 2 ^ 20 := by
    rw [bytesAlignToBlocks, UInt32.toNat_div]
    exact Nat.div_lt_of_lt_mul (UInt32.toNat_lt _)
  have hlie : LieAt reads 0 (bytesAlignToBlocks ip.iSize).toNat := by
    generalize (bytesAlignToBlocks ip.iSize).toNat = n at hreads hlt
    have hdirect := readDirectBlocks_lie 0 ip.toExt2Inode 0
    have hdouble : n - ext2NdirBlocks - indirectBlks ≤ doubleIndBlks := by
      change n - 12 - 1024 ≤ 1048576
      omega
    rw [wholeReads] at hreads
    dsimp only at hreads
    simp only [if_pos hdouble] at hreads
    split_ifs at hreads with h0 h1
    · obtain rfl := Except.ok.inj hreads
      exact hdirect n
    · obtain ⟨r₁, hr₁, hreads⟩ := bind_eq_ok.mp hreads
      obtain rfl := Except.ok.inj hreads
      have hall := (hdirect ext2NdirBlocks).append (hone hr₁)
      rwa [Nat.add_sub_cancel' (by omega)] at hall
    · obtain ⟨r₁, hr₁, hreads⟩ := bind_eq_ok.mp hreads
      obtain ⟨r₂, hr₂, hreads⟩ := bind_eq_ok.mp hreads
      obtain rfl := Except.ok.inj hreads
      have hall := ((hdirect ext2NdirBlocks).append (hone hr₁)).append (htwo hr₂)
      rwa [Nat.sub_sub, Nat.add_sub_cancel' (by omega)] at hall
  funext k
  refine hlie.fillData_eq disk heap heap' ?_
  rw [← alignedBytes_toNat]
  exact k.isLt

end Lie

/-! ## 3.  Inodes and directories -/

section InUse

variable (entry : Block → ℕ → Except ReadFault ℕ) (disk : ℕ → Block) (U : ℕ → Prop)
  (sb : Ext2SuperBlock)

/-- The place of an inode, by the descriptors in block 1. -/
def placeIn (ino : UInt32) : InodePlace :=
  .of (Ext2GroupDesc.ofBlock (disk (sb0BlockNo + 1)) (sb.groupOf ino)) (sb.posInGroup ino)

/-- The inode in this place. -/
def inodeIn (ino : ℕ) : FileInode :=
  let place := placeIn disk sb (UInt32.ofNat ino)
  .ofBlock (disk place.blkNo) place.slot

/-- The descriptor of the inode is in block 1, and its place and, if it is a directory, the blocks of its
file are among the blocks of `U`. -/
structure InUse (ino : UInt32) : Prop where
  ino_pos : 1 ≤ ino.toNat
  inodes_pos : 0 < sb.sInodesPerGroup
  group_lt : sb.groupOf ino < descsPerBlock
  place : U (placeIn disk sb ino).blkNo
  file : (inodeIn disk sb ino.toNat).IsDir →
    ∃ w, readWholeExt2File entry disk (inodeIn disk sb ino.toNat) = .ok w ∧
      ∀ read ∈ w.reads, U read.blkNo

end InUse

/-- What is printed over the device is what is printed over the disk. -/
def Prints (a : ArrayDisk) (m : Ext2MetaCtr)
    (x : Except FileFault (List DirLine × FileReader SmrDev)) (y : VisitResult) : Prop :=
  Refines (fun _ => False) (fun p lines => p.1 = lines ∧ Sees a m p.2) x (y.mapError .visit)

section Visit

variable {a : ArrayDisk} {m : Ext2MetaCtr} {disk : ℕ → Block} {U : ℕ → Prop}
  {entry : Block → ℕ → Except ReadFault ℕ}

theorem inodeIn_toNat (disk : ℕ → Block) (sb : Ext2SuperBlock) (ino : UInt32) :
    inodeIn disk sb ino.toNat =
      .ofBlock (disk (placeIn disk sb ino).blkNo) (placeIn disk sb ino).slot := by
  rw [inodeIn, UInt32.ofNat_toNat]

/-- The lookup leaves the detector alone. -/
theorem locateInode_metaCtr {L : BlockLayer SmrDev} {r r' : InodeReader SmrDev} {ino : UInt32}
    {place : InodePlace} (h : r.locateInode L ino = .ok (place, r')) :
    r'.sys.metaCtr = r.sys.metaCtr := by
  rw [InodeReader.locateInode] at h
  dsimp only at h
  split_ifs at h
  obtain ⟨⟨gd, r₁⟩, hgd, h⟩ := bind_eq_ok.mp h
  obtain rfl := (Prod.mk.inj (Except.ok.inj h)).2
  rw [InodeReader.readGroupDesc] at hgd
  split_ifs at hgd
  · obtain rfl := (Prod.mk.inj (Except.ok.inj hgd)).2
    rfl
  · obtain ⟨⟨buf, dev⟩, -, hgd⟩ := bind_eq_ok.mp hgd
    obtain rfl := (Prod.mk.inj (Except.ok.inj hgd)).2
    rfl

/-- **The lookup of an inode in use.** -/
theorem readInode_spec (env : Env) (hU : OnDisk a disk U) (hdescs : U (sb0BlockNo + 1))
    (hstatus : m.status = .ext2Detected) (heap : ℕ → ℕ → UInt8) {r : FileReader SmrDev}
    (hr : Sees a m r) {ino : UInt32} (h : InUse entry disk U m.sb0 ino) :
    ∃ r', r.readInode (smrLayer env) heap ino = .ok (inodeIn disk m.sb0 ino.toNat, r') ∧
      Sees a m r' := by
  obtain ⟨hdev, rfl⟩ := hr
  have hdiv := Nat.div_add_mod (ino.toNat - 1) r.lookup.sys.metaCtr.sb0.sInodesPerGroup
  have hino : ino.toNat = r.lookup.sys.metaCtr.sb0.groupOf ino *
      r.lookup.sys.metaCtr.sb0.sInodesPerGroup + r.lookup.sys.metaCtr.sb0.posInGroup ino + 1 := by
    have h1 := h.ino_pos
    unfold Ext2SuperBlock.groupOf Ext2SuperBlock.posInGroup
    rw [Nat.mul_comm] at hdiv
    omega
  obtain ⟨r₁, hloc, hdev₁, -⟩ := locateInode_spec env hdev hstatus h.group_lt
    (Nat.mod_lt _ h.inodes_pos) hino
  rw [(hU _ hdescs).2, Option.getD_some] at hloc
  obtain ⟨hlt, hdisk⟩ := hU _ h.place
  obtain ⟨d', hread, hd'⟩ := readOne_shows env hdev₁ r₁.inodeBuf hlt
  rw [hdisk, Option.getD_some] at hread
  let r₂ : InodeReader SmrDev := { r₁ with
    sys := { r₁.sys with dev := d' }
    inodeBuf := disk (placeIn disk r.lookup.sys.metaCtr.sb0 ino).blkNo }
  have hfound : r.lookup.readExt2Inode (smrLayer env) ino =
      .ok (some (inodeIn disk r.lookup.sys.metaCtr.sb0 ino.toNat), r₂) := by
    rw [InodeReader.readExt2Inode, if_neg (not_not.mpr hstatus), hloc, ok_bind, inodeIn_toNat]
    change (Except.mapError _ (Ext2Sys.readOne _ _ _ (placeIn disk _ ino).blkNo) >>= _) = _
    rw [hread]
    rfl
  have hctr : r₁.sys.metaCtr = r.lookup.sys.metaCtr := locateInode_metaCtr hloc
  refine ⟨{ r.alloc with lookup := r₂ }, ?_, hd', hctr⟩
  rw [FileReader.readInode, hfound]
  rfl

/-- **A range of blocks** of a file: over the device the buffer is filled with the blocks of the disk, as
`read_ext2_file_blocks` reads them there. -/
theorem readExt2FileBlocks_spec (env : Env) (hU : OnDisk a disk U) (hdescs : U (sb0BlockNo + 1))
    (hstatus : m.status = .ext2Detected) (heap : ℕ → ℕ → UInt8) {r : FileReader SmrDev}
    (hr : Sees a m r) {ino : UInt32} (h : InUse entry disk U m.sb0 ino) {lo n : ℕ}
    {res : ℕ × List FileRead}
    (hres : readExt2FileBlocks entry disk (fun i => (inodeIn disk m.sb0 i).toExt2Inode) ino.toNat lo n =
      .ok res)
    (hblks : ∀ read ∈ res.2, U read.blkNo) (buf : ℕ → UInt8) :
    ∃ r', r.readExt2FileBlocks (smrLayer env) entry heap ino buf lo n =
      .ok (res.1, fillData disk res.2 buf, r') ∧ Sees a m r' := by
  rw [readExt2FileBlocks] at hres
  obtain ⟨blocks, hsplit, hres⟩ := bind_eq_ok.mp hres
  obtain ⟨st, hrounds, hres⟩ := bind_eq_ok.mp hres
  obtain rfl := Except.ok.inj hres
  obtain ⟨r₁, hinode, hr₁⟩ := readInode_spec env hU hdescs hstatus heap hr h
  have hdirect : ZonesFill a m disk (FileReader.directRound (smrLayer env) (buf, r₁)
      (inodeIn disk m.sb0 ino.toNat).toExt2Inode lo blocks) buf
      (directRound (inodeIn disk m.sb0 ino.toNat).toExt2Inode lo blocks) := by
    have hfirst : ∀ read ∈ (directRound (inodeIn disk m.sb0 ino.toNat).toExt2Inode lo blocks).2,
        U read.blkNo := fun read hread => hblks read (mem_of_zoneRounds entry hrounds hread)
    rw [FileReader.directRound]
    rw [directRound] at hfirst ⊢
    split_ifs at hfirst ⊢ with hzone
    · obtain ⟨r₂, hread, hr₂⟩ := readDirectBlocks_fills env hU (hr₁.filling buf) 0 _ lo (blocks 0)
        hfirst
      rw [hread]
      exact ⟨r₂, rfl, hr₂⟩
    · exact ⟨r₁, rfl, hr₁⟩
  obtain ⟨r₂, hdirect, hr₂⟩ := hdirect
  obtain ⟨r₃, hzones, hr₃⟩ := zoneRounds_fill env hU entry heap buf hrounds hblks hr₂
  refine ⟨r₃, ?_, hr₃⟩
  rw [FileReader.readExt2FileBlocks, hinode, ok_bind]
  dsimp only
  rw [hsplit]
  change (FileReader.directRound _ _ _ _ _ >>= _) = _
  rw [hdirect, ok_bind, hzones]
  rfl

/-! The loop prints what it prints over the disk if the visits in it do. -/

theorem visitEntry_prints {visit : UInt32 → VisitResult}
    {visit' : UInt32 → FileReader SmrDev → Except FileFault (List DirLine × FileReader SmrDev)}
    {dep : DirEntry} {r : FileReader SmrDev} (hr : Sees a m r)
    (hvisit : ¬ dep.IsDots → dep.inode ≠ 0 → Prints a m (visit' dep.inode r) (visit dep.inode)) :
    Prints a m (FileReader.visitEntry visit' dep r) (visitEntry visit dep) := by
  rw [FileReader.visitEntry, visitEntry]
  split_ifs with hdots hinode
  · exact ⟨rfl, hr⟩
  · exact hvisit hdots hinode
  · exact ⟨rfl, hr⟩

theorem dirLoop_prints {n : ℕ} {b : Bytes n} {iSize depth : ℕ} {visit : UInt32 → VisitResult}
    {visit' : UInt32 → FileReader SmrDev → Except FileFault (List DirLine × FileReader SmrDev)}
    (hvisit : ∀ c, NamesInode b iSize c → ∀ r, Sees a m r → Prints a m (visit' c r) (visit c))
    (fuel : ℕ) {off : ℕ} (hoff : ReflTransGen (NextEntry b iSize) 0 off) {r : FileReader SmrDev}
    (hr : Sees a m r) : Prints a m
      (FileReader.dirLoop visit' b iSize depth fuel off (off % 2 ^ 32) r)
      (dirLoop visit b iSize depth fuel off (off % 2 ^ 32)) := by
  induction fuel generalizing off r with
  | zero => exact refines_error
  | succ fuel ih =>
    rw [Prints, FileReader.dirLoop, dirLoop]
    split_ifs with hsize hinside
    · dsimp only
      rw [mapError_bind, Nat.mod_add_mod]
      refine Refines.bind (visitEntry_prints hr fun hdots hinode => hvisit _
        ⟨off, ⟨hoff, hsize⟩, hdots, hinode, rfl⟩ r hr) ?_
      rintro ⟨sub, r₁⟩ _ ⟨rfl, hr₁⟩
      rw [mapError_bind]
      refine Refines.bind (ih (hoff.tail ⟨hsize, rfl⟩) hr₁) ?_
      rintro ⟨rest, r₂⟩ _ ⟨rfl, hr₂⟩
      exact ⟨rfl, hr₂⟩
    · exact refines_error
    · exact ⟨rfl, hr⟩

theorem bytes_eq_alignedBytes {ip : FileInode} {w : WholeFile}
    (hw : readWholeExt2File entry disk ip = .ok w) : w.bytes = (alignedBytes ip.iSize).toNat := by
  rw [readWholeExt2File] at hw
  obtain ⟨reads, -, hw⟩ := bind_eq_ok.mp hw
  obtain rfl := Except.ok.inj hw
  rfl

/-- **The visit over the device** prints what it prints over the disk, or comes to the same fault, if all
inodes that it comes to are in use. -/
theorem visit_prints (env : Env) (hU : OnDisk a disk U) (hdescs : U (sb0BlockNo + 1))
    (hstatus : m.status = .ext2Detected) (heap : ℕ → ℕ → UInt8) (heap' : ℕ → UInt8) {root : UInt32}
    (hin : ∀ c, ReflTransGen (Nested entry disk heap' (inodeIn disk m.sb0)) root c →
      InUse entry disk U m.sb0 c)
    (fuel : ℕ) {ino : UInt32}
    (hino : ReflTransGen (Nested entry disk heap' (inodeIn disk m.sb0)) root ino) (depth : ℕ)
    {r : FileReader SmrDev} (hr : Sees a m r) : Prints a m
      (FileReader.visitExt2Dir (smrLayer env) entry heap fuel ino depth r)
      (visitExt2Dir entry disk heap' (inodeIn disk m.sb0) fuel ino depth) := by
  induction fuel generalizing ino depth r with
  | zero => exact refines_error
  | succ fuel ih =>
    have huse := hin ino hino
    obtain ⟨r₁, hread, hr₁⟩ := readInode_spec env hU hdescs hstatus heap hr.alloc huse
    rw [FileReader.visitExt2Dir, hread, ok_bind, visitExt2Dir]
    dsimp only
    split_ifs with hdir
    · obtain ⟨w, hw, hblks⟩ := huse.file hdir
      obtain ⟨r₂, hfile, hr₂⟩ := readWholeExt2File_fills env hU entry heap hr₁ hw hblks
      have hsame := fileBytes_eq hw (heap r₁.allocs) heap'
      rw [hfile, ok_bind, hw]
      obtain ⟨bytes, reads⟩ := w
      obtain rfl : bytes = (alignedBytes (inodeIn disk m.sb0 ino.toNat).iSize).toNat :=
        bytes_eq_alignedBytes hw
      change Prints a m (FileReader.dirLoop _ (fileBytes disk (heap r₁.allocs)
        ⟨(alignedBytes (inodeIn disk m.sb0 ino.toNat).iSize).toNat, reads⟩) _ _ _ _ _ _) _
      rw [hsame]
      exact dirLoop_prints (fun c hc r hr => ih (hino.tail ⟨hdir, _, hw, hc⟩) (depth + 1) hr) fuel
        .refl hr₂
    · exact ⟨rfl, hr₁⟩

end Visit

end Ext2File

end MemSmr
