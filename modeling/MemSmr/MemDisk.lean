import MemSmr.Image
import MemSmr.Lib.ShortIo

/-!
# `mem_disk.c`: the two images

`load_system_data` and `save_system_data`.  The disk image holds the blocks of the device, and the
control image the three control structs, each of them followed by the elements of its vectors.

* `loadSmrCtrlSteps`, `saveSmrCtrlSteps`: the pieces of the control image, in the order of the source.
* `loadSystemData`, `saveSystemData`: the return value, the files and the module.  There is no result
  if a loop over the blocks runs past the device data.

What `vfs_read` and `vfs_write` do is part of an `IoFile`.  A file that cannot be opened is `none`.
-/

namespace MemSmr

open ShortIo Codec

/-! ## The elements of a vector -/

/-- `sizeof(block_t)`. -/
abbrev sizeofBlockT : ℕ := 8

/-- Block numbers as they lie in memory. -/
def blksBytes (blks : List ℕ) : List UInt8 := blks.flatMap (leBytes sizeofBlockT)

/-- The loop of `load_sorted_vector`: `len` block numbers are taken from memory and inserted. -/
def insertBlks (len : ℕ) (bytes : List UInt8) : SortedVector :=
  (List.range len).foldl (fun vect i =>
    vect.insert (ofLe ((bytes.drop (i * sizeofBlockT)).take sizeofBlockT))) .create

/-- Memory from `vmalloc` after a read into it: behind the bytes that have come there is what was there
before. -/
def overJunk (junk : ℕ → UInt8) (n : ℕ) (got : List UInt8) : List UInt8 :=
  got ++ (List.range' got.length (n - got.length)).map junk

/-- `load_sorted_vector`.  An error is not passed on. -/
def loadSortedVector {σ : Type} (junk : ℕ → UInt8) (len : σ → ℕ) (set : SortedVector → σ → σ) :
    ReadStep σ where
  size s := len s * sizeofBlockT
  put got s := set (insertBlks (len s) (overJunk junk (len s * sizeofBlockT) got)) s
  fail := some fun s => set (insertBlks (len s) (overJunk junk (len s * sizeofBlockT) [])) s

/-- `save_sorted_vector`. -/
def saveSortedVector {σ : Type} (vect : σ → SortedVector) : WriteStep σ where
  set := id
  src s := blksBytes (vect s).toList

/-! ## The control image -/

/-- `vfs_read` of a struct. -/
def readStruct {σ α : Type} (c : Codec α) (get : σ → α) (set : α → σ → σ) : ReadStep σ where
  size _ := c.size
  put got s := set (c.overlay got (get s)) s
  fail := none

/-- `vfs_write` of a struct, after its length fields have been assigned. -/
def writeStruct {σ α : Type} (c : Codec α) (assign : σ → σ) (get : σ → α) : WriteStep σ where
  set := assign
  src s := c.encode (get s)

/-- The value of an index. -/
def MetaVectIndex.value : MetaVectIndex → ℕ
  | .sbIdx => 0
  | .bgDescIdx => 1
  | .inoTableIdx => 2
  | .inoBmpIdx => 3
  | .blkBmpIdx => 4
  | .tmpIdx => 5

namespace Ext2Sys

variable (s : Ext2Sys SmrDev)

def setSmrCtr (c : SmrCtrData) : Ext2Sys SmrDev := { s with dev := { s.dev with smr := c } }

def setBufCtr (c : HddBufCtrData) : Ext2Sys SmrDev := { s with dev := { s.dev with buf := c } }

def setMetaCtr (c : Ext2MetaCtr) : Ext2Sys SmrDev := { s with metaCtr := c }

/-- An assignment to a block of the device data. -/
def setData (i : ℕ) (blk : Block) : Ext2Sys SmrDev :=
  { s with dev := { s.dev with data := Function.update s.dev.data i blk } }

/-- `s_ctr->vec_len = get_vect_size(vect)`. -/
def assignVecLen : Ext2Sys SmrDev :=
  s.setSmrCtr { s.dev.smr with vecLen := s.dev.smr.fullyInvalidBands.size }

/-- `b_ctr->vect_len = get_vect_size(vect)`. -/
def assignVectLen : Ext2Sys SmrDev :=
  s.setBufCtr { s.dev.buf with vectLen := s.dev.buf.freeHddBufs.size }

/-- The loop that assigns `m_ctr->len[i]`. -/
def assignLens : Ext2Sys SmrDev :=
  s.setMetaCtr { s.metaCtr with len := fun idx => (s.metaCtr.metaBlks idx).size }

end Ext2Sys

section Images

variable (st : Stray) (junk : ℕ → ℕ → UInt8)

/-- The reads of `load_smr_ctrl`.  `junk` is what `vmalloc` gives for each of the vectors. -/
def loadSmrCtrlSteps : List (ReadStep (Ext2Sys SmrDev)) :=
  [readStruct (smrCtrCodec st) (fun s => s.dev.smr) (fun c s => s.setSmrCtr c),
    loadSortedVector (junk 0) (fun s => s.dev.smr.vecLen)
      (fun v s => s.setSmrCtr { s.dev.smr with fullyInvalidBands := v }),
    readStruct (bufCtrCodec st) (fun s => s.dev.buf) (fun c s => s.setBufCtr c),
    loadSortedVector (junk 1) (fun s => s.dev.buf.vectLen)
      (fun v s => s.setBufCtr { s.dev.buf with freeHddBufs := v }),
    readStruct (metaCtrCodec st) (fun s => s.metaCtr) (fun c s => s.setMetaCtr c)] ++
  MetaVectIndex.all.map fun idx =>
    loadSortedVector (junk (2 + idx.value)) (fun s => s.metaCtr.len idx)
      (fun v s => s.setMetaCtr (s.metaCtr.setVect idx v))

/-- The writes of `save_smr_ctrl`. -/
def saveSmrCtrlSteps : List (ShortIo.WriteStep (Ext2Sys SmrDev)) :=
  [writeStruct (smrCtrCodec st) Ext2Sys.assignVecLen (fun s => s.dev.smr),
    saveSortedVector (fun s => s.dev.smr.fullyInvalidBands),
    writeStruct (bufCtrCodec st) Ext2Sys.assignVectLen (fun s => s.dev.buf),
    saveSortedVector (fun s => s.dev.buf.freeHddBufs),
    writeStruct (metaCtrCodec st) Ext2Sys.assignLens (fun s => s.metaCtr)] ++
  MetaVectIndex.all.map fun idx => saveSortedVector (fun s => s.metaCtr.metaBlks idx)

/-- `load_smr_ctrl`. -/
def loadSmrCtrl (f : IoFile) (s : Ext2Sys SmrDev) :
    Except (IoFile × Ext2Sys SmrDev) (IoFile × Ext2Sys SmrDev) :=
  runReads (loadSmrCtrlSteps st junk) f s

/-- `save_smr_ctrl`. -/
def saveSmrCtrl (f : IoFile) (s : Ext2Sys SmrDev) :
    Except (IoFile × Ext2Sys SmrDev) (IoFile × Ext2Sys SmrDev) :=
  runWrites (saveSmrCtrlSteps st) f s

end Images

/-! ## The disk image -/

/-- The size of the disk image. -/
@[irreducible] def diskImageSize : ℕ := totalSmrBlocksCnt * ext2BlockSize

theorem diskImageSize_eq : diskImageSize = totalSmrBlocksCnt * ext2BlockSize := by
  unfold diskImageSize
  exact Eq.refl _

/-- `load_smr_disk_data`.  The pointer goes on by a block whatever has come. -/
def loadSmrDiskData (f : IoFile) (s : Ext2Sys SmrDev) :
    Option (Except (IoFile × Ext2Sys SmrDev) (IoFile × Ext2Sys SmrDev)) :=
  if f.bytes.length ≠ diskImageSize then some (.error (f, s))
  else
    readLoop diskImageSize ext2BlockSize
      (fun i got s => s.setData i (blockCodec.overlay got (s.dev.data i)))
      (totalSmrBlocksCnt + 1) 0 f s

/-- `save_smr_disk_data`. -/
def saveSmrDiskData (f : IoFile) (s : Ext2Sys SmrDev) : Option (Except IoFile IoFile) :=
  writeLoop diskImageSize (fun i => blockCodec.encode (s.dev.data i)) (totalSmrBlocksCnt + 1) 0 f

/-! ## Both images -/

/-- The end of `load_system_data` or `save_system_data`: the return value, the files and the module. -/
structure ImageRun where
  ret : ℤ
  disk : Option IoFile
  ctrl : Option IoFile
  sys : Ext2Sys SmrDev

section Both

variable (st : Stray) (junk : ℕ → ℕ → UInt8)

/-- `load_system_data` with both files open. -/
def loadOpened (diskFp ctrlFp : IoFile) (s : Ext2Sys SmrDev) : Option ImageRun :=
  match loadSmrDiskData diskFp s with
  | none => none
  | some (.error (diskFp, s)) => some ⟨-1, some diskFp, some ctrlFp, s⟩
  | some (.ok (diskFp, s)) =>
    match loadSmrCtrl st junk ctrlFp s with
    | .error (ctrlFp, s) => some ⟨-1, some diskFp, some ctrlFp, s⟩
    | .ok (ctrlFp, s) => some ⟨0, some diskFp, some ctrlFp, s⟩

/-- `load_system_data`. -/
def loadSystemData (disk ctrl : Option IoFile) (s : Ext2Sys SmrDev) : Option ImageRun :=
  match disk, ctrl with
  | some diskFp, some ctrlFp => loadOpened st junk diskFp ctrlFp s
  | _, _ => some ⟨-1, disk, ctrl, s⟩

/-- `save_system_data` with both files open. -/
def saveOpened (diskFp ctrlFp : IoFile) (s : Ext2Sys SmrDev) : Option ImageRun :=
  match saveSmrDiskData diskFp s with
  | none => none
  | some (.error diskFp) => some ⟨-1, some diskFp, some ctrlFp, s⟩
  | some (.ok diskFp) =>
    match saveSmrCtrl st ctrlFp s with
    | .error (ctrlFp, s) => some ⟨-1, some diskFp, some ctrlFp, s⟩
    | .ok (ctrlFp, s) => some ⟨0, some diskFp, some ctrlFp, s⟩

/-- `save_system_data`. -/
def saveSystemData (disk ctrl : Option IoFile) (s : Ext2Sys SmrDev) : Option ImageRun :=
  match disk, ctrl with
  | some diskFp, some ctrlFp => saveOpened st diskFp ctrlFp s
  | _, _ => some ⟨-1, disk, ctrl, s⟩

end Both

/-! The runs that return zero, and one that does not. -/

section Returns

variable {st : Stray} {junk : ℕ → ℕ → UInt8} {diskFp ctrlFp diskFp' ctrlFp' : IoFile}
  {s s₁ s' : Ext2Sys SmrDev} {r : ImageRun}

theorem saveSystemData_of_ok (hdisk : saveSmrDiskData diskFp s = some (.ok diskFp'))
    (hctrl : saveSmrCtrl st ctrlFp s = .ok (ctrlFp', s')) :
    saveSystemData st (some diskFp) (some ctrlFp) s =
      some ⟨0, some diskFp', some ctrlFp', s'⟩ := by
  rw [saveSystemData, saveOpened, hdisk]
  generalize saveSmrCtrl st ctrlFp s = res at hctrl ⊢
  rw [hctrl]

theorem saveSystemData_zero (h : saveSystemData st (some diskFp) (some ctrlFp) s = some r)
    (hret : r.ret = 0) : ∃ diskFp' ctrlFp', saveSmrDiskData diskFp s = some (.ok diskFp') ∧
      saveSmrCtrl st ctrlFp s = .ok (ctrlFp', r.sys) ∧ r.disk = some diskFp' ∧
      r.ctrl = some ctrlFp' := by
  rw [saveSystemData, saveOpened] at h
  generalize saveSmrCtrl st ctrlFp s = res at h ⊢
  cases hdisk : saveSmrDiskData diskFp s with
  | none =>
    rw [hdisk] at h
    cases h
  | some disk =>
    rw [hdisk] at h
    cases disk with
    | error diskFp' =>
      obtain rfl := Option.some.inj h
      cases hret
    | ok diskFp' =>
      cases res with
      | error p =>
        obtain rfl := Option.some.inj h
        cases hret
      | ok p =>
        obtain rfl := Option.some.inj h
        exact ⟨diskFp', p.1, rfl, rfl, rfl, rfl⟩

theorem loadSystemData_of_ok (hdisk : loadSmrDiskData diskFp s = some (.ok (diskFp', s₁)))
    (hctrl : loadSmrCtrl st junk ctrlFp s₁ = .ok (ctrlFp', s')) :
    loadSystemData st junk (some diskFp) (some ctrlFp) s =
      some ⟨0, some diskFp', some ctrlFp', s'⟩ := by
  rw [loadSystemData, loadOpened, hdisk]
  dsimp only
  rw [hctrl]

theorem loadSystemData_of_error (hdisk : loadSmrDiskData diskFp s = some (.ok (diskFp', s₁)))
    (hctrl : loadSmrCtrl st junk ctrlFp s₁ = .error (ctrlFp', s')) :
    loadSystemData st junk (some diskFp) (some ctrlFp) s =
      some ⟨-1, some diskFp', some ctrlFp', s'⟩ := by
  rw [loadSystemData, loadOpened, hdisk]
  dsimp only
  rw [hctrl]

theorem loadSystemData_zero (h : loadSystemData st junk (some diskFp) (some ctrlFp) s = some r)
    (hret : r.ret = 0) : ∃ diskFp' ctrlFp' s₁,
      loadSmrDiskData diskFp s = some (.ok (diskFp', s₁)) ∧
      loadSmrCtrl st junk ctrlFp s₁ = .ok (ctrlFp', r.sys) ∧ r.disk = some diskFp' ∧
      r.ctrl = some ctrlFp' := by
  rw [loadSystemData, loadOpened] at h
  cases hdisk : loadSmrDiskData diskFp s with
  | none =>
    rw [hdisk] at h
    cases h
  | some res =>
    rw [hdisk] at h
    cases res with
    | error p =>
      obtain rfl := Option.some.inj h
      cases hret
    | ok p =>
      obtain ⟨diskFp', s₁⟩ := p
      dsimp only at h
      cases hctrl : loadSmrCtrl st junk ctrlFp s₁ with
      | error p =>
        rw [hctrl] at h
        obtain rfl := Option.some.inj h
        cases hret
      | ok p =>
        rw [hctrl] at h
        obtain rfl := Option.some.inj h
        exact ⟨diskFp', p.1, s₁, rfl, hctrl, rfl, rfl⟩

end Returns

end MemSmr
