import MemSmr.Device
import MemSmr.Lib.Codec

/-!
# The control structs in memory

How `smr_ctr_data`, `hdd_buf_ctr_data` and `ext2_meta_ctr` lie in memory on x86-64, field by field
in the order of the headers.  `mem_disk.c` writes the structs to the control image as they lie in
memory, padding and pointers included.

* `Stray`: the bytes of the structs that stand for nothing in the model.
* `smrCtrCodec`, `bufCtrCodec`, `metaCtrCodec`: the layouts.
* `blockCodec`: a block of data.
-/

namespace MemSmr

open Codec

/-- What lies in the padding and in the pointers to the sorted vectors. -/
structure Stray where
  pad : Bytes 4
  fullyInvalidBands : Bytes 8
  freeHddBufs : Bytes 8
  metaBlks : MetaVectIndex → Bytes 8

/-- A block of data. -/
def blockCodec : Codec Block := raw ext2BlockSize

/-! ## Codes -/

/-- The value of `mapping_flag`. -/
def MappingFlag.code : MappingFlag → ℕ
  | .invalidMapping => 1
  | .inSmrDisk => 2
  | .inHddBuf => 4
  | .other code => code

def MappingFlag.ofCode : ℕ → MappingFlag
  | 1 => .invalidMapping
  | 2 => .inSmrDisk
  | 4 => .inHddBuf
  | code => .other code

/-- The value of `phy_status`. -/
def PhyStatus.code : PhyStatus → ℕ
  | .invalidPhyBlock => 1
  | .validPhyBlock => 2
  | .freePhyBlock => 4
  | .other code => code

def PhyStatus.ofCode : ℕ → PhyStatus
  | 1 => .invalidPhyBlock
  | 2 => .validPhyBlock
  | 4 => .freePhyBlock
  | code => .other code

/-- The value of `status`. -/
def MetaStatus.code : MetaStatus → ℕ
  | .noSb0 => 0
  | .sb0Detected => 1
  | .sbsDetected => 2
  | .bgDescsDetected => 3
  | .blkBitmapDetected => 4
  | .inoBitmapDetected => 5
  | .inodeTableDetected => 6
  | .ext2Detected => 7
  | .undefined code => code

def MetaStatus.ofCode : ℕ → MetaStatus
  | 0 => .noSb0
  | 1 => .sb0Detected
  | 2 => .sbsDetected
  | 3 => .bgDescsDetected
  | 4 => .blkBitmapDetected
  | 5 => .inoBitmapDetected
  | 6 => .inodeTableDetected
  | 7 => .ext2Detected
  | code => .undefined code

/-! ## Entries -/

section Entries

variable (st : Stray)

/-- `mapping_entry`: two bit fields of 16 bits and a `block_t`. -/
def mappingEntryCodec : Codec MappingEntry :=
  (pair (le 2) (pair (le 2) (pair (skip st.pad) (le 8)))).via
    (fun _ _ h => Prod.ext h.1 (Prod.ext h.2.1 (Prod.ext rfl h.2.2.2)))
    (fun e => (e.mappingFlag.code, e.metaFlag, (), e.paddr))
    (fun x => ⟨.ofCode x.1, x.2.1, x.2.2.2⟩)

/-- `reverse_mapping_entry`. -/
def reverseEntryCodec : Codec ReverseMappingEntry :=
  (pair (le 8) (pair (le 4) (skip st.pad))).via
    (fun _ _ h => Prod.ext h.1 (Prod.ext h.2.1 rfl))
    (fun e => (e.blkNo, e.phyStatus.code, ()))
    (fun x => ⟨x.1, .ofCode x.2.1⟩)

/-- `band_info`. -/
def bandInfoCodec : Codec BandInfo :=
  (pair int32 (pair int32 int32)).via
    (fun _ _ h => Prod.ext h.1 (Prod.ext h.2.1 h.2.2))
    (fun b => (b.invalidCnt, b.freeCnt, b.validCnt))
    (fun x => ⟨x.1, x.2.1, x.2.2⟩)

/-- `ds_counter`. -/
def counterCodec : Codec DsCounter :=
  (pair int32 (pair (skip st.pad) (pair (le 8) (le 8)))).via
    (fun _ _ h => Prod.ext h.1 (Prod.ext rfl (Prod.ext h.2.2.1 h.2.2.2)))
    (fun c => (c.enable, (), c.readCount.toNat, c.writeCount.toNat))
    (fun x => ⟨x.1, .ofNat x.2.2.1, .ofNat x.2.2.2⟩)

/-- An access counter. -/
def accessCodec : Codec Int32 :=
  int32.via (fun _ _ h => h) Int32.toInt Int32.ofInt

/-- `hdd_buf_entry`. -/
def bufEntryCodec : Codec HddBufEntry :=
  (pair (le 8) (pair accessCodec accessCodec)).via
    (fun _ _ h => Prod.ext h.1 (Prod.ext h.2.1 h.2.2))
    (fun e => (e.blkNo, e.readCnt, e.writeCnt))
    (fun x => ⟨x.1, x.2.1, x.2.2⟩)

/-- `struct ext2_super_block`. -/
def superBlockCodec : Codec Ext2SuperBlock :=
  (raw 1024).via (fun _ _ h => h) Ext2SuperBlock.bytes Ext2SuperBlock.mk

/-- `meta_status`. -/
def statusCodec : Codec MetaStatus :=
  (le 4).via (fun _ _ h => h) MetaStatus.code MetaStatus.ofCode

/-! ## Structs -/

/-- `smr_ctr_data`. -/
def smrCtrCodec : Codec SmrCtrData :=
  (pair (array totalSmrBlocksCnt (mappingEntryCodec st))
    (pair (array totalSmrBlocksCnt (reverseEntryCodec st))
    (pair (array totalSmrBandsCnt bandInfoCodec)
    (pair (le 8)
    (pair (counterCodec st)
    (pair (counterCodec st)
    (pair (skip st.fullyInvalidBands)
    (pair (le 4) (skip st.pad))))))))).onto
    (fun s => (s.mappingTable, s.smrReverseTable, s.phyBands, s.curPaddr, s.smrCnt, s.hddCnt, (),
      s.vecLen, ()))
    (fun x s => { s with
      mappingTable := x.1
      smrReverseTable := x.2.1
      phyBands := x.2.2.1
      curPaddr := x.2.2.2.1
      smrCnt := x.2.2.2.2.1
      hddCnt := x.2.2.2.2.2.1
      vecLen := x.2.2.2.2.2.2.2.1 })
    (fun _ _ => rfl)

/-- `hdd_buf_ctr_data`. -/
def bufCtrCodec : Codec HddBufCtrData :=
  (pair (array blocksOfHddBuf blockCodec)
    (pair (array blocksOfHddBuf bufEntryCodec)
    (pair (array swapOutCnt int32)
    (pair accessCodec
    (pair (skip st.pad)
    (pair (counterCodec st)
    (pair (skip st.freeHddBufs)
    (pair (le 4) (skip st.pad))))))))).onto
    (fun b => (b.hddBuf, b.reverseTable, b.coldBufs, b.hitCnt, (), b.rwCounter, (), b.vectLen, ()))
    (fun x b => { b with
      hddBuf := x.1
      reverseTable := x.2.1
      coldBufs := x.2.2.1
      hitCnt := x.2.2.2.1
      rwCounter := x.2.2.2.2.2.1
      vectLen := x.2.2.2.2.2.2.2.1 })
    (fun _ _ => rfl)

/-- The lengths and the pointers of the vectors in `ext2_meta_ctr`. -/
def lenCodec : Codec (MetaVectIndex → ℕ) :=
  (pair (le 4) (pair (le 4) (pair (le 4) (pair (le 4) (pair (le 4) (le 4)))))).onto
    (fun l => (l .sbIdx, l .bgDescIdx, l .inoTableIdx, l .inoBmpIdx, l .blkBmpIdx, l .tmpIdx))
    (fun x _ idx => match idx with
      | .sbIdx => x.1
      | .bgDescIdx => x.2.1
      | .inoTableIdx => x.2.2.1
      | .inoBmpIdx => x.2.2.2.1
      | .blkBmpIdx => x.2.2.2.2.1
      | .tmpIdx => x.2.2.2.2.2)
    (fun _ _ => rfl)

/-- `ext2_meta_ctr`. -/
def metaCtrCodec : Codec Ext2MetaCtr :=
  (pair statusCodec
    (pair (skip st.pad)
    (pair (counterCodec st)
    (pair superBlockCodec
    (pair lenCodec
    (pair (skip (st.metaBlks .sbIdx)) (pair (skip (st.metaBlks .bgDescIdx))
      (pair (skip (st.metaBlks .inoTableIdx)) (pair (skip (st.metaBlks .inoBmpIdx))
        (pair (skip (st.metaBlks .blkBmpIdx)) (skip (st.metaBlks .tmpIdx)))))))))))).onto
    (fun m => (m.status, (), m.metaRwCnt, m.sb0, m.len, (), (), (), (), (), ()))
    (fun x m => { m with
      status := x.1
      metaRwCnt := x.2.2.1
      sb0 := x.2.2.2.1
      len := x.2.2.2.2.1 })
    (fun _ _ => rfl)

end Entries

/-! The sizes of the structs are those that the compiler gives them. -/

theorem size_smrCtrCodec (st : Stray) : (smrCtrCodec st).size = 8390216 := by
  show totalSmrBlocksCnt * 16 + (totalSmrBlocksCnt * 16 + (totalSmrBandsCnt * 12 + 72)) = _
  rw [totalSmrBlocksCnt_eq, totalSmrBandsCnt_eq]

theorem size_bufCtrCodec (st : Stray) : (bufCtrCodec st).size = 67371568 := by
  show blocksOfHddBuf * ext2BlockSize + (blocksOfHddBuf * 16 + (swapOutCnt * 4 + 48)) = _
  rw [blocksOfHddBuf_eq, swapOutCnt_eq, ext2BlockSize]

theorem size_metaCtrCodec (st : Stray) : (metaCtrCodec st).size = 1128 := by
  simp only [metaCtrCodec, onto, pair, skip, statusCodec, counterCodec, superBlockCodec, lenCodec,
    via, le, int32, raw]

/-! What lies in the gaps makes no difference to a load. -/

theorem counter_like (st st' : Stray) : LoadsLike (counterCodec st) (counterCodec st') :=
  ((LoadsLike.refl int32).pair ((LoadsLike.skip st.pad st'.pad).pair (.refl _))).via _ _ _ _

theorem smrCtr_like (st st' : Stray) : LoadsLike (smrCtrCodec st) (smrCtrCodec st') := by
  have hpad := LoadsLike.skip st.pad st'.pad
  have hmap : LoadsLike (mappingEntryCodec st) (mappingEntryCodec st') :=
    ((LoadsLike.refl (le 2)).pair ((LoadsLike.refl (le 2)).pair (hpad.pair (.refl _)))).via _ _ _ _
  have hrev : LoadsLike (reverseEntryCodec st) (reverseEntryCodec st') :=
    ((LoadsLike.refl (le 8)).pair ((LoadsLike.refl (le 4)).pair hpad)).via _ _ _ _
  have hcnt := counter_like st st'
  exact ((hmap.array _).pair ((hrev.array _).pair ((LoadsLike.refl _).pair ((LoadsLike.refl _).pair
    (hcnt.pair (hcnt.pair ((LoadsLike.skip _ _).pair ((LoadsLike.refl _).pair hpad)))))))).onto _ _ _

theorem bufCtr_like (st st' : Stray) : LoadsLike (bufCtrCodec st) (bufCtrCodec st') := by
  have hpad := LoadsLike.skip st.pad st'.pad
  exact ((LoadsLike.refl _).pair ((LoadsLike.refl _).pair ((LoadsLike.refl _).pair
    ((LoadsLike.refl _).pair (hpad.pair ((counter_like st st').pair ((LoadsLike.skip _ _).pair
    ((LoadsLike.refl _).pair hpad)))))))).onto _ _ _

theorem metaCtr_like (st st' : Stray) : LoadsLike (metaCtrCodec st) (metaCtrCodec st') := by
  have hskip : ∀ idx, LoadsLike (skip (st.metaBlks idx)) (skip (st'.metaBlks idx)) := fun idx =>
    .skip _ _
  exact ((LoadsLike.refl _).pair ((LoadsLike.skip st.pad st'.pad).pair ((counter_like st st').pair
    ((LoadsLike.refl _).pair ((LoadsLike.refl _).pair ((hskip _).pair ((hskip _).pair
    ((hskip _).pair ((hskip _).pair ((hskip _).pair (hskip _))))))))))).onto _ _ _

end MemSmr
