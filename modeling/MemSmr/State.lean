import MemSmr.HashSet
import MemSmr.Lib.Slots

/-!
# The data of the module

The constants of the headers and the three control structs, `smr_ctr_data` (`smr.h`),
`hdd_buf_ctr_data` (`hdd_buf.h`) and `ext2_meta_ctr` (`ext2_meta.h`).

* Tables are functions on `ℕ`; the entries below the bound that the source declares are the table.
* Block numbers, addresses and 32-bit fields are natural numbers.  The access counters of the HDD
  buffer and the statistics wrap around, so they are `Int32` and `UInt64`.
* `MappingFlag` and `PhyStatus` list the codes of `smr.h`.  Memory that was never written, and a
  struct read back from a file, can hold any other code, hence `other`.
* `Event` is not in the source.  `SmrDev.log` records the moments of a run that the source passes
  through without a trace: which index a frontier check reads, which slot is handed out and what
  the reverse table was then.
-/

namespace MemSmr

/-! ## Constants -/

/-- `EXT2_BLOCK_SIZE`. -/
abbrev ext2BlockSize : ℕ := 4096

/-- `SMR_DISK_SIZE`, in bytes. -/
abbrev smrDiskSize : ℕ := 1024 * 1024 * 1024

/-! The sizes of the tables are irreducible, so that no proof counts up to them by accident. -/

/-- `BLOCKS_PER_BAND`. -/
@[irreducible] def blocksPerBand : ℕ := 512 * 4

/-- `TOTAL_SMR_BLOCKS_CNT`. -/
@[irreducible] def totalSmrBlocksCnt : ℕ := smrDiskSize / ext2BlockSize

/-- `TOTAL_SMR_BANDS_CNT`. -/
@[irreducible] def totalSmrBandsCnt : ℕ := totalSmrBlocksCnt / blocksPerBand

/-- `BLOCKS_OF_HDD_BUF`. -/
@[irreducible] def blocksOfHddBuf : ℕ := 16 * 1024

/-- `SWAP_OUT_CNT`. -/
@[irreducible] def swapOutCnt : ℕ := 128

theorem blocksPerBand_eq : blocksPerBand = 2048 := by rw [blocksPerBand]

theorem totalSmrBlocksCnt_eq : totalSmrBlocksCnt = 262144 := by
  rw [totalSmrBlocksCnt]
  decide

theorem totalSmrBandsCnt_eq : totalSmrBandsCnt = 128 := by
  rw [totalSmrBandsCnt, totalSmrBlocksCnt_eq, blocksPerBand_eq]

theorem blocksOfHddBuf_eq : blocksOfHddBuf = 16384 := by rw [blocksOfHddBuf]

theorem swapOutCnt_eq : swapOutCnt = 128 := by rw [swapOutCnt]

/-! ## Bytes -/

/-- `n` bytes of memory. -/
abbrev Bytes (n : ℕ) : Type := Fin n → UInt8

namespace Bytes

variable {n : ℕ}

/-- The byte at an offset. -/
def byteAt (b : Bytes n) (off : ℕ) : ℕ := if h : off < n then (b ⟨off, h⟩).toNat else 0

/-- The little-endian `__u16` at an offset. -/
def le16 (b : Bytes n) (off : ℕ) : ℕ := b.byteAt off + 256 * b.byteAt (off + 1)

/-- The little-endian `__u32` at an offset. -/
def le32 (b : Bytes n) (off : ℕ) : ℕ := b.le16 off + 65536 * b.le16 (off + 2)

/-- The `m` bytes from an offset on. -/
def sub (b : Bytes n) (off m : ℕ) : Bytes m :=
  fun i => if h : off + i < n then b ⟨off + i, h⟩ else 0

theorem byteAt_lt (b : Bytes n) (off : ℕ) : b.byteAt off < 256 := by
  rw [byteAt]
  split_ifs with h
  · exact (b ⟨off, h⟩).toNat_lt
  · decide

theorem le16_lt (b : Bytes n) (off : ℕ) : b.le16 off < 2 ^ 16 := by
  have h0 := b.byteAt_lt off
  have h1 := b.byteAt_lt (off + 1)
  rw [le16]
  omega

theorem le32_lt (b : Bytes n) (off : ℕ) : b.le32 off < 2 ^ 32 := by
  have h0 := b.le16_lt off
  have h1 := b.le16_lt (off + 2)
  rw [le32]
  omega

end Bytes

/-- One block of data. -/
abbrev Block : Type := Bytes ext2BlockSize

/-! ## `smr.h` -/

/-- `mapping_flag`. -/
inductive MappingFlag where
  | invalidMapping
  | inSmrDisk
  | inHddBuf
  | other (code : ℕ)
  deriving DecidableEq

/-- `phy_status`. -/
inductive PhyStatus where
  | invalidPhyBlock
  | validPhyBlock
  | freePhyBlock
  | other (code : ℕ)
  deriving DecidableEq

/-- `META_BG_DESCRIPTORS`. -/
abbrev metaBgDescriptors : ℕ := 1
/-- `META_SUPER_BLOCK`. -/
abbrev metaSuperBlock : ℕ := 2
/-- `META_BLOCK_BITMAP`. -/
abbrev metaBlockBitmap : ℕ := 3
/-- `META_INODE_BITMAP`. -/
abbrev metaInodeBitmap : ℕ := 4
/-- `META_INODE_TABLE`. -/
abbrev metaInodeTable : ℕ := 5

/-- `mapping_entry`. -/
structure MappingEntry where
  mappingFlag : MappingFlag
  metaFlag : ℕ
  paddr : ℕ
  deriving DecidableEq

/-- `reverse_mapping_entry`. -/
structure ReverseMappingEntry where
  blkNo : ℕ
  phyStatus : PhyStatus
  deriving DecidableEq

/-- `band_info`. -/
structure BandInfo where
  invalidCnt : ℤ
  freeCnt : ℤ
  validCnt : ℤ
  deriving DecidableEq

/-- `ds_counter`. -/
structure DsCounter where
  enable : ℤ
  readCount : UInt64
  writeCount : UInt64
  deriving DecidableEq

/-- `smr_ctr_data`. -/
structure SmrCtrData where
  mappingTable : ℕ → MappingEntry
  smrReverseTable : ℕ → ReverseMappingEntry
  phyBands : ℕ → BandInfo
  curPaddr : ℕ
  smrCnt : DsCounter
  hddCnt : DsCounter
  fullyInvalidBands : SortedVector
  vecLen : ℕ

/-! ## `hdd_buf.h` -/

/-- `hdd_buf_entry`. -/
structure HddBufEntry where
  blkNo : ℕ
  readCnt : Int32
  writeCnt : Int32
  deriving DecidableEq

/-- `hdd_buf_ctr_data`. -/
structure HddBufCtrData where
  hddBuf : ℕ → Block
  reverseTable : ℕ → HddBufEntry
  coldBufs : ℕ → ℤ
  hitCnt : Int32
  rwCounter : DsCounter
  freeHddBufs : SortedVector
  vectLen : ℕ

/-! ## The device -/

/-- The parameters of a run.  `aware` and `favor` are the module parameters of `mem_disk.c`, which
the source reads as conditions.  `pastEnd` is the status that a read of `smr_reverse_table` past
its last entry gives: the memory there belongs to another field of the struct. -/
structure Env where
  aware : Bool
  favor : Bool
  pastEnd : SmrCtrData → PhyStatus

/-- The past-the-end status read of `get_free_smr_block` does not give `FREE_PHY_BLOCK`. -/
def Env.PastEndNotFree (env : Env) : Prop := ∀ s, env.pastEnd s ≠ .freePhyBlock

/-- A moment of a run. -/
inductive Event where
  /-- `get_free_smr_block` reads the status of slot `index`. -/
  | frontierCheck (index : ℕ)
  /-- `garbage_collecting` returns with this `cur_paddr` and this reverse table. -/
  | collected (curPaddr : ℕ) (table : ℕ → ReverseMappingEntry)
  /-- `get_free_smr_block` hands out slot `paddr`; the reverse table is the one at that time. -/
  | handed (paddr : ℕ) (table : ℕ → ReverseMappingEntry)
  /-- `get_one_free_buf` is called on a vector of this size. -/
  | freeBufAsked (avail : ℕ)

/-- What the model does not go on after. -/
inductive Fault where
  /-- `mapping_table` is indexed at or past its end. -/
  | tableIndex (index : ℕ)
  /-- `write_hdd_blocks` writes past the end of the device data. -/
  | pastDevice (paddr : ℕ)
  /-- `dectors` is indexed past its last detector. -/
  | noDetector
  /-- A search loop of the detectors does not end. -/
  | noReturn
  deriving DecidableEq

/-- The translation layer: its two control structs, the static `band_buf`, the data of the memory
disk and the log of the run. -/
structure SmrDev where
  smr : SmrCtrData
  buf : HddBufCtrData
  bandBuf : ℕ → Block
  data : ℕ → Block
  log : List Event

namespace SmrDev

/-- Record a moment of the run. -/
def emit (d : SmrDev) (e : Event) : SmrDev := { d with log := e :: d.log }

end SmrDev

/-! ## `read_ext2.h` and `ext2_meta.h` -/

/-- `FIRST_SUPER_BLOCK_OFFSET`. -/
abbrev firstSuperBlockOffset : ℕ := 0x400

/-- `SB0_BLOCK_NO`. -/
abbrev sb0BlockNo : ℕ := 0

/-- `struct ext2_super_block`: the 1024 bytes on disk, and the fields as the source declares
them. -/
structure Ext2SuperBlock where
  bytes : Bytes 1024

namespace Ext2SuperBlock

/-- The super block in a block of data, at an offset. -/
def ofBlock (b : Block) (off : ℕ) : Ext2SuperBlock := ⟨b.sub off 1024⟩

def sInodesCount (sb : Ext2SuperBlock) : ℕ := sb.bytes.le32 0x00
def sBlocksCount (sb : Ext2SuperBlock) : ℕ := sb.bytes.le32 0x04
def sFirstDataBlock (sb : Ext2SuperBlock) : ℕ := sb.bytes.le32 0x14
def sLogBlockSize (sb : Ext2SuperBlock) : ℕ := sb.bytes.le32 0x18
def sBlocksPerGroup (sb : Ext2SuperBlock) : ℕ := sb.bytes.le32 0x20
def sInodesPerGroup (sb : Ext2SuperBlock) : ℕ := sb.bytes.le32 0x28
def sMagic (sb : Ext2SuperBlock) : ℕ := sb.bytes.le16 0x38
def sInodeSize (sb : Ext2SuperBlock) : ℕ := sb.bytes.le16 0x58

end Ext2SuperBlock

/-- `sizeof(struct ext2_group_desc)`. -/
abbrev sizeofGroupDesc : ℕ := 32

/-- `sizeof(struct ext2_inode)`. -/
abbrev sizeofInode : ℕ := 128

/-- `struct ext2_group_desc`, the three fields that the detector reads. -/
structure Ext2GroupDesc where
  bgBlockBitmap : ℕ
  bgInodeBitmap : ℕ
  bgInodeTable : ℕ
  deriving DecidableEq

/-- The `k`-th group descriptor of a descriptor block. -/
def Ext2GroupDesc.ofBlock (b : Block) (k : ℕ) : Ext2GroupDesc where
  bgBlockBitmap := b.le32 (sizeofGroupDesc * k)
  bgInodeBitmap := b.le32 (sizeofGroupDesc * k + 4)
  bgInodeTable := b.le32 (sizeofGroupDesc * k + 8)

/-- `meta_status`.  `undefined` is any code that the enumeration does not list. -/
inductive MetaStatus where
  | noSb0
  | sb0Detected
  | sbsDetected
  | bgDescsDetected
  | blkBitmapDetected
  | inoBitmapDetected
  | inodeTableDetected
  | ext2Detected
  | undefined (code : ℕ)
  deriving DecidableEq

/-- `meta_vect_index`. -/
inductive MetaVectIndex where
  | sbIdx
  | bgDescIdx
  | inoTableIdx
  | inoBmpIdx
  | blkBmpIdx
  | tmpIdx
  deriving DecidableEq

/-- The values of `meta_vect_index` in order, as the loops from `SB_IDX` to `TMP_IDX` take them. -/
def MetaVectIndex.all : List MetaVectIndex :=
  [.sbIdx, .bgDescIdx, .inoTableIdx, .inoBmpIdx, .blkBmpIdx, .tmpIdx]

/-- `ext2_meta_ctr`. -/
structure Ext2MetaCtr where
  status : MetaStatus
  metaRwCnt : DsCounter
  sb0 : Ext2SuperBlock
  len : MetaVectIndex → ℕ
  metaBlks : MetaVectIndex → SortedVector

end MemSmr
