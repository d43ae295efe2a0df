import MemSmr.Groups

/-!
# Compatible super blocks

A super block that `is_compatible_fs` accepts replaces the recorded one, and the vectors stay as they
are.

* `SameDetection`: a detection that starts from either super block records the same layout.
* `compatible_layout_iff`: compatible super blocks do so when `s_first_data_block` is the same, which
  `is_compatible_fs` does not compare.
-/

namespace MemSmr

open Outcome Ext2MetaCtr

/-- The `from` of `mark_all_free_blks`: the block of the first bit of a bitmap. -/
def Ext2SuperBlock.bmpBase (sb : Ext2SuperBlock) (pos : ℕ) : ℕ :=
  (pos * sb.sBlocksPerGroup + sb.sFirstDataBlock) % 2 ^ 32

theorem markGroup_eq {σ : Type} (L : BlockLayer σ) (st : ℕ × Ext2Sys σ) (pos : ℕ) :
    Ext2Sys.markGroup L st pos = (do
      let s := st.2
      let (bmp, dev) ← Ext2Sys.readOne L s.dev s.blkBmp ((s.metaCtr.metaBlks .blkBmpIdx).get pos)
      let (count, dev) ← Ext2Sys.markOneBlkBmp L s.metaCtr.status dev bmp
        (s.metaCtr.sb0.bmpBase pos)
      return (st.1 + count, { s with dev := dev, blkBmp := bmp })) := rfl

/-- What `is_compatible_fs` compares. -/
theorem Ext2SuperBlock.isCompatible_iff {old new : Ext2SuperBlock} :
    old.isCompatible new = true ↔ old.sBlocksPerGroup = new.sBlocksPerGroup ∧
      old.sInodesPerGroup = new.sInodesPerGroup ∧ old.sBlocksCount = new.sBlocksCount ∧
      old.sInodesCount = new.sInodesCount ∧ old.sLogBlockSize = new.sLogBlockSize := by
  rw [isCompatible, decide_eq_true_iff]

/-- A detection from `old` and one from `new` record the same positions of super blocks and of
descriptor blocks, with inode tables of the same length and bitmaps of the same blocks. -/
structure SameDetection (old new : Ext2SuperBlock) : Prop where
  super : ∀ m m' mOld mNew : Ext2MetaCtr, m.takeSuperBlk old = .ok mOld →
    m'.takeSuperBlk new = .ok mNew → ∀ x, x ∈ mOld.metaBlks .sbIdx ↔ x ∈ mNew.metaBlks .sbIdx
  bgDesc : ∀ m m' mOld mNew : Ext2MetaCtr, m.takeSuperBlk old = .ok mOld →
    m'.takeSuperBlk new = .ok mNew →
    ∀ x, x ∈ mOld.takeBgDescs.metaBlks .bgDescIdx ↔ x ∈ mNew.takeBgDescs.metaBlks .bgDescIdx
  inodeTable : old.inodeTableBlks = new.inodeTableBlks
  groups : old.gdCnt = new.gdCnt
  base : ∀ pos < old.gdCnt, old.bmpBase pos = new.bmpBase pos

section Compatible

variable {old new : Ext2SuperBlock}

theorem isScannedPos_congr (hcnt : old.gdCnt = new.gdCnt)
    (hstart : ∀ g, old.groupStart g = new.groupStart g) (x : ℕ) :
    old.IsScannedPos x ↔ new.IsScannedPos x := by
  rw [Ext2SuperBlock.IsScannedPos, Ext2SuperBlock.IsScannedPos, hcnt]
  simp only [hstart]

/-- The descriptor blocks that are recorded after the super blocks. -/
theorem mem_bgDesc_takeBgDescs {m m' : Ext2MetaCtr} {sb : Ext2SuperBlock}
    (h : m.takeSuperBlk sb = .ok m') (x : ℕ) :
    x ∈ m'.takeBgDescs.metaBlks .bgDescIdx ↔
      ∃ y, sb.IsScannedPos y ∧ ∃ i < sb.gdBlks, x = y + 1 + i := by
  obtain ⟨m₁, hm₁, -, hrec⟩ := recordSuperBlks_start m sb
  obtain rfl := Except.ok.inj (h.symm.trans hm₁)
  obtain ⟨m₂, hm₂, hsb0, hmem⟩ := mem_takeSuperBlk m sb
  obtain rfl := Except.ok.inj (h.symm.trans hm₂)
  rw [mem_takeBgDescs hrec .bgDescIdx x (Or.inl rfl), hsb0]
  refine exists_congr fun y => ?_
  rw [hmem, and_iff_right (Or.inl rfl)]

theorem sameDetection_of_firstDataBlock (hcomp : old.isCompatible new = true)
    (hfirst : old.sFirstDataBlock = new.sFirstDataBlock) : SameDetection old new := by
  obtain ⟨hbpg, hipg, hblks, -, -⟩ := Ext2SuperBlock.isCompatible_iff.mp hcomp
  have hcnt : old.gdCnt = new.gdCnt := by
    rw [Ext2SuperBlock.gdCnt, Ext2SuperBlock.gdCnt, hbpg, hblks, hfirst]
  have hstart : ∀ g, old.groupStart g = new.groupStart g := fun g => by
    rw [Ext2SuperBlock.groupStart, Ext2SuperBlock.groupStart, hbpg, hfirst]
  have hgd : old.gdBlks = new.gdBlks := by
    rw [Ext2SuperBlock.gdBlks, Ext2SuperBlock.gdBlks, hcnt]
  have hscan := isScannedPos_congr hcnt hstart
  refine ⟨fun m m' mOld mNew hmOld hmNew x => ?_, fun m m' mOld mNew hmOld hmNew x => ?_, ?_, hcnt,
    fun pos _ => ?_⟩
  · obtain ⟨m₁, hm₁, -, hmem₁⟩ := mem_takeSuperBlk m old
    obtain ⟨m₂, hm₂, -, hmem₂⟩ := mem_takeSuperBlk m' new
    obtain rfl := Except.ok.inj (hmOld.symm.trans hm₁)
    obtain rfl := Except.ok.inj (hmNew.symm.trans hm₂)
    rw [hmem₁, hmem₂]
    exact hscan x
  · rw [mem_bgDesc_takeBgDescs hmOld, mem_bgDesc_takeBgDescs hmNew, hgd]
    simp only [hscan]
  · rw [Ext2SuperBlock.inodeTableBlks, Ext2SuperBlock.inodeTableBlks, hipg]
  · rw [Ext2SuperBlock.bmpBase, Ext2SuperBlock.bmpBase, hbpg, hfirst]

/-- The base of the first bitmap is `s_first_data_block`. -/
theorem bmpBase_zero (sb : Ext2SuperBlock) : sb.bmpBase 0 = sb.sFirstDataBlock := by
  have hlt : sb.sFirstDataBlock < 2 ^ 32 := sb.bytes.le32_lt _
  rw [Ext2SuperBlock.bmpBase, Nat.zero_mul, Nat.zero_add, Nat.mod_eq_of_lt hlt]

theorem SameDetection.firstDataBlock (h : SameDetection old new) :
    old.sFirstDataBlock = new.sFirstDataBlock := by
  have hbase := h.base 0 old.gdCnt_pos
  rwa [bmpBase_zero, bmpBase_zero] at hbase

/-- A bitmap trims the same blocks, whichever of the two super blocks the module holds. -/
theorem SameDetection.markGroup {σ : Type} (L : BlockLayer σ) (h : SameDetection old new)
    {s : Ext2Sys σ} (hs : s.metaCtr.sb0 = old) (n : ℕ) {pos : ℕ} (hpos : pos < old.gdCnt) :
    Ext2Sys.markGroup L (n, { s with metaCtr := { s.metaCtr with sb0 := new } }) pos =
      (Ext2Sys.markGroup L (n, s) pos).map fun r =>
        (r.1, { r.2 with metaCtr := { r.2.metaCtr with sb0 := new } }) := by
  rw [markGroup_eq, markGroup_eq]
  dsimp only
  rw [hs, h.base pos hpos]
  cases hread : Ext2Sys.readOne L s.dev s.blkBmp ((s.metaCtr.metaBlks .blkBmpIdx).get pos) with
  | error e => rfl
  | ok r =>
    simp only [ok_bind]
    cases hmark : Ext2Sys.markOneBlkBmp L s.metaCtr.status r.2 r.1 (new.bmpBase pos) with
    | error e => rfl
    | ok r' => rfl

end Compatible

/-- **Compatible super blocks.**  They describe the same layout, so that the vectors stay right when one
replaces the other, just when `s_first_data_block` is the same. -/
theorem compatible_layout_iff (old new : Ext2SuperBlock) (_hold : old.isLegal = true)
    (_hnew : new.isLegal = true) (hcomp : old.isCompatible new = true) :
    SameDetection old new ↔ old.sFirstDataBlock = new.sFirstDataBlock :=
  ⟨fun h => h.firstDataBlock, sameDetection_of_firstDataBlock hcomp⟩

/-- Block 0 of a file system with one group of 32768 blocks; `k` is the low byte of
`s_first_data_block`. -/
def shiftedSuperBlk (k : UInt8) : Block :=
  Block.ofBytes [(0x405, 0x80), (0x414, k), (0x418, 2), (0x421, 0x80), (0x428, 32), (0x438, 0x53),
    (0x439, 0xEF)]

/-- Two super blocks of which the second starts at another block. -/
theorem compatible_layout_other_first :
    SameDetection (Ext2SuperBlock.ofBlock (shiftedSuperBlk 0) firstSuperBlockOffset)
        (Ext2SuperBlock.ofBlock (shiftedSuperBlk 1) firstSuperBlockOffset) ↔
      (Ext2SuperBlock.ofBlock (shiftedSuperBlk 0) firstSuperBlockOffset).sFirstDataBlock =
        (Ext2SuperBlock.ofBlock (shiftedSuperBlk 1) firstSuperBlockOffset).sFirstDataBlock :=
  compatible_layout_iff _ _ (by decide +kernel) (by decide +kernel) (by decide +kernel)

/-- **Compatible super blocks with different layouts**: the bitmap of the first group starts at another
block. -/
theorem compatible_layout_shifted :
    (Ext2SuperBlock.ofBlock (shiftedSuperBlk 0) firstSuperBlockOffset).isLegal = true ∧
      (Ext2SuperBlock.ofBlock (shiftedSuperBlk 1) firstSuperBlockOffset).isLegal = true ∧
      (Ext2SuperBlock.ofBlock (shiftedSuperBlk 0) firstSuperBlockOffset).isCompatible
        (Ext2SuperBlock.ofBlock (shiftedSuperBlk 1) firstSuperBlockOffset) = true ∧
      ¬ SameDetection (Ext2SuperBlock.ofBlock (shiftedSuperBlk 0) firstSuperBlockOffset)
        (Ext2SuperBlock.ofBlock (shiftedSuperBlk 1) firstSuperBlockOffset) := by
  refine ⟨by decide +kernel, by decide +kernel, by decide +kernel, fun h => ?_⟩
  exact absurd h.firstDataBlock (by decide +kernel)

end MemSmr
