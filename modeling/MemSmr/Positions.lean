import MemSmr.DetectedLayout

/-!
# Block numbers on the device

The detector takes block numbers from the super block, from the group descriptors and from the block
bitmaps, and uses them as indices into `mapping_table`.

* `derived_positions_iff`: when the numbers that a legal super block gives are on the device.
-/

namespace MemSmr

open Outcome Ext2MetaCtr

/-! ## The super block -/

/-- `detect_SB0_if_NO_SB0` up to the call of the next stage. -/
def Ext2MetaCtr.takeSuperBlk (m : Ext2MetaCtr) (sbp : Ext2SuperBlock) : Except Fault Ext2MetaCtr :=
  recordSuperBlks { m.setStatus .sb0Detected with sb0 := sbp } sbp

/-- `detect_SBs_if_SB0` from the emptying of `TMP_IDX` up to the call of the next stage. -/
def Ext2MetaCtr.takeBgDescs (m : Ext2MetaCtr) : Ext2MetaCtr :=
  let m := (m.clearBlks .tmpIdx).setStatus .sbsDetected
  (m.metaBlks .sbIdx).toList.foldl (recordBgDescs m.sb0.gdBlks) m

/-- Every block number in two of the vectors is on the device. -/
def Ext2MetaCtr.OnDevice (m : Ext2MetaCtr) (idx : MetaVectIndex) : Prop :=
  ∀ x, x ∈ m.metaBlks idx ∨ x ∈ m.metaBlks .tmpIdx → x < totalSmrBlocksCnt

/-- The block numbers that the detector derives from a super block are on the device. -/
def DerivedOnDevice (m : Ext2MetaCtr) (sbp : Ext2SuperBlock) : Prop :=
  ∃ m', m.takeSuperBlk sbp = .ok m' ∧ m'.OnDevice .sbIdx ∧ m'.takeBgDescs.OnDevice .bgDescIdx

theorem detectSB0IfNoSB0_eq {σ : Type} (L : BlockLayer σ) (s : Ext2Sys σ) (buf : Block) :
    s.detectSB0IfNoSB0 L buf sb0BlockNo =
      if (Ext2SuperBlock.ofBlock buf firstSuperBlockOffset).isLegal then do
        let m ← s.metaCtr.takeSuperBlk (Ext2SuperBlock.ofBlock buf firstSuperBlockOffset)
        Ext2Sys.detectSBsIfSB0 L { s with metaCtr := m }
      else .ok s := by
  rw [Ext2Sys.detectSB0IfNoSB0]
  exact if_congr (and_iff_right rfl) rfl rfl

theorem detectSBsIfSB0_eq {σ : Type} (L : BlockLayer σ) (s : Ext2Sys σ) :
    s.detectSBsIfSB0 L = (do
      if ← s.allElementsMapped L (s.metaCtr.metaBlks .tmpIdx).toList then
        let (legal, s) ← s.checkSuperBlks L (s.metaCtr.metaBlks .tmpIdx).toList
        if legal then Ext2Sys.detectBgDescsIfSBs L { s with metaCtr := s.metaCtr.takeBgDescs }
        else return { s with metaCtr := s.metaCtr.setStatus .noSb0 }
      else return s) := rfl

namespace Ext2SuperBlock

variable {sb : Ext2SuperBlock}

/-- The group count of a legal super block that describes at least one block. -/
theorem gdCnt_eq (h : sb.isLegal = true) (hlt : sb.sFirstDataBlock < sb.sBlocksCount) :
    sb.gdCnt = (sb.sBlocksCount - sb.sFirstDataBlock - 1) / 32768 + 1 := by
  obtain ⟨-, -, -, h2, h3⟩ := isLegal_iff.mp h
  rw [totalSmrBlocksCnt_eq] at h3
  rw [gdCnt, h2]
  omega

/-- The count of a file system without blocks wraps around. -/
theorem gdCnt_wrapped (h : sb.isLegal = true) (heq : sb.sFirstDataBlock = sb.sBlocksCount) :
    sb.gdCnt = 131072 := by
  obtain ⟨-, -, -, h2, h3⟩ := isLegal_iff.mp h
  rw [totalSmrBlocksCnt_eq] at h3
  rw [gdCnt, h2]
  omega

/-- Every group of a legal super block with blocks starts before the end of the file system. -/
theorem groupStart_lt (h : sb.isLegal = true) (hlt : sb.sFirstDataBlock < sb.sBlocksCount) {g : ℕ}
    (hg : g < sb.gdCnt) : sb.groupStart g = sb.sFirstDataBlock + g * 32768 ∧
      sb.groupStart g < sb.sBlocksCount := by
  obtain ⟨-, -, -, -, h3⟩ := isLegal_iff.mp h
  rw [totalSmrBlocksCnt_eq] at h3
  rw [gdCnt_eq h hlt] at hg
  have heq := groupStart_eq h (g := g) (by omega)
  refine ⟨heq, ?_⟩
  rw [heq]
  omega

end Ext2SuperBlock

/-- What `takeBgDescs` records when the super blocks have just been recorded. -/
theorem mem_takeBgDescs {m m' : Ext2MetaCtr} {sbp : Ext2SuperBlock}
    (hrec : SuperBlksRecorded sbp m m') (idx : MetaVectIndex) (x : ℕ)
    (hidx : idx = .bgDescIdx ∨ idx = .tmpIdx) : x ∈ m'.takeBgDescs.metaBlks idx ↔
      ∃ y ∈ m'.metaBlks .sbIdx, (idx = .bgDescIdx ∨ y = sb0BlockNo) ∧
        ∃ i < m'.sb0.gdBlks, x = y + 1 + i := by
  rw [takeBgDescs, mem_foldl_recordBgDescs.2]
  have hold : ¬ x ∈ ((m'.clearBlks .tmpIdx).setStatus .sbsDetected).metaBlks idx := fun hx => by
    obtain ⟨hne, hx⟩ := mem_clearBlks.mp hx
    rcases hidx with rfl | rfl
    · exact hrec.rest .bgDescIdx (by decide) (by decide) x hx
    · exact hne rfl
  have hsb : ∀ y, y ∈ (((m'.clearBlks .tmpIdx).setStatus .sbsDetected).metaBlks .sbIdx).toList ↔
      y ∈ m'.metaBlks .sbIdx := fun y =>
    SortedVector.mem_toList.trans (mem_clearBlks.trans (and_iff_right (by decide)))
  simp only [hold, false_or, hsb]
  refine exists_congr fun y => and_congr_right fun _ => and_congr_left fun _ => ?_
  rcases hidx with rfl | rfl
  · simp
  · simp

/-- The super block describes few groups, and all its copies and the descriptors are on the device. -/
structure Ext2SuperBlock.OnDevice (sb : Ext2SuperBlock) : Prop where
  small : sb.gdCnt ≤ 8
  super : ∀ x, sb.IsSuperPos x → x < totalSmrBlocksCnt
  bgDesc : ∀ x, sb.IsDescPos x → x < totalSmrBlocksCnt

/-- What the detector derives from a super block is what the layout says. -/
theorem derivedOnDevice_iff_onDevice (m : Ext2MetaCtr) {sbp : Ext2SuperBlock}
    (h : sbp.isLegal = true) : DerivedOnDevice m sbp ↔ sbp.OnDevice := by
  obtain ⟨m', hm', hsb0, hrec⟩ := recordSuperBlks_start m sbp
  have hmem := mem_takeBgDescs hrec
  rw [hsb0] at hmem
  have hsuper : sbp.gdCnt ≤ 8 → ∀ x, x ∈ m'.metaBlks .sbIdx ↔ sbp.IsSuperPos x := fun hsmall x => by
    rw [hrec.super, hrec.small hsmall, Ext2SuperBlock.IsSuperPos]
  constructor
  · rintro ⟨m'', hm'', h1, h2⟩
    obtain rfl := Except.ok.inj (hm'.symm.trans hm'')
    have hsmall : sbp.gdCnt ≤ 8 := by
      -- If the group count has wrapped around, group 9 is past the end.
      refine (Ext2SuperBlock.gdCnt_cases h).resolve_right fun hw => ?_
      have h9 := h1 _ (Or.inr (hrec.wrapped hw))
      rw [Ext2SuperBlock.groupStart_eq h (le_refl 9), totalSmrBlocksCnt_eq] at h9
      omega
    refine ⟨hsmall, fun x hx => h1 x (Or.inl ((hsuper hsmall x).mpr hx)), ?_⟩
    rintro x ⟨y, hy, hi⟩
    exact h2 x (Or.inl ((hmem .bgDescIdx x (Or.inl rfl)).mpr
      ⟨y, (hsuper hsmall y).mpr hy, Or.inl rfl, hi⟩))
  · rintro ⟨hsmall, h1, h2⟩
    have hdesc : ∀ x, (∃ y ∈ m'.metaBlks .sbIdx, ∃ i < sbp.gdBlks, x = y + 1 + i) →
        x < totalSmrBlocksCnt := by
      rintro x ⟨y, hy, hi⟩
      exact h2 x ⟨y, (hsuper hsmall y).mp hy, hi⟩
    refine ⟨m', hm', ?_, ?_⟩
    · rintro x (hx | hx)
      · exact h1 x ((hsuper hsmall x).mp hx)
      · exact h1 x ((hsuper hsmall x).mp ((hrec.super x).mpr (Or.inr hx)))
    · rintro x (hx | hx)
      · obtain ⟨y, hy, -, hi⟩ := (hmem .bgDescIdx x (Or.inl rfl)).mp hx
        exact hdesc x ⟨y, hy, hi⟩
      · obtain ⟨y, hy, -, hi⟩ := (hmem .tmpIdx x (Or.inr rfl)).mp hx
        exact hdesc x ⟨y, hy, hi⟩

/-- The group count of a file system without blocks wraps around. -/
theorem Ext2SuperBlock.OnDevice.firstDataBlock_lt {sb : Ext2SuperBlock} (h : sb.OnDevice)
    (hlegal : sb.isLegal = true) : sb.sFirstDataBlock < sb.sBlocksCount := by
  obtain ⟨-, hle, -, -, -⟩ := Ext2SuperBlock.isLegal_iff.mp hlegal
  refine lt_of_le_of_ne hle fun heq => ?_
  have hw := Ext2SuperBlock.gdCnt_wrapped hlegal heq
  have hsmall := h.small
  omega

/-- When the positions that a legal super block gives are on the device. -/
theorem Ext2SuperBlock.onDevice_iff {sb : Ext2SuperBlock} (h : sb.isLegal = true) :
    sb.OnDevice ↔ sb.sFirstDataBlock < sb.sBlocksCount ∧
      ∀ g < sb.gdCnt, IsSparseGroup g →
        sb.sFirstDataBlock + g * sb.sBlocksPerGroup + 1 ≠ totalSmrBlocksCnt := by
  obtain ⟨-, -, -, hbpg, htotal⟩ := Ext2SuperBlock.isLegal_iff.mp h
  rw [hbpg]
  constructor
  · intro hon
    have hlt := hon.firstDataBlock_lt h
    refine ⟨hlt, fun g hg hsparse heq => ?_⟩
    obtain ⟨hstart, -⟩ := Ext2SuperBlock.groupStart_lt h hlt hg
    have hblks := Ext2SuperBlock.gdBlks_eq_one hon.small
    have hx := hon.bgDesc (sb.groupStart g + 1)
      ⟨sb.groupStart g, Or.inr ⟨g, hg, hsparse, rfl⟩, 0, by omega, rfl⟩
    omega
  · rintro ⟨hlt, hlast⟩
    have hsmall : sb.gdCnt ≤ 8 := by
      rw [Ext2SuperBlock.gdCnt_eq h hlt]
      rw [totalSmrBlocksCnt_eq] at htotal
      omega
    have hblks := Ext2SuperBlock.gdBlks_eq_one hsmall
    have h0 : sb0BlockNo + 1 < totalSmrBlocksCnt := descBlk_lt
    refine ⟨hsmall, ?_, ?_⟩
    · rintro x (rfl | ⟨g, hg, -, rfl⟩)
      · omega
      · exact (Ext2SuperBlock.groupStart_lt h hlt hg).2.trans_le htotal
    · rintro x ⟨y, rfl | ⟨g, hg, hsparse, rfl⟩, i, hi, rfl⟩
      · omega
      · obtain ⟨h1, h2⟩ := Ext2SuperBlock.groupStart_lt h hlt hg
        have h3 := hlast g hg hsparse
        omega

/-- **Block numbers derived from the super block.**  Those of a legal super block are on the device
just when it describes at least one block, and no group that holds a copy of it consists of the last
block of the device. -/
theorem derived_positions_iff (m : Ext2MetaCtr) (sbp : Ext2SuperBlock) (h : sbp.isLegal = true) :
    DerivedOnDevice m sbp ↔ sbp.sFirstDataBlock < sbp.sBlocksCount ∧
      ∀ g < sbp.gdCnt, IsSparseGroup g →
        sbp.sFirstDataBlock + g * sbp.sBlocksPerGroup + 1 ≠ totalSmrBlocksCnt :=
  (derivedOnDevice_iff_onDevice m h).trans (Ext2SuperBlock.onDevice_iff h)

/-- A file system of eight groups, which fill the device. -/
theorem derived_positions_8_groups :
    (Ext2SuperBlock.ofBlock (groupedSuperBlk 0 4) firstSuperBlockOffset).gdCnt = 8 ∧
      DerivedOnDevice freshArray.metaCtr
        (Ext2SuperBlock.ofBlock (groupedSuperBlk 0 4) firstSuperBlockOffset) := by
  refine ⟨by decide +kernel, (derived_positions_iff _ _ (by decide +kernel)).mpr
    ⟨by decide +kernel, fun g hg _ => ?_⟩⟩
  have hcnt : (Ext2SuperBlock.ofBlock (groupedSuperBlk 0 4) firstSuperBlockOffset).gdCnt = 8 := by
    decide +kernel
  have hfirst :
      (Ext2SuperBlock.ofBlock (groupedSuperBlk 0 4) firstSuperBlockOffset).sFirstDataBlock = 0 := by
    decide +kernel
  have hgroup : (Ext2SuperBlock.ofBlock (groupedSuperBlk 0 4)
      firstSuperBlockOffset).sBlocksPerGroup = 32768 := by
    decide +kernel
  rw [hcnt] at hg
  rw [hfirst, hgroup, totalSmrBlocksCnt_eq]
  omega

/-- Block 0 of a file system without blocks. -/
def emptySuperBlk : Block :=
  Block.ofBytes [(0x418, 2), (0x421, 0x80), (0x428, 32), (0x438, 0x53), (0x439, 0xEF)]

/-- **A legal super block that leads off the device.** -/
theorem derived_positions_empty :
    (Ext2SuperBlock.ofBlock emptySuperBlk firstSuperBlockOffset).isLegal = true ∧
      ¬ DerivedOnDevice freshArray.metaCtr
        (Ext2SuperBlock.ofBlock emptySuperBlk firstSuperBlockOffset) := by
  have hlegal : (Ext2SuperBlock.ofBlock emptySuperBlk firstSuperBlockOffset).isLegal = true := by
    decide +kernel
  refine ⟨hlegal, fun h => ?_⟩
  have hlt := ((derivedOnDevice_iff_onDevice _ hlegal).mp h).firstDataBlock_lt hlegal
  exact absurd hlt (by decide +kernel)

end MemSmr
