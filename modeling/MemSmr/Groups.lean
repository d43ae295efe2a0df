import MemSmr.Positions

/-!
# Block groups on a disk of any size

`is_legal_super_block` compares the number of blocks with `SMR_DISK_SIZE`.  With the size that the
repository sets there are at most 8 groups; here it is a parameter, and the number of groups is
arbitrary.

* `scanned_all_iff`: for which group counts the scan reaches every group with a super block.
* `super_blocks_complete_iff`: what that means for `SB_IDX`.
-/

namespace MemSmr

open Outcome Ext2MetaCtr

/-! ## Legal super blocks -/

namespace Ext2SuperBlock

variable {sb : Ext2SuperBlock} {diskSize : ℕ}

/-- `is_legal_super_block` in a module that is built with another `SMR_DISK_SIZE`. -/
def isLegalOn (diskSize : ℕ) (sbp : Ext2SuperBlock) : Bool :=
  if sbp.sMagic ≠ ext2MagicNumber then false
  else if sbp.sBlocksCount < sbp.sFirstDataBlock then false
  else if 2 < sbp.sLogBlockSize then false
  else if sbp.sLogBlockSize < 2 then false
  else if sbp.sBlocksPerGroup ≠ blkSize sbp.sLogBlockSize * 8 then false
  else if diskSize / blkSize sbp.sLogBlockSize < sbp.sBlocksCount then false
  else true

theorem isLegal_eq_isLegalOn (sb : Ext2SuperBlock) : sb.isLegal = sb.isLegalOn smrDiskSize := rfl

theorem isLegalOn_iff : sb.isLegalOn diskSize = true ↔ sb.sMagic = ext2MagicNumber ∧
    sb.sFirstDataBlock ≤ sb.sBlocksCount ∧ sb.sLogBlockSize = 2 ∧ sb.sBlocksPerGroup = 32768 ∧
    sb.sBlocksCount ≤ diskSize / 4096 := by
  have hsize : blkSize 2 = 4096 := by decide
  rw [isLegalOn]
  by_cases hlog : sb.sLogBlockSize = 2
  · rw [hlog, hsize]
    split_ifs <;> simp <;> omega
  · split_ifs <;> simp <;> omega

theorem sBlocksCount_lt (sb : Ext2SuperBlock) : sb.sBlocksCount < 2 ^ 32 := sb.bytes.le32_lt _

/-- The group count on `__u32`. -/
theorem gdCnt_le (h : sb.isLegalOn diskSize = true) : sb.gdCnt ≤ 131072 := by
  obtain ⟨-, -, -, hbpg, -⟩ := isLegalOn_iff.mp h
  rw [gdCnt, hbpg]
  omega

/-- Different groups start at different blocks. -/
theorem groupStart_inj (h : sb.isLegalOn diskSize = true) {g g' : ℕ} (hg : g < sb.gdCnt)
    (hg' : g' < sb.gdCnt) (heq : sb.groupStart g = sb.groupStart g') : g = g' := by
  obtain ⟨-, -, -, hbpg, -⟩ := isLegalOn_iff.mp h
  have hle := gdCnt_le h
  rw [groupStart, groupStart, hbpg] at heq
  omega

/-- Only a file system without blocks can have another group start at block 0. -/
theorem groupStart_of_lt (h : sb.isLegalOn diskSize = true)
    (hlt : sb.sFirstDataBlock < sb.sBlocksCount) {g : ℕ} (hg : g < sb.gdCnt) :
    sb.groupStart g = sb.sFirstDataBlock + g * 32768 := by
  obtain ⟨-, -, -, hbpg, -⟩ := isLegalOn_iff.mp h
  have hcount := sb.sBlocksCount_lt
  rw [gdCnt, hbpg] at hg
  rw [groupStart, hbpg]
  omega

theorem gdCnt_of_eq (h : sb.isLegalOn diskSize = true)
    (heq : sb.sFirstDataBlock = sb.sBlocksCount) : sb.gdCnt = 131072 := by
  obtain ⟨-, -, -, hbpg, -⟩ := isLegalOn_iff.mp h
  have hcount := sb.sBlocksCount_lt
  rw [gdCnt, hbpg]
  omega

end Ext2SuperBlock

/-! ## The sparse groups that the scan misses -/

/-- A power of 3 is in no other round. -/
theorem AtRound.eq_of_pow_three {r k : ℕ} (hk : 0 < k) (h : AtRound r (3 ^ k)) : r = k := by
  have hdvd : 3 ∣ 3 ^ k := dvd_pow_self 3 hk.ne'
  rcases h with h | h | h
  · exact (Nat.pow_right_injective (by decide : 2 ≤ 3) h).symm
  · rw [h] at hdvd
    exact absurd (Nat.prime_three.dvd_of_dvd_pow hdvd) (by decide)
  · rw [h] at hdvd
    exact absurd (Nat.prime_three.dvd_of_dvd_pow hdvd) (by decide)

/-- A power of 3 is not recorded when the round before its own has ended the scan. -/
theorem not_isScannedGroup_pow {gdCnt k : ℕ} (hk : 1 < k) (h : gdCnt ≤ 7 ^ (k - 1)) :
    ¬ IsScannedGroup gdCnt (3 ^ k) := by
  rintro ⟨-, h1 | ⟨r, -, hr, hround⟩⟩
  · have hlt : 1 < 3 ^ k := Nat.one_lt_pow (by omega) (by decide)
    omega
  · rw [AtRound.eq_of_pow_three (by omega) hround] at hr
    omega

/-- A group count for which the scan misses no group. -/
def ScansAll (gdCnt : ℕ) : Prop := gdCnt ≤ 27 ∨ 50 ≤ gdCnt ∧ gdCnt ≤ 81

theorem ScansAll.isScannedGroup {gdCnt g : ℕ} (h : ScansAll gdCnt) (hg : g < gdCnt)
    (hsparse : IsSparseGroup g) : IsScannedGroup gdCnt g := by
  rcases hsparse with rfl | ⟨k, hk, hround⟩
  · exact ⟨hg, Or.inl rfl⟩
  · refine ⟨hg, Or.inr ⟨k, hk, ?_, hround⟩⟩
    have hle := AtRound.le hround
    have hk4 : k < 4 := by
      by_contra hge
      have h81 : 3 ^ 4 ≤ 3 ^ k := Nat.pow_le_pow_right (by decide) (by omega)
      rcases h with h | h <;> omega
    rcases h with h | h <;> interval_cases k <;> omega

/-- For every other group count some power of 3 is missed; two of them when the count has wrapped
around. -/
theorem exists_missed {gdCnt : ℕ} (h : ¬ ScansAll gdCnt) (hle : gdCnt ≤ 131072) :
    ∃ k, 1 < k ∧ 3 ^ k < gdCnt ∧ gdCnt ≤ 7 ^ (k - 1) ∧ (gdCnt = 131072 → k = 8) := by
  rw [ScansAll] at h
  rcases Nat.lt_or_ge gdCnt 50 with h1 | h1
  · exact ⟨3, by omega⟩
  rcases Nat.lt_or_ge gdCnt 344 with h2 | h2
  · exact ⟨4, by omega⟩
  rcases Nat.lt_or_ge gdCnt 2402 with h3 | h3
  · exact ⟨5, by omega⟩
  rcases Nat.lt_or_ge gdCnt 16808 with h4 | h4
  · exact ⟨6, by omega⟩
  rcases Nat.lt_or_ge gdCnt 117650 with h5 | h5
  · exact ⟨7, by omega⟩
  exact ⟨8, by omega⟩

/-- What `SB_IDX` holds after `detect_SB0_if_NO_SB0`. -/
def Ext2SuperBlock.IsScannedPos (sb : Ext2SuperBlock) (x : ℕ) : Prop :=
  x = sb0BlockNo ∨ ∃ g, IsScannedGroup sb.gdCnt g ∧ x = sb.groupStart g

theorem Ext2SuperBlock.IsScannedPos.isSuperPos {sb : Ext2SuperBlock} {x : ℕ}
    (h : sb.IsScannedPos x) : sb.IsSuperPos x := by
  rcases h with h | ⟨g, hg, h⟩
  · exact Or.inl h
  · exact Or.inr ⟨g, hg.1, hg.isSparseGroup, h⟩

/-- The first block of a group that the scan misses is not recorded, unless it is block 0. -/
theorem Ext2SuperBlock.not_isScannedPos {sb : Ext2SuperBlock} {diskSize g : ℕ}
    (h : sb.isLegalOn diskSize = true) (hg : g < sb.gdCnt) (hmiss : ¬ IsScannedGroup sb.gdCnt g)
    (h0 : sb.groupStart g ≠ sb0BlockNo) : ¬ sb.IsScannedPos (sb.groupStart g) := by
  rintro (heq | ⟨g', hg', heq⟩)
  · exact h0 heq
  · rw [Ext2SuperBlock.groupStart_inj h hg hg'.1 heq] at hmiss
    exact hmiss hg'

theorem Ext2SuperBlock.scanned_all_iff {sb : Ext2SuperBlock} {diskSize : ℕ}
    (h : sb.isLegalOn diskSize = true) :
    (∀ x, sb.IsScannedPos x ↔ sb.IsSuperPos x) ↔ ScansAll sb.gdCnt := by
  constructor
  · intro hall
    by_contra hnot
    obtain ⟨k, hk, hlt, hle, hwrap⟩ := exists_missed hnot (Ext2SuperBlock.gdCnt_le h)
    -- The missed group starts behind block 0, or there is another one that does.
    have hfind : ∃ j, 1 < j ∧ 3 ^ j < sb.gdCnt ∧ sb.gdCnt ≤ 7 ^ (j - 1) ∧
        sb.groupStart (3 ^ j) ≠ sb0BlockNo := by
      by_cases h0 : sb.groupStart (3 ^ k) = sb0BlockNo
      · have heq : sb.sFirstDataBlock = sb.sBlocksCount := by
          refine (Ext2SuperBlock.isLegalOn_iff.mp h).2.1.eq_or_lt.resolve_right fun hlt' => ?_
          have hpos : 0 < 3 ^ k := Nat.pow_pos (by decide)
          rw [Ext2SuperBlock.groupStart_of_lt h hlt' hlt] at h0
          have h00 : sb0BlockNo = 0 := rfl
          omega
        have hgd := Ext2SuperBlock.gdCnt_of_eq h heq
        refine ⟨9, by decide, by omega, by omega, fun h9 => ?_⟩
        have hsame := Ext2SuperBlock.groupStart_inj h hlt (by omega) (h0.trans h9.symm)
        have hk8 := hwrap hgd
        rw [hk8] at hsame
        omega
      · exact ⟨k, hk, hlt, hle, h0⟩
    obtain ⟨j, hj, hjlt, hjle, hj0⟩ := hfind
    exact Ext2SuperBlock.not_isScannedPos h hjlt (not_isScannedGroup_pow hj hjle) hj0
      ((hall _).mpr (Or.inr ⟨_, hjlt, Or.inr ⟨j, by omega, Or.inl rfl⟩, rfl⟩))
  · intro hall x
    refine ⟨fun hx => hx.isSuperPos, ?_⟩
    rintro (hx | ⟨g, hg, hsparse, hx⟩)
    · exact Or.inl hx
    · exact Or.inr ⟨g, hall.isScannedGroup hg hsparse, hx⟩

/-! ## The super blocks -/

theorem mem_takeSuperBlk (m : Ext2MetaCtr) (sb : Ext2SuperBlock) :
    ∃ m', m.takeSuperBlk sb = .ok m' ∧ m'.sb0 = sb ∧
      (∀ x, x ∈ m'.metaBlks .sbIdx ↔ sb.IsScannedPos x) := by
  obtain ⟨m', hm', honly, hmem⟩ :=
    mem_recordSuperBlks { m.setStatus .sb0Detected with sb0 := sb } sb
  refine ⟨m', hm', honly.sb0, fun x => ?_⟩
  rw [hmem, Ext2SuperBlock.IsScannedPos]
  simp

/-- **The scan for the super blocks.**  It ends for every group count, and it records the first blocks
of exactly the groups that hold a super block just when there are at most 27 groups or between 50 and
81: all three sequences stop in the first round in which one of them is past the last group. -/
theorem super_blocks_complete_iff (diskSize : ℕ) (m : Ext2MetaCtr) (sb : Ext2SuperBlock)
    (h : sb.isLegalOn diskSize = true) :
    ∃ m', m.takeSuperBlk sb = .ok m' ∧ ((∀ x, x ∈ m'.metaBlks .sbIdx ↔ sb.IsSuperPos x) ↔
      sb.gdCnt ≤ 27 ∨ 50 ≤ sb.gdCnt ∧ sb.gdCnt ≤ 81) := by
  obtain ⟨m', hm', -, hmem⟩ := mem_takeSuperBlk m sb
  refine ⟨m', hm', ?_⟩
  rw [← ScansAll, ← Ext2SuperBlock.scanned_all_iff h]
  exact forall_congr' fun x => iff_congr (hmem x) Iff.rfl

/-- With 64 groups every copy is found: the third round of the scan records group 27 before it stops. -/
theorem super_blocks_complete_64_groups :
    (Ext2SuperBlock.ofBlock (groupedSuperBlk 0 32) firstSuperBlockOffset).gdCnt = 64 ∧
      ∃ m', freshArray.metaCtr.takeSuperBlk
          (Ext2SuperBlock.ofBlock (groupedSuperBlk 0 32) firstSuperBlockOffset) = .ok m' ∧
        ∀ x, x ∈ m'.metaBlks .sbIdx ↔
          (Ext2SuperBlock.ofBlock (groupedSuperBlk 0 32) firstSuperBlockOffset).IsSuperPos x := by
  have hcnt : (Ext2SuperBlock.ofBlock (groupedSuperBlk 0 32) firstSuperBlockOffset).gdCnt = 64 := by
    decide +kernel
  obtain ⟨m', hm', hiff⟩ := super_blocks_complete_iff (2 ^ 33) freshArray.metaCtr
    (Ext2SuperBlock.ofBlock (groupedSuperBlk 0 32) firstSuperBlockOffset) (by decide +kernel)
  refine ⟨hcnt, m', hm', hiff.mpr (Or.inr ?_)⟩
  rw [hcnt]
  decide

/-- **With 28 groups, group 27 is missed.** -/
theorem super_blocks_missed :
    (Ext2SuperBlock.ofBlock (groupedSuperBlk 0 14) firstSuperBlockOffset).isLegalOn (2 ^ 32) = true ∧
      (Ext2SuperBlock.ofBlock (groupedSuperBlk 0 14) firstSuperBlockOffset).gdCnt = 28 ∧
      ¬ ∃ m', freshArray.metaCtr.takeSuperBlk
            (Ext2SuperBlock.ofBlock (groupedSuperBlk 0 14) firstSuperBlockOffset) = .ok m' ∧
          ∀ x, x ∈ m'.metaBlks .sbIdx ↔
            (Ext2SuperBlock.ofBlock (groupedSuperBlk 0 14) firstSuperBlockOffset).IsSuperPos x := by
  have hlegal : (Ext2SuperBlock.ofBlock (groupedSuperBlk 0 14) firstSuperBlockOffset).isLegalOn
      (2 ^ 32) = true := by decide +kernel
  have hcnt : (Ext2SuperBlock.ofBlock (groupedSuperBlk 0 14) firstSuperBlockOffset).gdCnt = 28 := by
    decide +kernel
  refine ⟨hlegal, hcnt, ?_⟩
  rintro ⟨m', hm', hall⟩
  obtain ⟨m'', hm'', -, hmem⟩ := mem_takeSuperBlk freshArray.metaCtr
    (Ext2SuperBlock.ofBlock (groupedSuperBlk 0 14) firstSuperBlockOffset)
  obtain rfl := Except.ok.inj (hm'.symm.trans hm'')
  have hscan := (Ext2SuperBlock.scanned_all_iff hlegal).mp fun x => (hmem x).symm.trans (hall x)
  rw [hcnt, ScansAll] at hscan
  omega

end MemSmr
