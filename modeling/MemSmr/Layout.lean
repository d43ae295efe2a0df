import MemSmr.Ext2Meta

/-!
# The layout of the file system

What the super block and the group descriptors say about the positions of the metadata, and that
the functions of the detector which fill the vectors record exactly these positions.

* `IsSuperPos`, `IsDescPos`, `IsBlkBmpPos`, `IsInoBmpPos`, `IsInoTablePos`: the positions.
* `gdCnt_cases`: a legal super block describes at most 8 groups, or the count has wrapped around.
* `sbScanLoop_spec`, `mem_recordSuperBlks`: which groups the scan for the super blocks reaches.
* `recordSuperBlks_start`, `mem_foldl_recordBgDescs`, `mem_doGroupDescriptors`: what is recorded.
-/

namespace MemSmr

/-! ## Positions -/

/-- The groups after the first that hold a copy of the super block: group 1 and the powers of 3, 5
and 7. -/
def IsSparseGroup (g : ℕ) : Prop := g = 1 ∨ ∃ k, 0 < k ∧ (g = 3 ^ k ∨ g = 5 ^ k ∨ g = 7 ^ k)

/-- The descriptor of group `g`, in the descriptor blocks after block 0. -/
def groupDesc (disk : ℕ → Block) (g : ℕ) : Ext2GroupDesc :=
  Ext2GroupDesc.ofBlock (disk (sb0BlockNo + 1 + g / (ext2BlockSize / sizeofGroupDesc)))
    (g % (ext2BlockSize / sizeofGroupDesc))

namespace Ext2SuperBlock

variable (sb : Ext2SuperBlock)

/-- A copy of the super block is in block `x`. -/
def IsSuperPos (x : ℕ) : Prop :=
  x = sb0BlockNo ∨ ∃ g < sb.gdCnt, IsSparseGroup g ∧ x = sb.groupStart g

/-- Group descriptors are in block `x`. -/
def IsDescPos (x : ℕ) : Prop := ∃ y, sb.IsSuperPos y ∧ ∃ i < sb.gdBlks, x = y + 1 + i

/-- Block `x` is a block bitmap. -/
def IsBlkBmpPos (disk : ℕ → Block) (x : ℕ) : Prop :=
  ∃ g < sb.gdCnt, x = (groupDesc disk g).bgBlockBitmap

/-- Block `x` is an inode bitmap. -/
def IsInoBmpPos (disk : ℕ → Block) (x : ℕ) : Prop :=
  ∃ g < sb.gdCnt, x = (groupDesc disk g).bgInodeBitmap

/-- The number of blocks of an inode table. -/
def tableBlks : ℕ := (sb.sInodesPerGroup * sizeofInode + (ext2BlockSize - 1)) / ext2BlockSize

/-- Block `x` belongs to an inode table. -/
def IsInoTablePos (disk : ℕ → Block) (x : ℕ) : Prop :=
  ∃ g < sb.gdCnt, ∃ i < sb.tableBlks, x = ((groupDesc disk g).bgInodeTable + i) % 2 ^ 32

/-! ## Legal super blocks -/

variable {sb}

/-- What `is_legal_super_block` checks. -/
theorem isLegal_iff : sb.isLegal = true ↔ sb.sMagic = ext2MagicNumber ∧
    sb.sFirstDataBlock ≤ sb.sBlocksCount ∧ sb.sLogBlockSize = 2 ∧ sb.sBlocksPerGroup = 32768 ∧
    sb.sBlocksCount ≤ totalSmrBlocksCnt := by
  have hdisk : smrDiskSize / blkSize 2 = 262144 := by decide
  have hgroup : blkSize 2 * 8 = 32768 := by decide
  rw [isLegal, totalSmrBlocksCnt_eq]
  by_cases hlog : sb.sLogBlockSize = 2
  · rw [hlog, hdisk, hgroup]
    split_ifs <;> simp <;> omega
  · split_ifs <;> simp <;> omega

/-- **The number of groups of a legal super block.**  The second case is a file system without
blocks, for which the subtraction wraps around. -/
theorem gdCnt_cases (h : sb.isLegal = true) : sb.gdCnt ≤ 8 ∨ sb.gdCnt = 131072 := by
  obtain ⟨-, h1, -, h2, h3⟩ := isLegal_iff.mp h
  rw [gdCnt, h2]
  rw [totalSmrBlocksCnt_eq] at h3
  omega

theorem gdCnt_pos : 0 < sb.gdCnt := Nat.succ_pos _

theorem gdBlks_eq_one (h : sb.gdCnt ≤ 8) : sb.gdBlks = 1 := by
  have := sb.gdCnt_pos
  rw [gdBlks]
  simp only [sizeofGroupDesc, ext2BlockSize]
  omega

/-- The `int` arithmetic of `do_group_descriptor` rounds up. -/
theorem inodeTableBlks_eq : sb.inodeTableBlks = sb.tableBlks := by
  have h : sb.sInodesPerGroup < 2 ^ 32 := sb.bytes.le32_lt _
  rw [inodeTableBlks, tableBlks]
  simp only [sizeofInode, ext2BlockSize]
  omega

theorem tableBlks_le : sb.tableBlks ≤ 2 ^ 27 := by
  have h : sb.sInodesPerGroup < 2 ^ 32 := sb.bytes.le32_lt _
  rw [tableBlks]
  simp only [sizeofInode, ext2BlockSize]
  omega

/-- The start of a group of a small file system does not wrap around. -/
theorem groupStart_eq (h : sb.isLegal = true) {g : ℕ} (hg : g ≤ 9) :
    sb.groupStart g = sb.sFirstDataBlock + g * 32768 := by
  obtain ⟨-, h1, -, h2, h3⟩ := isLegal_iff.mp h
  rw [totalSmrBlocksCnt_eq] at h3
  rw [groupStart, h2]
  omega

end Ext2SuperBlock

/-- No sparse group is among the last ones whose number fits in 17 bits. -/
theorem IsSparseGroup.lt_of_lt {g : ℕ} (h : IsSparseGroup g) (hg : g < 131072) : 0 < g ∧ g < 131064 := by
  obtain rfl | ⟨k, -, hpow⟩ := h
  · decide
  · rcases Nat.lt_or_ge k 11 with hk | hk
    · -- Only few powers are that small.
      interval_cases k <;> omega
    · have h3 : 3 ^ 11 ≤ 3 ^ k := Nat.pow_le_pow_right (by decide) hk
      have h5 : 5 ^ 11 ≤ 5 ^ k := Nat.pow_le_pow_right (by decide) hk
      have h7 : 7 ^ 11 ≤ 7 ^ k := Nat.pow_le_pow_right (by decide) hk
      omega

/-- No group with a copy of the super block starts at block 0, also when the group count has wrapped
around. -/
theorem Ext2SuperBlock.groupStart_ne_zero {sb : Ext2SuperBlock} (h : sb.isLegal = true) {g : ℕ}
    (hg : g < sb.gdCnt) (hsparse : IsSparseGroup g) : sb.groupStart g ≠ sb0BlockNo := by
  obtain ⟨-, hle, -, hper, hmax⟩ := Ext2SuperBlock.isLegal_iff.mp h
  rw [totalSmrBlocksCnt_eq] at hmax
  have hlt : g < 131072 := by
    rcases Ext2SuperBlock.gdCnt_cases h with h8 | hw <;> omega
  obtain ⟨h1, h2⟩ := hsparse.lt_of_lt hlt
  rw [Ext2SuperBlock.groupStart, hper]
  change _ ≠ 0
  omega

/-! ## The vectors -/

namespace Ext2MetaCtr

@[simp] theorem mem_insertBlk {m : Ext2MetaCtr} {idx idx' : MetaVectIndex} {b x : ℕ} :
    x ∈ (m.insertBlk idx b).metaBlks idx' ↔ idx' = idx ∧ x = b ∨ x ∈ m.metaBlks idx' := by
  simp only [insertBlk, setVect]
  by_cases h : idx' = idx
  · subst h
    rw [Function.update_self, SortedVector.mem_insert]
    simp
  · rw [Function.update_of_ne h]
    simp [h]

@[simp] theorem mem_clearBlks {m : Ext2MetaCtr} {idx idx' : MetaVectIndex} {x : ℕ} :
    x ∈ (m.clearBlks idx).metaBlks idx' ↔ idx' ≠ idx ∧ x ∈ m.metaBlks idx' := by
  simp only [clearBlks, setVect]
  by_cases h : idx' = idx
  · subst h
    rw [Function.update_self]
    simp
  · rw [Function.update_of_ne h]
    simp [h]

/-- `TMP_IDX` becomes a copy of another vector. -/
theorem mem_refillTmp {m : Ext2MetaCtr} {idx idx' : MetaVectIndex} {x : ℕ} :
    x ∈ (m.refillTmp idx).metaBlks idx' ↔
      x ∈ m.metaBlks (if idx' = .tmpIdx then idx else idx') := by
  simp only [refillTmp, setVect]
  by_cases h : idx' = .tmpIdx
  · subst h
    rw [Function.update_self, if_pos rfl]
    simp
  · rw [Function.update_of_ne h, if_neg h]

/-- Only the vectors of the control struct have changed. -/
def OnlyVects (m m' : Ext2MetaCtr) : Prop := m' = { m with metaBlks := m'.metaBlks }

theorem OnlyVects.refl (m : Ext2MetaCtr) : OnlyVects m m := rfl

theorem OnlyVects.trans {m m' m'' : Ext2MetaCtr} (h : OnlyVects m m') (h' : OnlyVects m' m'') :
    OnlyVects m m'' := by
  rw [OnlyVects] at *
  rw [h', h]

theorem onlyVects_insertBlk (m : Ext2MetaCtr) (idx : MetaVectIndex) (b : ℕ) :
    OnlyVects m (m.insertBlk idx b) := rfl

theorem onlyVects_insertSuperBlk (m : Ext2MetaCtr) (sbp : Ext2SuperBlock) (g : ℕ) :
    OnlyVects m (m.insertSuperBlk sbp g) := rfl

theorem OnlyVects.sb0 {m m' : Ext2MetaCtr} (h : OnlyVects m m') : m'.sb0 = m.sb0 := by rw [h]

theorem OnlyVects.status {m m' : Ext2MetaCtr} (h : OnlyVects m m') : m'.status = m.status := by
  rw [h]

/-! ## The super blocks -/

theorem onlyVects_clearBlks (m : Ext2MetaCtr) (idx : MetaVectIndex) :
    OnlyVects m (m.clearBlks idx) := rfl

theorem onlyVects_clearAll (l : List MetaVectIndex) (m : Ext2MetaCtr) :
    OnlyVects m (l.foldl clearBlks m) := by
  induction l generalizing m with
  | nil => exact .refl m
  | cons idx l ih => exact (onlyVects_clearBlks m idx).trans (ih _)

/-- After the vectors have been cleared. -/
theorem mem_clearAll {m : Ext2MetaCtr} {idx : MetaVectIndex} {x : ℕ} :
    ¬ x ∈ (MetaVectIndex.all.foldl clearBlks m).metaBlks idx := by
  simp only [MetaVectIndex.all, List.foldl_cons, List.foldl_nil, mem_clearBlks]
  cases idx <;> simp

theorem sbScanRound_over {sbp : Ext2SuperBlock} {tmp : Fin 3 → ℕ} {m : Ext2MetaCtr} (i : Fin 3) :
    sbScanRound sbp ⟨tmp, true, m⟩ i = ⟨tmp, true, m⟩ := by rw [sbScanRound, if_pos rfl]

theorem sbScanRound_stop {sbp : Ext2SuperBlock} {tmp : Fin 3 → ℕ} {m : Ext2MetaCtr} {i : Fin 3}
    (hle : sbp.gdCnt ≤ tmp i) : sbScanRound sbp ⟨tmp, false, m⟩ i = ⟨tmp, true, m⟩ := by
  rw [sbScanRound, if_neg Bool.false_ne_true, if_pos hle]

theorem sbScanRound_go {sbp : Ext2SuperBlock} {tmp : Fin 3 → ℕ} {m : Ext2MetaCtr} {i : Fin 3}
    (hlt : tmp i < sbp.gdCnt) : sbScanRound sbp ⟨tmp, false, m⟩ i =
      ⟨Function.update tmp i (tmp i * bgNo i), false, m.insertSuperBlk sbp (tmp i)⟩ := by
  rw [sbScanRound, if_neg Bool.false_ne_true, if_neg (Nat.not_le.mpr hlt)]

theorem mem_insertSuperBlk {m : Ext2MetaCtr} {sbp : Ext2SuperBlock} {g x : ℕ}
    {idx : MetaVectIndex} : x ∈ (m.insertSuperBlk sbp g).metaBlks idx ↔
      (idx = .sbIdx ∨ idx = .tmpIdx) ∧ x = sbp.groupStart g ∨ x ∈ m.metaBlks idx := by
  rw [insertSuperBlk, mem_insertBlk, mem_insertBlk]
  tauto

/-- The vectors hold what they held, and the starts of the groups in `l`. -/
structure Recorded (sbp : Ext2SuperBlock) (m : Ext2MetaCtr) (l : List ℕ) (m' : Ext2MetaCtr) :
    Prop where
  only : OnlyVects m m'
  mem : ∀ idx x, x ∈ m'.metaBlks idx ↔
    x ∈ m.metaBlks idx ∨ (idx = .sbIdx ∨ idx = .tmpIdx) ∧ ∃ g ∈ l, x = sbp.groupStart g

theorem Recorded.nil (sbp : Ext2SuperBlock) (m : Ext2MetaCtr) : Recorded sbp m [] m :=
  ⟨rfl, fun _ _ => by simp⟩

theorem Recorded.insert {sbp : Ext2SuperBlock} {m m' : Ext2MetaCtr} {l : List ℕ}
    (h : Recorded sbp m l m') (g : ℕ) : Recorded sbp m (g :: l) (m'.insertSuperBlk sbp g) := by
  refine ⟨h.only.trans (onlyVects_insertSuperBlk _ _ _), fun idx x => ?_⟩
  rw [mem_insertSuperBlk, h.mem, List.exists_mem_cons_iff]
  tauto

theorem Recorded.trans {sbp : Ext2SuperBlock} {m m' m'' : Ext2MetaCtr} {l l' : List ℕ}
    (h : Recorded sbp m l m') (h' : Recorded sbp m' l' m'') : Recorded sbp m (l ++ l') m'' := by
  refine ⟨h.only.trans h'.only, fun idx x => ?_⟩
  rw [h'.mem, h.mem, or_assoc, ← and_or_left]
  simp only [List.mem_append, or_and_right, exists_or]

/-- The groups that the three sequences are at in round `r`. -/
def bgPow (r : ℕ) (i : Fin 3) : ℕ := bgNo i ^ r

theorem bgPow_one : bgPow 1 = bgNo := funext fun _ => pow_one _

theorem bgPow_lt {r : ℕ} (hr : 0 < r) : bgPow r 0 < bgPow r 1 ∧ bgPow r 1 < bgPow r 2 :=
  ⟨Nat.pow_lt_pow_left (by decide) (by omega), Nat.pow_lt_pow_left (by decide) (by omega)⟩

/-- Group `g` is at one of the three sequences in round `r`. -/
def AtRound (r g : ℕ) : Prop := g = 3 ^ r ∨ g = 5 ^ r ∨ g = 7 ^ r

theorem atRound_iff {r g : ℕ} :
    AtRound r g ↔ g = bgPow r 0 ∨ g = bgPow r 1 ∨ g = bgPow r 2 := Iff.rfl

theorem AtRound.le {r g : ℕ} (h : AtRound r g) : 3 ^ r ≤ g := by
  rcases h with rfl | rfl | rfl
  · exact le_refl _
  · exact Nat.pow_le_pow_left (by decide) r
  · exact Nat.pow_le_pow_left (by decide) r

theorem AtRound.isSparseGroup {r g : ℕ} (hr : 0 < r) (h : AtRound r g) : IsSparseGroup g :=
  Or.inr ⟨r, hr, h⟩

/-- **One round over the three sequences.**  It records their groups up to the first that does not
exist, and the scan goes on only when all three do. -/
theorem sbScanRounds_spec (sbp : Ext2SuperBlock) (m : Ext2MetaCtr) {r : ℕ} (hr : 0 < r) :
    ∃ tmp m' l, [0, 1, 2].foldl (sbScanRound sbp) ⟨bgPow r, false, m⟩ =
        ⟨tmp, decide (sbp.gdCnt ≤ bgPow r 2), m'⟩ ∧ Recorded sbp m l m' ∧
      (∀ g, g ∈ l ↔ g < sbp.gdCnt ∧ AtRound r g) ∧
      (bgPow r 2 < sbp.gdCnt → tmp = bgPow (r + 1)) := by
  have h0 := Recorded.nil sbp m
  obtain ⟨h01, h12⟩ := bgPow_lt hr
  have hupd : ∀ v, Function.update (bgPow r) 0 v 1 = bgPow r 1 := fun v =>
    Function.update_of_ne (by decide) _ _
  have hupd' : ∀ v w, Function.update (Function.update (bgPow r) 0 v) 1 w 2 = bgPow r 2 :=
    fun v w => (Function.update_of_ne (by decide) _ _).trans
      (Function.update_of_ne (by decide) _ _)
  rw [List.foldl_cons, List.foldl_cons, List.foldl_cons, List.foldl_nil]
  simp only [atRound_iff]
  rcases Nat.lt_or_ge (bgPow r 0) sbp.gdCnt with h3 | h3
  · rw [sbScanRound_go h3]
    rcases Nat.lt_or_ge (bgPow r 1) sbp.gdCnt with h5 | h5
    · rw [sbScanRound_go (i := 1) (by rw [hupd]; exact h5), hupd]
      rcases Nat.lt_or_ge (bgPow r 2) sbp.gdCnt with h7 | h7
      · rw [sbScanRound_go (i := 2) (by rw [hupd']; exact h7), hupd',
          decide_eq_false (Nat.not_le.mpr h7)]
        refine ⟨_, _, _, rfl, ((h0.insert _).insert _).insert _, fun g => ?_, fun _ => ?_⟩
        · simp only [List.mem_cons, List.not_mem_nil, or_false]
          omega
        · funext i
          match i with
          | 0 => rfl
          | 1 => rfl
          | 2 => rfl
      · rw [sbScanRound_stop (i := 2) (by rw [hupd']; exact h7), decide_eq_true h7]
        refine ⟨_, _, _, rfl, (h0.insert _).insert _, fun g => ?_, fun h => by omega⟩
        rw [List.mem_pair]
        omega
    · rw [sbScanRound_stop (i := 1) (by rw [hupd]; exact h5), sbScanRound_over,
        decide_eq_true (by omega)]
      refine ⟨_, _, _, rfl, h0.insert _, fun g => ?_, fun h => by omega⟩
      rw [List.mem_singleton]
      omega
  · rw [sbScanRound_stop h3, sbScanRound_over, sbScanRound_over, decide_eq_true (by omega)]
    refine ⟨_, _, _, rfl, h0, fun g => ?_, fun h => by omega⟩
    simp only [List.not_mem_nil, false_iff]
    omega

theorem sbScanLoop_over {sbp : Ext2SuperBlock} {tmp : Fin 3 → ℕ} {m : Ext2MetaCtr} (fuel : ℕ) :
    sbScanLoop sbp (fuel + 1) ⟨tmp, true, m⟩ = .ok ⟨tmp, true, m⟩ := by
  rw [sbScanLoop, if_pos rfl]

theorem sbScanLoop_next {sbp : Ext2SuperBlock} {tmp : Fin 3 → ℕ} {m : Ext2MetaCtr} (fuel : ℕ) :
    sbScanLoop sbp (fuel + 1) ⟨tmp, false, m⟩ =
      sbScanLoop sbp fuel ([0, 1, 2].foldl (sbScanRound sbp) ⟨tmp, false, m⟩) := by
  rw [sbScanLoop, if_neg Bool.false_ne_true]

/-- **The scan ends.**  From round `r` on it records the groups of every round that it starts, and it
starts a round only when the last group of the round before exists. -/
theorem sbScanLoop_spec {sbp : Ext2SuperBlock} (n : ℕ) {r : ℕ} (m : Ext2MetaCtr) (hr : 0 < r)
    (hlt : 7 ^ (r - 1) < sbp.gdCnt) (hfuel : sbp.gdCnt + 2 ≤ n + r) :
    ∃ st l, sbScanLoop sbp n ⟨bgPow r, false, m⟩ = .ok st ∧ Recorded sbp m l st.ctr ∧
      ∀ g, g ∈ l ↔ g < sbp.gdCnt ∧ ∃ k, r ≤ k ∧ 7 ^ (k - 1) < sbp.gdCnt ∧ AtRound k g := by
  have hround : r - 1 < 7 ^ (r - 1) := Nat.lt_pow_self (by decide)
  induction n generalizing r m with
  | zero => omega
  | succ n ih =>
    obtain ⟨n, rfl⟩ : ∃ n', n = n' + 1 := ⟨n - 1, by omega⟩
    obtain ⟨tmp, m', l, heq, hrec, hl, htmp⟩ := sbScanRounds_spec sbp m hr
    rw [sbScanLoop_next, heq]
    rcases Nat.lt_or_ge (bgPow r 2) sbp.gdCnt with h7 | h7
    · rw [decide_eq_false (Nat.not_le.mpr h7), htmp h7]
      have hnext : r < 7 ^ r := Nat.lt_pow_self (by decide)
      obtain ⟨st, l', hst, hrec', hl'⟩ := ih m' (Nat.succ_pos r) h7 (by omega) hnext
      refine ⟨st, l ++ l', hst, hrec.trans hrec', fun g => ?_⟩
      rw [List.mem_append, hl, hl', ← and_or_left]
      refine and_congr_right fun _ => ⟨?_, ?_⟩
      · rintro (h | ⟨k, hk, h⟩)
        · exact ⟨r, le_refl r, hlt, h⟩
        · exact ⟨k, by omega, h⟩
      · rintro ⟨k, hk, h1, h2⟩
        rcases Nat.eq_or_lt_of_le hk with rfl | hk
        · exact Or.inl h2
        · exact Or.inr ⟨k, hk, h1, h2⟩
    · rw [decide_eq_true h7, sbScanLoop_over]
      refine ⟨_, l, rfl, hrec, fun g => ?_⟩
      rw [hl]
      refine and_congr_right fun _ => ⟨fun h => ⟨r, le_refl r, hlt, h⟩, ?_⟩
      rintro ⟨k, hk, h1, h2⟩
      rcases Nat.eq_or_lt_of_le hk with rfl | hk
      · exact h2
      · have hpow : bgPow r 2 ≤ 7 ^ (k - 1) := Nat.pow_le_pow_right (by decide) (by omega)
        omega

/-- The groups whose first blocks are recorded besides block 0. -/
def IsScannedGroup (gdCnt g : ℕ) : Prop :=
  g < gdCnt ∧ (g = 1 ∨ ∃ k, 0 < k ∧ 7 ^ (k - 1) < gdCnt ∧ AtRound k g)

theorem IsScannedGroup.isSparseGroup {gdCnt g : ℕ} (h : IsScannedGroup gdCnt g) :
    IsSparseGroup g := by
  rcases h.2 with rfl | ⟨k, hk, -, hg⟩
  · exact Or.inl rfl
  · exact hg.isSparseGroup hk

/-- A small file system is scanned in full. -/
theorem isScannedGroup_iff {gdCnt g : ℕ} (h : gdCnt ≤ 8) :
    IsScannedGroup gdCnt g ↔ g < gdCnt ∧ IsSparseGroup g := by
  refine ⟨fun hg => ⟨hg.1, hg.isSparseGroup⟩, ?_⟩
  rintro ⟨hlt, rfl | ⟨k, hk, hg⟩⟩
  · exact ⟨hlt, Or.inl rfl⟩
  · refine ⟨hlt, Or.inr ⟨k, hk, ?_, hg⟩⟩
    obtain rfl : k = 1 := by
      by_contra hne
      have h9 : 3 ^ 2 ≤ 3 ^ k := Nat.pow_le_pow_right (by decide) (by omega)
      have hle := AtRound.le hg
      omega
    have hle := AtRound.le hg
    omega

/-- **What is recorded of any super block.** -/
theorem mem_recordSuperBlks (m : Ext2MetaCtr) (sbp : Ext2SuperBlock) :
    ∃ m', m.recordSuperBlks sbp = .ok m' ∧ OnlyVects m m' ∧
      ∀ idx x, x ∈ m'.metaBlks idx ↔ idx = .sbIdx ∧ x = sb0BlockNo ∨
        (idx = .sbIdx ∨ idx = .tmpIdx) ∧
          ∃ g, IsScannedGroup sbp.gdCnt g ∧ x = sbp.groupStart g := by
  have hfirst := (onlyVects_clearAll MetaVectIndex.all m).trans
    (onlyVects_insertBlk (MetaVectIndex.all.foldl clearBlks m) .sbIdx sb0BlockNo)
  have hmem : ∀ idx x, x ∈ ((MetaVectIndex.all.foldl clearBlks m).insertBlk .sbIdx
      sb0BlockNo).metaBlks idx ↔ idx = .sbIdx ∧ x = sb0BlockNo := fun idx x => by
    rw [mem_insertBlk]
    exact or_iff_left mem_clearAll
  rw [recordSuperBlks]
  by_cases h1 : 1 < sbp.gdCnt
  · -- There are other groups: the list of those recorded is 1 and what the scan finds.
    rw [if_pos h1]
    dsimp only
    rw [← bgPow_one]
    obtain ⟨st, l, hst, hrec, hl⟩ := sbScanLoop_spec (sbp.gdCnt + 1)
      (((MetaVectIndex.all.foldl clearBlks m).insertBlk .sbIdx sb0BlockNo).insertSuperBlk sbp 1)
      Nat.one_pos h1 (le_refl _)
    rw [hst]
    have hsecond := onlyVects_insertSuperBlk
      ((MetaVectIndex.all.foldl clearBlks m).insertBlk .sbIdx sb0BlockNo) sbp 1
    refine ⟨st.ctr, rfl, (hfirst.trans hsecond).trans hrec.only, fun idx x => ?_⟩
    have hscan : ∀ g, IsScannedGroup sbp.gdCnt g ↔ g = 1 ∨ g ∈ l := fun g => by
      rw [hl, IsScannedGroup]
      constructor
      · rintro ⟨h2, h3 | h3⟩
        · exact Or.inl h3
        · exact Or.inr ⟨h2, h3⟩
      · rintro (rfl | ⟨h2, h3⟩)
        · exact ⟨h1, Or.inl rfl⟩
        · exact ⟨h2, Or.inr h3⟩
    have hstart : (∃ g, (g = 1 ∨ g ∈ l) ∧ x = sbp.groupStart g) ↔
        x = sbp.groupStart 1 ∨ ∃ g ∈ l, x = sbp.groupStart g := by
      simp only [or_and_right, exists_or, exists_eq_left]
    simp only [hscan]
    rw [hrec.mem, mem_insertSuperBlk, hmem, hstart, and_or_left]
    exact iff_of_eq (by ac_rfl)
  · rw [if_neg h1]
    refine ⟨_, rfl, hfirst, fun idx x => ?_⟩
    rw [hmem]
    refine (or_iff_left ?_).symm
    rintro ⟨-, g, ⟨hlt, h2⟩, -⟩
    have hpos : 0 < g := by
      rcases h2 with rfl | ⟨k, -, -, h3⟩
      · exact Nat.one_pos
      · exact (Nat.pow_pos (by decide)).trans_le h3.le
    omega

/-- What `detect_SB0_if_NO_SB0` has recorded. -/
structure SuperBlksRecorded (sbp : Ext2SuperBlock) (m m' : Ext2MetaCtr) : Prop where
  only : OnlyVects m m'
  super : ∀ x, x ∈ m'.metaBlks .sbIdx ↔ x = sb0BlockNo ∨ x ∈ m'.metaBlks .tmpIdx
  rest : ∀ idx, idx ≠ .sbIdx → idx ≠ .tmpIdx → ∀ x, x ∉ m'.metaBlks idx
  small : sbp.gdCnt ≤ 8 → ∀ x, x ∈ m'.metaBlks .tmpIdx ↔
    ∃ g < sbp.gdCnt, IsSparseGroup g ∧ x = sbp.groupStart g
  wrapped : sbp.gdCnt = 131072 → sbp.groupStart 9 ∈ m'.metaBlks .tmpIdx
  groups : ∀ x ∈ m'.metaBlks .tmpIdx, ∃ g < sbp.gdCnt, IsSparseGroup g ∧ x = sbp.groupStart g

/-- **The positions of the super blocks are recorded**, and the scan for them ends. -/
theorem recordSuperBlks_spec (m : Ext2MetaCtr) (sbp : Ext2SuperBlock) :
    ∃ m', m.recordSuperBlks sbp = .ok m' ∧ SuperBlksRecorded sbp m m' := by
  obtain ⟨m', hm', honly, hmem⟩ := mem_recordSuperBlks m sbp
  have htmp : ∀ x, x ∈ m'.metaBlks .tmpIdx ↔
      ∃ g, IsScannedGroup sbp.gdCnt g ∧ x = sbp.groupStart g := fun x => by
    rw [hmem]
    simp
  refine ⟨m', hm', honly, fun x => ?_, fun idx h2 h3 x hx => ?_, fun h8 x => ?_, fun hw => ?_,
    fun x hx => ?_⟩
  · rw [htmp, hmem]
    simp
  · rcases (hmem idx x).mp hx with ⟨h4, -⟩ | ⟨h4 | h4, -⟩
    · exact h2 h4
    · exact h2 h4
    · exact h3 h4
  · rw [htmp]
    simp only [isScannedGroup_iff h8, and_assoc]
  · exact (htmp _).mpr ⟨9, ⟨by omega, Or.inr ⟨2, Nat.two_pos, by omega, Or.inl rfl⟩⟩, rfl⟩
  · obtain ⟨g, hg, rfl⟩ := (htmp x).mp hx
    exact ⟨g, hg.1, hg.isSparseGroup, rfl⟩

/-- From the super block of block 0 that has just been taken. -/
theorem recordSuperBlks_start (m : Ext2MetaCtr) (sbp : Ext2SuperBlock) :
    ∃ m', recordSuperBlks { m.setStatus .sb0Detected with sb0 := sbp } sbp = .ok m' ∧
      m'.sb0 = sbp ∧ SuperBlksRecorded sbp { m.setStatus .sb0Detected with sb0 := sbp } m' := by
  obtain ⟨m', hm', hrec⟩ := recordSuperBlks_spec { m.setStatus .sb0Detected with sb0 := sbp } sbp
  exact ⟨m', hm', hrec.only.sb0, hrec⟩

/-! ## The descriptor blocks -/

/-- One super block: the blocks after it are recorded, and in `TMP_IDX` those after block 0. -/
theorem mem_recordBgDescs (n sb : ℕ) (m : Ext2MetaCtr) :
    OnlyVects m (recordBgDescs n m sb) ∧ ∀ idx x, x ∈ (recordBgDescs n m sb).metaBlks idx ↔
      x ∈ m.metaBlks idx ∨
        (idx = .bgDescIdx ∨ idx = .tmpIdx ∧ sb = sb0BlockNo) ∧ ∃ i < n, x = sb + 1 + i := by
  rw [recordBgDescs]
  refine Outcome.foldl_range (P := fun n m' => OnlyVects m m' ∧ ∀ idx x, x ∈ m'.metaBlks idx ↔
    x ∈ m.metaBlks idx ∨
      (idx = .bgDescIdx ∨ idx = .tmpIdx ∧ sb = sb0BlockNo) ∧ ∃ i < n, x = sb + 1 + i)
    ⟨.refl m, fun idx x => by simp⟩ fun i _ m' ⟨honly, hmem⟩ => ?_
  dsimp only
  split_ifs with hsb
  · refine ⟨(honly.trans (onlyVects_insertBlk _ _ _)).trans (onlyVects_insertBlk _ _ _),
      fun idx x => ?_⟩
    rw [mem_insertBlk, mem_insertBlk, hmem, Nat.exists_lt_succ_right]
    simp only [hsb, and_true, and_or_left, or_and_right]
    exact iff_of_eq (by ac_rfl)
  · refine ⟨honly.trans (onlyVects_insertBlk _ _ _), fun idx x => ?_⟩
    rw [mem_insertBlk, hmem, Nat.exists_lt_succ_right]
    simp only [hsb, and_false, or_false, and_or_left]
    exact iff_of_eq (by ac_rfl)

/-- **The positions of the descriptor blocks are recorded.** -/
theorem mem_foldl_recordBgDescs {n : ℕ} {l : List ℕ} {m : Ext2MetaCtr} :
    OnlyVects m (l.foldl (recordBgDescs n) m) ∧
      ∀ idx x, x ∈ (l.foldl (recordBgDescs n) m).metaBlks idx ↔ x ∈ m.metaBlks idx ∨
        ∃ sb ∈ l, (idx = .bgDescIdx ∨ idx = .tmpIdx ∧ sb = sb0BlockNo) ∧ ∃ i < n, x = sb + 1 + i := by
  induction l generalizing m with
  | nil => exact ⟨.refl m, fun idx x => by simp⟩
  | cons sb l ih =>
    obtain ⟨h1, h2⟩ := mem_recordBgDescs n sb m
    obtain ⟨h3, h4⟩ := ih (m := recordBgDescs n m sb)
    rw [List.foldl_cons]
    refine ⟨h1.trans h3, fun idx x => ?_⟩
    rw [h4, h2, List.exists_mem_cons_iff, or_assoc]

/-- One descriptor block holds all the descriptors of a small file system. -/
theorem getNumberOfBgDescs_eq {m : Ext2MetaCtr} (h : m.sb0.gdBlks ≤ 1) (blkNo : ℕ) :
    m.getNumberOfBgDescs blkNo = .ok m.sb0.gdCnt := by
  rw [getNumberOfBgDescs]
  exact if_pos h

/-- What one descriptor adds. -/
theorem mem_doGroupDescriptor (m : Ext2MetaCtr) (gdp : Ext2GroupDesc) :
    OnlyVects m (m.doGroupDescriptor gdp) ∧
      ∀ idx x, x ∈ (m.doGroupDescriptor gdp).metaBlks idx ↔ x ∈ m.metaBlks idx ∨
        idx = .blkBmpIdx ∧ x = gdp.bgBlockBitmap ∨ idx = .inoBmpIdx ∧ x = gdp.bgInodeBitmap ∨
        idx = .inoTableIdx ∧ ∃ i < m.sb0.tableBlks, x = (gdp.bgInodeTable + i) % 2 ^ 32 := by
  rw [doGroupDescriptor, Ext2SuperBlock.inodeTableBlks_eq]
  refine Outcome.foldl_range (P := fun n m' => OnlyVects m m' ∧ ∀ idx x, x ∈ m'.metaBlks idx ↔
    x ∈ m.metaBlks idx ∨ idx = .blkBmpIdx ∧ x = gdp.bgBlockBitmap ∨
      idx = .inoBmpIdx ∧ x = gdp.bgInodeBitmap ∨
      idx = .inoTableIdx ∧ ∃ i < n, x = (gdp.bgInodeTable + i) % 2 ^ 32)
    ⟨rfl, fun idx x => ?_⟩ fun i _ m' ⟨honly, hmem⟩ =>
      ⟨honly.trans (onlyVects_insertBlk _ _ _), fun idx x => ?_⟩
  · simp only [mem_insertBlk, Nat.not_lt_zero, false_and, exists_false, and_false, or_false]
    tauto
  · rw [mem_insertBlk, hmem, Nat.exists_lt_succ_right]
    simp only [and_or_left]
    exact iff_of_eq (by ac_rfl)

/-- **The positions that the descriptors give are recorded.** -/
theorem mem_doGroupDescriptors (m : Ext2MetaCtr) (n : ℕ) (gdp : ℕ → Ext2GroupDesc) :
    OnlyVects m ((List.range n).foldl (fun m k => m.doGroupDescriptor (gdp k)) m) ∧
      ∀ idx x, x ∈ ((List.range n).foldl (fun m k => m.doGroupDescriptor (gdp k)) m).metaBlks idx ↔
        x ∈ m.metaBlks idx ∨ ∃ k < n, idx = .blkBmpIdx ∧ x = (gdp k).bgBlockBitmap ∨
          idx = .inoBmpIdx ∧ x = (gdp k).bgInodeBitmap ∨ idx = .inoTableIdx ∧
            ∃ i < m.sb0.tableBlks, x = ((gdp k).bgInodeTable + i) % 2 ^ 32 := by
  refine Outcome.foldl_range (P := fun n m' => OnlyVects m m' ∧ ∀ idx x, x ∈ m'.metaBlks idx ↔
    x ∈ m.metaBlks idx ∨ ∃ k < n, idx = .blkBmpIdx ∧ x = (gdp k).bgBlockBitmap ∨
      idx = .inoBmpIdx ∧ x = (gdp k).bgInodeBitmap ∨ idx = .inoTableIdx ∧
        ∃ i < m.sb0.tableBlks, x = ((gdp k).bgInodeTable + i) % 2 ^ 32)
    ⟨.refl m, fun idx x => by simp⟩ fun k _ m' ⟨honly, hmem⟩ => ?_
  obtain ⟨h1, h2⟩ := mem_doGroupDescriptor m' (gdp k)
  refine ⟨honly.trans h1, fun idx x => ?_⟩
  rw [h2, hmem, honly.sb0]
  rw [Nat.exists_lt_succ_right, or_assoc]

end Ext2MetaCtr

end MemSmr
