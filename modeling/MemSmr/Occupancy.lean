import MemSmr.Amplification

/-!
# How full the device is

Every slot and every buffer that is in use holds a block of its own, and there are as many slots as
blocks.  So each block that is in the HDD buffer leaves a slot of the SMR area without a valid block.

## 1.  Counting

* `usedBufs`, `freeSlotCnt`: the buffers in use and the free slots.
* `valid_add_usedBufs_le`: the valid slots and the buffers in use are at most as many as the blocks.

## 2.  The band that is collected

`victim` is the band that `garbage_collecting` chooses.  No band has fewer valid slots
(`slotCount_valid_victim_le`), and `garbage_collection_is_greedy` says so about the collection itself:
whatever the invalid slots look like, no other choice would have rewritten fewer blocks.

## 3.  An append

`AppendCost` is what an append does to the number of free slots, with and without a collection.
-/

namespace MemSmr

open Outcome

namespace SmrDev

/-! ## 1.  Counting -/

/-- The buffers that are not in `free_hdd_bufs`. -/
def usedBufs (d : SmrDev) : ℕ :=
  Nat.count (fun q => d.buf.freeHddBufs.isExisting q = false) blocksOfHddBuf

/-- The slots that are free. -/
def freeSlotCnt (d : SmrDev) : ℕ :=
  Nat.count (fun p => (d.smr.smrReverseTable p).phyStatus = .freePhyBlock) totalSmrBlocksCnt

/-- The slots that hold a block. -/
def validSlotCnt (d : SmrDev) : ℕ :=
  Nat.count (fun p => (d.smr.smrReverseTable p).phyStatus = .validPhyBlock) totalSmrBlocksCnt

theorem isExisting_eq_false {v : SortedVector} {q : ℕ} : v.isExisting q = false ↔ q ∉ v := by
  rw [Bool.eq_false_iff, ne_eq, SortedVector.isExisting_iff]

/-- The buffers in use depend on the list of free ones only. -/
theorem usedBufs_congr {d d' : SmrDev}
    (h : ∀ q < blocksOfHddBuf, q ∈ d'.buf.freeHddBufs ↔ q ∈ d.buf.freeHddBufs) :
    d'.usedBufs = d.usedBufs := by
  unfold usedBufs
  refine Slots.count_congr fun q hq => ?_
  rw [isExisting_eq_false, isExisting_eq_false, h q hq]

/-- Fewer free buffers, more in use. -/
theorem usedBufs_le_of_free {d d' : SmrDev}
    (h : ∀ q ∈ d.buf.freeHddBufs, q ∈ d'.buf.freeHddBufs) : d'.usedBufs ≤ d.usedBufs := by
  unfold usedBufs
  refine Nat.count_mono_left fun q _ hq => ?_
  rw [isExisting_eq_false] at hq ⊢
  exact fun hmem => hq (h q hmem)

/-- A count over the whole table, band by band. -/
theorem sum_slotCount (table : ℕ → ReverseMappingEntry) (st : PhyStatus) :
    ∑ b ∈ Finset.range totalSmrBandsCnt, slotCount table st b =
      Nat.count (fun p => (table p).phyStatus = st) totalSmrBlocksCnt := by
  rw [← bands_mul_blocks, ← Slots.sum_count_mul]
  exact Finset.sum_congr rfl fun b _ => by rw [slotCount]

/-- **Every block is in one place.** -/
theorem valid_add_usedBufs_le {d : SmrDev} (h : DevInv d) :
    d.validSlotCnt + d.usedBufs ≤ totalSmrBlocksCnt := by
  have hslot : ∀ p < totalSmrBlocksCnt, (d.smr.smrReverseTable p).phyStatus = .validPhyBlock →
      (d.smr.smrReverseTable p).blkNo < totalSmrBlocksCnt ∧
        (d.smr.mappingTable (d.smr.smrReverseTable p).blkNo).mappingFlag = .inSmrDisk ∧
        (d.smr.mappingTable (d.smr.smrReverseTable p).blkNo).paddr = p :=
    fun p hp hv => h.stl.rev p hp _ (by rw [← hv])
  have hbuf : ∀ q < blocksOfHddBuf, d.buf.freeHddBufs.isExisting q = false →
      (d.buf.reverseTable q).blkNo < totalSmrBlocksCnt ∧
        (d.smr.mappingTable (d.buf.reverseTable q).blkNo).mappingFlag = .inHddBuf ∧
        (d.smr.mappingTable (d.buf.reverseTable q).blkNo).paddr = q :=
    fun q hq hused => h.buf.rev q hq (isExisting_eq_false.mp hused)
  unfold validSlotCnt usedBufs
  refine Slots.count_add_count_le (fun p => (d.smr.smrReverseTable p).blkNo)
    (fun q => (d.buf.reverseTable q).blkNo) (fun p hp hv => (hslot p hp hv).1)
    (fun q hq hused => (hbuf q hq hused).1) ?_ ?_ ?_
  · intro p hp p' hp' hv hv' heq
    have h1 := (hslot p hp hv).2.2
    have h2 := (hslot p' hp' hv').2.2
    rw [heq] at h1
    exact h1.symm.trans h2
  · intro q hq q' hq' hused hused' heq
    have h1 := (hbuf q hq hused).2.2
    have h2 := (hbuf q' hq' hused').2.2
    rw [heq] at h1
    exact h1.symm.trans h2
  · intro p hp q hq hv hused heq
    have h1 := (hslot p hp hv).2.1
    have h2 := (hbuf q hq hused).2.1
    rw [heq, h2] at h1
    cases h1

/-! ## 2.  The band that is collected -/

/-- The band that `garbage_collecting` chooses. -/
def victim (d : SmrDev) : ℕ :=
  if 0 < d.smr.fullyInvalidBands.size then d.smr.fullyInvalidBands.get 0 else d.mostInvalidBand.1

/-- The scan finds the largest of all counts. -/
theorem mostInvalidBand_max (d : SmrDev) :
    (∀ b < totalSmrBandsCnt, (d.smr.phyBands b).invalidCnt ≤ d.mostInvalidBand.2) ∧
      (d.mostInvalidBand.2 = 0 ∨
        (d.smr.phyBands d.mostInvalidBand.1).invalidCnt = d.mostInvalidBand.2) := by
  refine Outcome.foldl_range (n := totalSmrBandsCnt) (a := ((0, 0) : ℕ × ℤ))
    (f := fun st i => if st.2 < (d.smr.phyBands i).invalidCnt
      then (i, (d.smr.phyBands i).invalidCnt) else st)
    (fun n st => (∀ b < n, (d.smr.phyBands b).invalidCnt ≤ st.2) ∧
      (st.2 = 0 ∨ (d.smr.phyBands st.1).invalidCnt = st.2))
    ⟨fun b hb => absurd hb (Nat.not_lt_zero b), Or.inl rfl⟩ ?_
  rintro i - st ⟨hmax, hat⟩
  split_ifs with hlt
  · refine ⟨fun b hb => ?_, Or.inr rfl⟩
    rcases Nat.lt_succ_iff_lt_or_eq.mp hb with hb | rfl
    · exact (hmax b hb).trans hlt.le
    · exact le_refl _
  · refine ⟨fun b hb => ?_, hat⟩
    rcases Nat.lt_succ_iff_lt_or_eq.mp hb with hb | rfl
    · exact hmax b hb
    · exact not_lt.mp hlt

section Victim

variable {d : SmrDev} {lo b : ℕ}

theorem victim_lt (hs : StlInv d.smr lo) : d.victim < totalSmrBandsCnt := by
  unfold victim
  split_ifs with hq
  · exact ((hs.queue _).mp (SortedVector.get_mem hq)).1
  · exact d.mostInvalidBand_lt

/-- **No band has more invalid slots.** -/
theorem slotCount_invalid_le_victim (hs : StlInv d.smr lo) (hb : b < totalSmrBandsCnt) :
    slotCount d.smr.smrReverseTable .invalidPhyBlock b ≤
      slotCount d.smr.smrReverseTable .invalidPhyBlock d.victim := by
  unfold victim
  split_ifs with hq
  · rw [((hs.queue _).mp (SortedVector.get_mem hq)).2]
    exact slotCount_le _ _ _
  · obtain ⟨hmax, hat⟩ := d.mostInvalidBand_max
    have hle := hmax b hb
    rw [hs.invalidCnt_eq hb] at hle
    rw [hs.invalidCnt_eq d.mostInvalidBand_lt] at hat
    omega

/-- The three counts of a band when no slot is free. -/
theorem valid_add_invalid (hs : StlInv d.smr lo)
    (hfull : ∀ p < totalSmrBlocksCnt, (d.smr.smrReverseTable p).phyStatus ≠ .freePhyBlock)
    (hb : b < totalSmrBandsCnt) :
    slotCount d.smr.smrReverseTable .validPhyBlock b +
      slotCount d.smr.smrReverseTable .invalidPhyBlock b = blocksPerBand := by
  have hsum := slotCount_sum d.smr.smrReverseTable b fun i hi => hs.known _ (band_add_lt hb hi)
  rwa [slotCount_eq_zero fun i hi => hfull _ (band_add_lt hb hi), Nat.zero_add] at hsum

theorem slotCount_valid_victim_le (hs : StlInv d.smr lo)
    (hfull : ∀ p < totalSmrBlocksCnt, (d.smr.smrReverseTable p).phyStatus ≠ .freePhyBlock)
    (hb : b < totalSmrBandsCnt) :
    slotCount d.smr.smrReverseTable .validPhyBlock d.victim ≤
      slotCount d.smr.smrReverseTable .validPhyBlock b := by
  have h1 := valid_add_invalid hs hfull hb
  have h2 := valid_add_invalid hs hfull (victim_lt hs)
  have h3 := slotCount_invalid_le_victim hs hb
  omega

/-- What is rewritten is what is valid in the victim. -/
theorem gcMoved_eq (hs : StlInv d.smr lo) :
    d.gcMoved = slotCount d.smr.smrReverseTable .validPhyBlock d.victim := by
  unfold gcMoved victim
  split_ifs with hq
  · have hall := ((hs.queue _).mp (SortedVector.get_mem hq)).2
    refine (slotCount_eq_zero fun i hi => ?_).symm
    rw [forall_status_of_slotCount_eq hall hi]
    exact fun h => by cases h
  · rfl

/-- **The buffer keeps the bands sparse.**  When no slot is free, the victim has its share of the slots
that the blocks in the HDD buffer have left. -/
theorem usedBufs_le_victim (h : DevInv d)
    (hfull : ∀ p < totalSmrBlocksCnt, (d.smr.smrReverseTable p).phyStatus ≠ .freePhyBlock) :
    d.usedBufs ≤
      totalSmrBandsCnt * slotCount d.smr.smrReverseTable .invalidPhyBlock d.victim := by
  have hplace := valid_add_usedBufs_le h
  have hbands : ∑ b ∈ Finset.range totalSmrBandsCnt,
      (slotCount d.smr.smrReverseTable .validPhyBlock b +
        slotCount d.smr.smrReverseTable .invalidPhyBlock b) = totalSmrBlocksCnt := by
    rw [Finset.sum_congr rfl fun b hb => valid_add_invalid h.stl hfull (Finset.mem_range.mp hb),
      Finset.sum_const, Finset.card_range, smul_eq_mul, bands_mul_blocks]
  rw [Finset.sum_add_distrib, sum_slotCount] at hbands
  have hmost : ∑ b ∈ Finset.range totalSmrBandsCnt,
      slotCount d.smr.smrReverseTable .invalidPhyBlock b ≤
        totalSmrBandsCnt * slotCount d.smr.smrReverseTable .invalidPhyBlock d.victim := by
    have hle := Finset.sum_le_card_nsmul (Finset.range totalSmrBandsCnt)
      (fun b => slotCount d.smr.smrReverseTable .invalidPhyBlock b) _ fun b hb =>
        slotCount_invalid_le_victim h.stl (Finset.mem_range.mp hb)
    rwa [Finset.card_range, smul_eq_mul] at hle
  unfold validSlotCnt at hplace
  omega

/-- The collection compacts the victim. -/
theorem compacted_victim (hs : StlInv d.smr lo) :
    ∃ d', Compacted d d' d.victim ∧
      d.garbageCollecting = d'.emit (.collected d'.smr.curPaddr d'.smr.smrReverseTable) := by
  unfold garbageCollecting victim
  by_cases hq : 0 < d.smr.fullyInvalidBands.size
  · obtain ⟨hmem, v, hv, hmemv⟩ := getFullyInvalidBand_spec hq
    have hvictim : d.getFullyInvalidBand.1 = d.smr.fullyInvalidBands.get 0 := by
      unfold getFullyInvalidBand
      rw [if_pos hq]
    rw [if_pos hq, ← hvictim]
    refine ⟨_, compacted_freeBand ((hs.queue _).mp hmem).2 hmemv, ?_⟩
    rw [← hv]
    simp only [if_pos hq]
  · rw [if_neg hq]
    refine ⟨_, compacted_doGcInBand hs d.mostInvalidBand_lt fun hmem =>
      hq (SortedVector.size_pos_iff.mpr ⟨_, hmem⟩), ?_⟩
    simp only [if_neg hq]

/-- The free slots after a collection are the invalid ones of the victim. -/
theorem freeSlotCnt_collected (hs : StlInv d.smr lo)
    (hfull : ∀ p < totalSmrBlocksCnt, (d.smr.smrReverseTable p).phyStatus ≠ .freePhyBlock) :
    d.garbageCollecting.freeSlotCnt =
      slotCount d.smr.smrReverseTable .invalidPhyBlock d.victim := by
  obtain ⟨d', hc, heq⟩ := compacted_victim hs
  rw [heq]
  show d'.freeSlotCnt = _
  have hvictim := hc.slotCount_free
  have hband := valid_add_invalid hs hfull (victim_lt hs)
  unfold freeSlotCnt
  rw [← sum_slotCount, Finset.sum_eq_single d.victim]
  · omega
  · intro a ha hne
    rw [hc.slotCount_of_ne hne]
    exact slotCount_eq_zero fun i hi => hfull _ (band_add_lt (Finset.mem_range.mp ha) hi)
  · exact fun hnot => absurd (Finset.mem_range.mpr (victim_lt hs)) hnot

end Victim

/-- **Garbage collection is greedy.**  When no slot is free, the collection compacts a band with the
fewest valid slots of all.  It frees the other slots of that band, and it rewrites no more blocks than
the collection of any other band would. -/
theorem garbage_collection_is_greedy (d : SmrDev) (lo : ℕ) (hs : StlInv d.smr lo)
    (hfull : ∀ p < totalSmrBlocksCnt, (d.smr.smrReverseTable p).phyStatus ≠ .freePhyBlock) :
    ∃ b < totalSmrBandsCnt, (∃ d', Compacted d d' b ∧
        d.garbageCollecting = d'.emit (.collected d'.smr.curPaddr d'.smr.smrReverseTable)) ∧
      d.gcMoved = slotCount d.smr.smrReverseTable .validPhyBlock b ∧
      (∀ a < totalSmrBandsCnt, d.gcMoved ≤ slotCount d.smr.smrReverseTable .validPhyBlock a) ∧
      d.gcMoved + d.garbageCollecting.freeSlotCnt = blocksPerBand := by
  have hmoved := gcMoved_eq hs
  refine ⟨d.victim, victim_lt hs, compacted_victim hs, hmoved, fun a ha => ?_, ?_⟩
  · rw [hmoved]
    exact slotCount_valid_victim_le hs hfull ha
  · rw [hmoved, freeSlotCnt_collected hs hfull]
    exact valid_add_invalid hs hfull (victim_lt hs)

/-- Ten blocks have left the first band, and all other bands are full. -/
theorem garbage_collection_is_greedy_updated : ∃ outs s,
    runModule plainEnv (fun _ => 0) (updatedOps 10) = .ok (outs, s) ∧
      (∃ b < totalSmrBandsCnt, (∃ d', Compacted s.dev d' b ∧
          s.dev.garbageCollecting =
            d'.emit (.collected d'.smr.curPaddr d'.smr.smrReverseTable)) ∧
        s.dev.gcMoved = slotCount s.dev.smr.smrReverseTable .validPhyBlock b ∧
        (∀ a < totalSmrBandsCnt,
          s.dev.gcMoved ≤ slotCount s.dev.smr.smrReverseTable .validPhyBlock a) ∧
        s.dev.gcMoved + s.dev.garbageCollecting.freeSlotCnt = blocksPerBand) ∧
      s.dev.gcMoved < slotCount s.dev.smr.smrReverseTable .validPhyBlock 1 ∧
      0 < s.dev.garbageCollecting.freeSlotCnt := by
  have hj : 10 ≤ blocksOfHddBuf := by
    rw [blocksOfHddBuf_eq]
    decide
  have hband : 1 < totalSmrBandsCnt := by
    rw [totalSmrBandsCnt_eq]
    decide
  obtain ⟨outs, s, hrun, h⟩ := updated_run hj
  have hgreedy := garbage_collection_is_greedy s.dev s.dev.smr.curPaddr h.inv.stl h.full
  -- A buffer is in use, so the victim has an invalid slot.
  have hused : 0 < s.dev.usedBufs := Nat.pos_of_ne_zero <| Nat.count_ne_iff_exists.mpr
    ⟨0, by omega, isExisting_eq_false.mpr fun h0 => by
      have := (h.bufs 0).mp h0
      omega⟩
  have hvictim := usedBufs_le_victim h.inv h.full
  have hfreed := freeSlotCnt_collected h.inv.stl h.full
  have hpos : 0 < s.dev.garbageCollecting.freeSlotCnt := by
    rw [hfreed]
    refine Nat.pos_of_ne_zero fun h0 => ?_
    rw [h0] at hvictim
    omega
  have hfull : slotCount s.dev.smr.smrReverseTable .validPhyBlock 1 = blocksPerBand := by
    unfold slotCount
    refine Nat.count_of_forall fun i hi => ?_
    have hlt := band_add_lt hband hi
    obtain ⟨hflag, haddr⟩ := h.written _ hlt (by rw [blocksPerBand_eq]; omega)
    have hrev := (h.inv.stl.fwd _ hlt hflag).2
    rw [haddr] at hrev
    rw [hrev]
  refine ⟨outs, s, hrun, hgreedy, ?_, hpos⟩
  obtain ⟨b, -, -, -, -, hsum⟩ := hgreedy
  omega

/-! ## 3.  An append -/

/-- `get_free_smr_block` asks for a collection. -/
def Collects (env : Env) (d : SmrDev) : Prop :=
  d.smr.curPaddr % blocksPerBand = 0 ∧ d.phyStatusAt env d.smr.curPaddr ≠ .freePhyBlock

instance (env : Env) (d : SmrDev) : Decidable (d.Collects env) :=
  inferInstanceAs (Decidable (_ ∧ _))

/-- An append, and the collection before it. -/
structure AppendCost (env : Env) (d d' : SmrDev) : Prop where
  /-- Without a collection it uses a free slot up. -/
  spared : ¬ d.Collects env → d.appendMoved env = 0 ∧ d.freeSlotCnt = d'.freeSlotCnt + 1
  /-- A collection is asked for when no slot is free; every slot of the victim is free afterwards or has
  been rewritten. -/
  collected : d.Collects env → d.freeSlotCnt = 0 ∧
    d.appendMoved env + (d'.freeSlotCnt + 1) = blocksPerBand ∧
    d.usedBufs ≤ totalSmrBandsCnt * (d'.freeSlotCnt + 1)

section Append

variable {env : Env} {d d' : SmrDev} {l : ℕ}

/-- A slot that is filled. -/
theorem freeSlotCnt_placeBlock (blk : Block) {p : ℕ} (hp : p < totalSmrBlocksCnt)
    (hfree : (d.smr.smrReverseTable p).phyStatus = .freePhyBlock) :
    d.freeSlotCnt = (d.placeBlock blk l p).freeSlotCnt + 1 := by
  have hrev : (d.placeBlock blk l p).smr.smrReverseTable =
      Function.update d.smr.smrReverseTable p ⟨l, .validPhyBlock⟩ := rfl
  unfold freeSlotCnt
  rw [hrev]
  refine Slots.count_of_loss hp hfree ?_ fun q _ hq => ?_
  · rw [Function.update_self]
    exact fun h => by cases h
  · rw [Function.update_of_ne hq]

theorem none_free_of_collects (h : DevInv d) (hc : d.Collects env) :
    ∀ p < totalSmrBlocksCnt, (d.smr.smrReverseTable p).phyStatus ≠ .freePhyBlock := by
  refine h.stl.none_free fun hlt => ?_
  have hst := hc.2
  rwa [phyStatusAt, if_pos hlt] at hst

/-- The device after the check of the frontier. -/
theorem checkFrontier_spared (hno : ¬ d.Collects env) :
    (d.checkFrontier env).smr = d.smr := by
  unfold checkFrontier
  split_ifs with hmod
  · have hst : ¬ (d.phyStatusAt env d.smr.curPaddr ≠ .freePhyBlock) := fun hst => hno ⟨hmod, hst⟩
    show (if d.phyStatusAt env d.smr.curPaddr ≠ .freePhyBlock then _ else _ : SmrDev).smr = d.smr
    rw [if_neg hst]
    rfl
  · rfl

theorem checkFrontier_collects (hc : d.Collects env) :
    d.checkFrontier env = (d.emit (.frontierCheck d.smr.curPaddr)).garbageCollecting := by
  unfold checkFrontier
  rw [if_pos hc.1]
  exact if_pos hc.2

theorem appendMoved_eq : d.appendMoved env = if d.Collects env then d.gcMoved else 0 := rfl

/-- **What an append costs.** -/
theorem appendCost_of_ok (h : DevInv d) (hl : l < totalSmrBlocksCnt)
    (hflag : (d.smr.mappingTable l).mappingFlag ≠ .inSmrDisk) {buf : ℕ → Block}
    (hok : d.appendSmrBlocks env buf l 1 = .ok d') : AppendCost env d d' := by
  obtain ⟨-, -, -, hfront⟩ := checkFrontier_spec env h.stl h.log hl hflag
  rw [appendSmrBlocks_one] at hok
  split_ifs at hok with hlt
  obtain rfl := Except.ok.inj hok
  have hfree : ((d.checkFrontier env).smr.smrReverseTable
      (d.checkFrontier env).smr.curPaddr).phyStatus = .freePhyBlock := by
    rcases hfront with h | h
    · exact h.2
    · exact absurd hlt (by omega)
  have hplace : (d.checkFrontier env).freeSlotCnt = _ + 1 :=
    freeSlotCnt_placeBlock (d := (d.getFreeSmrBlock env).2) (l := l) (buf 0) hlt hfree
  rw [← Nat.succ_inj] at hplace
  constructor
  · intro hno
    have hsame : (d.checkFrontier env).freeSlotCnt = d.freeSlotCnt := by
      unfold freeSlotCnt
      rw [checkFrontier_spared hno]
    refine ⟨if_neg hno, ?_⟩
    omega
  · intro hc
    have hfull := none_free_of_collects h hc
    have hafter : (d.checkFrontier env).freeSlotCnt =
        slotCount d.smr.smrReverseTable .invalidPhyBlock d.victim := by
      rw [checkFrontier_collects hc]
      exact freeSlotCnt_collected (d := d.emit (.frontierCheck d.smr.curPaddr)) h.stl hfull
    have hband := valid_add_invalid h.stl hfull (victim_lt h.stl)
    have hused := usedBufs_le_victim h hfull
    rw [← hafter] at hband hused
    refine ⟨Nat.count_iff_forall_not.mpr hfull, ?_, ?_⟩
    · rw [appendMoved_eq, if_pos hc, gcMoved_eq h.stl]
      omega
    · rwa [← Nat.succ_inj.mp hplace]

/-- An append rewrites less than a band. -/
theorem AppendCost.moved_lt (h : AppendCost env d d') : d.appendMoved env < blocksPerBand := by
  by_cases hc : d.Collects env
  · have hband := (h.collected hc).2.1
    omega
  · rw [(h.spared hc).1]
    exact blocksPerBand_pos

end Append

end SmrDev

end MemSmr
