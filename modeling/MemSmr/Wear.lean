import MemSmr.Occupancy
import MemSmr.SwapOut
import MemSmr.DetectorFrame
import MemSmr.Lib.Amortized

/-!
# How often a block is written

## 1.  A swap

`swap_out_coldest` appends `SWAP_OUT_CNT` blocks, and each of these appends may ask for a collection.
`swap_collects_once`: only one of them does.  At the first collection nearly all buffers are still in
use, so the victim has at least `SWAP_OUT_CNT` invalid slots (`usedBufs_le_victim`), and these are
enough for the rest of the swap.

## 2.  The write of one block

`storeMoved_le` bounds what is rewritten, and `storeBalance` says where the block has gone: it is a
first write, it has gone into the buffer that it was in, or it has taken a buffer.

## 3.  A run

The potential is the number of buffers in use.  Reads leave it alone and the trims of the detector only
lower it.  `write_amplification_bounded` is for every run, with the detector on or off, and
`buffer_flow_balances` is the exact balance with the detector off.
-/

namespace MemSmr

open Outcome

namespace SmrDev

/-! ## 1.  A swap -/

/-- The collections during `swap_out_coldest`. -/
def swapCollections (env : Env) (d : SmrDev) : ℕ :=
  ((visited (swapOutBuf env) d.selectColdBufs (List.range swapOutCnt)).map
    fun d => if d.Collects env then 1 else 0).sum

section Swap

variable {env : Env} {d d' d'' : SmrDev} {c : ℕ → ℕ} {i : ℕ}

/-- After `i` rounds `i` buffers are free. -/
theorem SwapInv.usedBufs_add (h : SwapInv d c i d') (hcold : ColdBufs c swapOutCnt blocksOfHddBuf)
    (hi : i ≤ swapOutCnt) : d'.usedBufs + i = blocksOfHddBuf := by
  have hfree : Nat.count (fun q => ¬ d'.buf.freeHddBufs.isExisting q = false) blocksOfHddBuf = i := by
    refine Slots.count_eq_of_listed c (fun j hj => hcold.lt j (Nat.lt_of_lt_of_le hj hi))
      (fun j hj k hk => hcold.inj j (Nat.lt_of_lt_of_le hj hi) k (Nat.lt_of_lt_of_le hk hi))
      fun q _ => ?_
    rw [isExisting_eq_false, not_not, h.free]
  have hall := Slots.count_add_count_not (fun q => d'.buf.freeHddBufs.isExisting q = false)
    blocksOfHddBuf
  unfold usedBufs
  omega

/-- One round is one append. -/
theorem SwapInv.appendCost (h : SwapInv d c i d') (hcold : ColdBufs c swapOutCnt blocksOfHddBuf)
    (hi : i < swapOutCnt) (hok : d'.swapOutBuf env i = .ok d'') : AppendCost env d' d'' := by
  have hnot : c i ∉ d'.buf.freeHddBufs := by
    rw [h.free]
    rintro ⟨j, hj, heq⟩
    exact Nat.ne_of_gt hj (hcold.inj i hi j (Nat.lt_trans hj hi) heq)
  rw [swapOutBuf, h.cold] at hok
  obtain ⟨d₂, happend, hrest⟩ := bind_eq_ok.mp hok
  obtain rfl := Except.ok.inj hrest
  have hreset : DevInv (d'.resetPhyBufCounter (c i)) := devInv_resetPhyBufCounter h.inv (c i)
  obtain ⟨hl, hflag, -⟩ := hreset.buf.rev (c i) (hcold.lt i hi) hnot
  have hcost := appendCost_of_ok hreset hl (by rw [hflag]; exact fun h => by cases h) happend
  exact ⟨hcost.spared, hcost.collected⟩

/-- **The cost of the collections of a swap**, for any measure of a collection. -/
theorem sum_visited_swap_le {cost : SmrDev → ℕ} {M : ℕ} (h : DevInv d)
    (hfull : ∀ q, q ∉ d.buf.freeHddBufs) (hspared : ∀ b : SmrDev, ¬ b.Collects env → cost b = 0)
    (hcollected : ∀ b b' : SmrDev, b.Collects env → AppendCost env b b' →
      swapOutCnt ≤ b'.freeSlotCnt + 1 → cost b ≤ M)
    (hok : d.swapOutColdest env = .ok d') :
    ((visited (swapOutBuf env) d.selectColdBufs (List.range swapOutCnt)).map cost).sum ≤ M := by
  have hcold := d.selectColdBufs_spec.2
  have hinit := SwapInv.init h hfull
  generalize d.selectColdBufs.coldBuf = c at hcold hinit
  rw [swapOutColdest] at hok
  -- Once there has been a collection, there is a free slot for each round that is left.
  let P : ℕ → ℕ → SmrDev → Prop := fun i m d' =>
    SwapInv d c i d' ∧ (m = 0 ∨ m ≤ M ∧ swapOutCnt ≤ d'.freeSlotCnt + i)
  have hloop : Meets (fun _ => True)
      (P swapOutCnt
        ((visited (swapOutBuf env) d.selectColdBufs (List.range swapOutCnt)).map cost).sum)
      ((List.range swapOutCnt).foldlM (swapOutBuf env) d.selectColdBufs) := by
    refine meets_foldlM_visited P ⟨hinit, Or.inl rfl⟩ ?_
    rintro i hi m b ⟨hinv, hm⟩
    cases hres : b.swapOutBuf env i with
    | error e => trivial
    | ok b' =>
      refine ⟨(hinv.step env hcold hi).of_ok hres, ?_⟩
      have hcost := hinv.appendCost hcold hi hres
      by_cases hb : b.Collects env
      · obtain ⟨hnone, -, hused⟩ := hcost.collected hb
        have hsum := hinv.usedBufs_add hcold hi.le
        have hroom : swapOutCnt ≤ b'.freeSlotCnt + 1 := by
          rw [blocksOfHddBuf_eq] at hsum
          rw [totalSmrBandsCnt_eq] at hused
          rw [swapOutCnt_eq] at hi ⊢
          omega
        have hle := hcollected b b' hb hcost hroom
        right
        omega
      · obtain ⟨-, hspace⟩ := hcost.spared hb
        rw [hspared b hb]
        omega
  obtain ⟨-, hm⟩ := hloop.of_ok hok
  omega

theorem swapMoved_le (h : DevInv d) (hfull : ∀ q, q ∉ d.buf.freeHddBufs)
    (hok : d.swapOutColdest env = .ok d') : d.swapMoved env ≤ blocksPerBand - swapOutCnt := by
  refine sum_visited_swap_le h hfull (fun b hb => ?_) (fun b b' hb hcost hroom => ?_) hok
  · rw [appendMoved_eq, if_neg hb]
  · have hband := (hcost.collected hb).2.1
    omega

end Swap

/-- **A swap collects once.**  However the access counts and the valid slots are distributed, a swap
from a full buffer asks for one collection at most, and no more than `BLOCKS_PER_BAND - SWAP_OUT_CNT`
blocks are rewritten. -/
theorem swap_collects_once (env : Env) :
    (∀ s, Reached s → ∀ readCnt writeCnt, DevInv (s.dev.withAccessCounts readCnt writeCnt)) ∧
      ∀ d d' : SmrDev, DevInv d → d.buf.freeHddBufs.size = 0 → d.swapOutColdest env = .ok d' →
        d.swapCollections env ≤ 1 ∧ d.swapMoved env ≤ blocksPerBand - swapOutCnt := by
  refine ⟨fun s hs r w => devInv_withAccessCounts hs.betweenCalls.inv r w,
    fun d d' hd hsize hok => ?_⟩
  have hfull := SortedVector.size_eq_zero_iff.mp hsize
  refine ⟨?_, swapMoved_le hd hfull hok⟩
  refine sum_visited_swap_le hd hfull (fun b hb => if_neg hb) (fun b b' hb _ _ => ?_) hok
  rw [if_pos hb]

/-- The swap that finds no free slot collects. -/
theorem swap_collects_once_overwrite : ∃ outs s d',
    runModule plainEnv (fun _ => 0) (updatedOps blocksOfHddBuf) = .ok (outs, s) ∧
      s.dev.swapOutColdest plainEnv = .ok d' ∧ s.dev.swapCollections plainEnv = 1 ∧
      s.dev.swapMoved plainEnv ≤ blocksPerBand - swapOutCnt := by
  obtain ⟨outs, s, hrun, h⟩ := updated_run (Nat.le_refl blocksOfHddBuf)
  have hsize := h.size_eq_zero
  obtain ⟨d', hok, -⟩ := (swapOutColdest_spec plainEnv h.inv
    (SortedVector.size_eq_zero_iff.mp hsize)).exists_ok fun e _ =>
      not_pastEndFault plainEnv_pastEndNotFree e
  obtain ⟨hle, hmoved⟩ := (swap_collects_once plainEnv).2 s.dev d' h.inv hsize hok
  -- The first round begins with the frontier at the end of the device.
  have hcollects : s.dev.selectColdBufs.Collects plainEnv := by
    obtain ⟨e, he⟩ := s.dev.selectColdBufs_spec.1
    have hcur : s.dev.selectColdBufs.smr.curPaddr = totalSmrBlocksCnt := by
      rw [he]
      exact h.cur
    refine ⟨?_, ?_⟩
    · rw [hcur, totalSmrBlocksCnt_eq, blocksPerBand_eq]
    · rw [phyStatusAt, hcur, if_neg (Nat.lt_irrefl _)]
      exact plainEnv_pastEndNotFree _
  have hpos : 1 ≤ s.dev.swapCollections plainEnv := by
    obtain ⟨m, hm⟩ : ∃ m, swapOutCnt = m + 1 := ⟨127, swapOutCnt_eq⟩
    rw [swapCollections, hm, List.range_succ_eq_map, visited, List.map_cons, List.sum_cons,
      if_pos hcollects]
    exact Nat.le_add_right 1 _
  exact ⟨outs, s, d', hrun, hok, Nat.le_antisymm hle hpos, hmoved⟩

/-! ## 2.  The write of one block -/

/-- One, for the write of a block into the buffer that it is in. -/
def storeHit (d : SmrDev) (blkNo : ℕ) : ℕ := if d.inHddBuf blkNo then 1 else 0

/-- The blocks that have a mapping. -/
def mappedCnt (d : SmrDev) : ℕ := Nat.count (fun l => d.hasMapping l = true) totalSmrBlocksCnt

theorem mappedCnt_congr {d d' : SmrDev}
    (h : ∀ l < totalSmrBlocksCnt, d'.contents l = d.contents l) : d'.mappedCnt = d.mappedCnt := by
  unfold mappedCnt
  refine Slots.count_congr fun l hl => ?_
  rw [hasMapping_eq, hasMapping_eq, h l hl]

section Store

variable {env : Env} {d d' : SmrDev} {l : ℕ} {blk : Block}

/-- Taking a buffer from the list. -/
theorem usedBufs_getOneFreeBuf (hpos : 0 < d.buf.freeHddBufs.size)
    (hlt : ∀ q ∈ d.buf.freeHddBufs, q < blocksOfHddBuf) :
    d.getOneFreeBuf.2.usedBufs = d.usedBufs + 1 := by
  have hmem := SortedVector.get_mem hpos
  rw [getOneFreeBuf_eq hpos]
  generalize d.buf.freeHddBufs.get 0 = q at hmem ⊢
  unfold usedBufs
  refine Slots.count_succ_of_gain (hlt q hmem) (fun h => isExisting_eq_false.mp h hmem) ?_
    fun x _ hx => ?_
  · exact isExisting_eq_false.mpr fun h => (SortedVector.mem_remove.mp h).2 rfl
  · rw [isExisting_eq_false, isExisting_eq_false]
    show x ∉ d.buf.freeHddBufs ↔ x ∉ d.buf.freeHddBufs.remove q
    rw [SortedVector.mem_remove, not_and_or, not_not]
    exact ⟨Or.inl, fun h => h.resolve_right hx⟩

theorem usedBufs_fillHddBuf (q : ℕ) : (d.fillHddBuf env l blk q).usedBufs = d.usedBufs := rfl

/-- A write into the buffer, of a block that is not in it. -/
theorem usedBufs_writeBlock (h : DevInv d) (hb : d.inHddBuf l = false)
    (hres : d.writeBlockIntoHddBuf env l blk = .ok d') :
    (if d.isHddBufFull then swapOutCnt else 0) + d'.usedBufs = 1 + d.usedBufs := by
  rw [writeBlockIntoHddBuf, chooseHddBuf, if_neg (by rw [hb]; exact Bool.false_ne_true)] at hres
  obtain ⟨r, hchoose, hres⟩ := bind_eq_ok.mp hres
  obtain rfl := Except.ok.inj hres
  rw [usedBufs_fillHddBuf]
  split_ifs at hchoose ⊢ with hsize
  · -- The swap has freed `SWAP_OUT_CNT` buffers, and one of them is taken.
    obtain ⟨d₁, hswap, hchoose⟩ := bind_eq_ok.mp hchoose
    obtain rfl := Except.ok.inj hchoose
    have hempty := SortedVector.size_eq_zero_iff.mp (of_decide_eq_true hsize)
    have hcold := d.selectColdBufs_spec.2
    have hinit := SwapInv.init h hempty
    generalize d.selectColdBufs.coldBuf = c at hcold hinit
    rw [swapOutColdest] at hswap
    have hinv : SwapInv d c swapOutCnt d₁ := (meets_foldlM_range (SwapInv d c)
      hinit fun _ hi _ hb => hb.step env hcold hi).of_ok hswap
    have hpos : 0 < d₁.buf.freeHddBufs.size := by
      refine SortedVector.size_pos_iff.mpr ⟨c 0, (hinv.free _).mpr ⟨0, ?_, rfl⟩⟩
      rw [swapOutCnt_eq]
      exact Nat.zero_lt_succ _
    have hused := hinv.usedBufs_add hcold le_rfl
    have hall : d.usedBufs = blocksOfHddBuf :=
      Nat.count_of_forall fun q _ => isExisting_eq_false.mpr (hempty q)
    rw [usedBufs_getOneFreeBuf hpos hinv.inv.free]
    omega
  · obtain ⟨d₁, hsame, hchoose⟩ := bind_eq_ok.mp hchoose
    obtain rfl := Except.ok.inj hchoose
    obtain rfl := Except.ok.inj hsame
    have hpos : 0 < d.buf.freeHddBufs.size :=
      Nat.pos_of_ne_zero fun h0 => hsize (decide_eq_true h0)
    rw [usedBufs_getOneFreeBuf hpos h.free]
    omega

/-- The swap before such a write. -/
theorem swap_of_writeBlock (hb : d.inHddBuf l = false) (hfull : d.isHddBufFull = true)
    (hres : d.writeBlockIntoHddBuf env l blk = .ok d') : ∃ d₁, d.swapOutColdest env = .ok d₁ := by
  rw [writeBlockIntoHddBuf, chooseHddBuf, if_neg (by rw [hb]; exact Bool.false_ne_true),
    if_pos hfull] at hres
  obtain ⟨r, hchoose, -⟩ := bind_eq_ok.mp hres
  obtain ⟨d₁, hswap, -⟩ := bind_eq_ok.mp hchoose
  exact ⟨d₁, hswap⟩

/-- **Where a written block goes.** -/
theorem storeBalance (h : DevInv d) (hl : l < totalSmrBlocksCnt)
    (hres : d.storeBlock env l blk = .ok d') :
    d.storeSwapped l + d.storeFirst l + d.storeHit l + d'.usedBufs = 1 + d.usedBufs := by
  obtain ⟨hb, hres⟩ | ⟨hb, hs, hres⟩ | ⟨hb, hs, hres⟩ := storeBlock_cases hres
  · obtain ⟨hfirst, hswapped⟩ := storeCounts_hit hb
    rw [writeBlockIntoHddBuf, chooseHddBuf, if_pos hb] at hres
    obtain rfl := Except.ok.inj hres
    rw [hfirst, hswapped, storeHit, if_pos hb]
    rfl
  · obtain ⟨hfirst, hswapped⟩ := storeCounts_update hb hs
    have hhit : d.storeHit l = 0 := if_neg (by rw [hb]; exact Bool.false_ne_true)
    have hf := inSmrDisk_iff.mp hs
    have hwrite := usedBufs_writeBlock (devInv_invalidate h hl hf) (inHddBuf_invalidate hf) hres
    have hused : (d.invalidateMappingEntry l).usedBufs = d.usedBufs :=
      usedBufs_congr fun q _ => by rw [invalidate_buf hf]
    rw [isHddBufFull_invalidate hf, hused] at hwrite
    omega
  · obtain ⟨hfirst, hswapped⟩ := storeCounts_first hb hs
    have hhit : d.storeHit l = 0 := if_neg (by rw [hb]; exact Bool.false_ne_true)
    have hf : (d.smr.mappingTable l).mappingFlag ≠ .inSmrDisk := of_decide_eq_false hs
    obtain ⟨-, -, ha⟩ := (appendSmrBlocks_spec env _ h.stl h.log hl hf).of_ok hres
    have hused : d'.usedBufs = d.usedBufs := usedBufs_congr fun q _ => by rw [ha.buf]
    omega

/-- **What is rewritten** for the write of one block: nothing for a block that is in the buffer or
takes a free one, a fixed multiple of the swap, or less than a band for a first write. -/
theorem storeMoved_le (h : DevInv d) (hl : l < totalSmrBlocksCnt)
    (hres : d.storeBlock env l blk = .ok d') :
    d.storeMoved env l ≤ 15 * d.storeSwapped l + 2047 * d.storeFirst l := by
  obtain ⟨hb, hres⟩ | ⟨hb, hs, hres⟩ | ⟨hb, hs, hres⟩ := storeBlock_cases hres
  · have hnone : d.storeMoved env l = 0 := by simp [storeMoved, Swaps, hasMapping, hb]
    rw [hnone]
    exact Nat.zero_le _
  · have hf := inSmrDisk_iff.mp hs
    have hsame := isHddBufFull_invalidate hf
    cases hfull : d.isHddBufFull with
    | false =>
      have hnone : d.storeMoved env l = 0 := by
        simp [storeMoved, Swaps, hasMapping, hb, hs, hfull]
      rw [hnone]
      exact Nat.zero_le _
    | true =>
      have hmoved : d.storeMoved env l = (d.invalidateMappingEntry l).swapMoved env ∧
          d.storeSwapped l = swapOutCnt := by
        simp [storeMoved, storeSwapped, Swaps, hb, hs, hfull]
      obtain ⟨d₁, hswap⟩ := swap_of_writeBlock (inHddBuf_invalidate hf) (hsame.trans hfull) hres
      have hempty := SortedVector.size_eq_zero_iff.mp (of_decide_eq_true (hsame.trans hfull))
      have hle := swapMoved_le (devInv_invalidate h hl hf) hempty hswap
      rw [blocksPerBand_eq, swapOutCnt_eq] at hle
      rw [swapOutCnt_eq] at hmoved
      omega
  · have hmoved : d.storeMoved env l = d.appendMoved env ∧ d.storeFirst l = 1 := by
      simp [storeMoved, Swaps, storeFirst, hasMapping, hb, hs]
    have hf : (d.smr.mappingTable l).mappingFlag ≠ .inSmrDisk := of_decide_eq_false hs
    have hcost := (appendCost_of_ok h hl hf hres).moved_lt
    rw [blocksPerBand_eq] at hcost
    omega

/-- A first write maps one more block. -/
theorem mappedCnt_storeBlock (h : DevInv d) (hl : l < totalSmrBlocksCnt)
    (hres : d.storeBlock env l blk = .ok d') : d'.mappedCnt = d.mappedCnt + d.storeFirst l := by
  have hstored := (storeBlock_spec env blk h hl).of_ok hres
  have hhere : d'.hasMapping l = true := by
    rw [hasMapping_eq, hstored.here]
    rfl
  have hothers : ∀ x < totalSmrBlocksCnt, x ≠ l → d'.hasMapping x = d.hasMapping x :=
    fun x hx hne => by rw [hasMapping_eq, hasMapping_eq, hstored.others x hx hne]
  unfold mappedCnt storeFirst
  split_ifs with hmap
  · rw [Nat.add_zero]
    refine Slots.count_congr fun x hx => ?_
    by_cases hne : x = l
    · rw [hne, hhere, hmap]
    · rw [hothers x hx hne]
  · refine Slots.count_succ_of_gain hl hmap hhere fun x hx hne => ?_
    rw [hothers x hx hne]

theorem readSmrBlocks_freeHddBufs (env : Env) (d : SmrDev) (buf : ℕ → Block) (l n : ℕ) :
    (d.readSmrBlocks env buf l n).2.buf.freeHddBufs = d.buf.freeHddBufs := by
  refine readSmrBlocks_keeps (P := fun d' => d'.buf.freeHddBufs = d.buf.freeHddBufs)
    (fun _ _ _ _ hd => ?_) (fun _ _ hd => ?_) buf rfl
  · exact hd
  · exact hd

end Store

end SmrDev

/-! ## 3.  A run -/

/-- The device in which the block of a write is stored: with the detector on, the one that
`detect_ext2_fs` has left. -/
def WriteStep.storing (env : Env) (st : WriteStep SmrDev) : SmrDev :=
  if env.aware then
    match st.before.detectExt2Fs (smrLayer env) st.buf st.blkNo with
    | .ok s => s.dev
    | .error _ => st.before.dev
  else st.before.dev

/-- The blocks that the writes of a run have swapped out. -/
def swappedBlks (env : Env) (w : List (WriteStep SmrDev)) : ℕ :=
  (w.map fun st => (st.storing env).storeSwapped st.blkNo).sum

/-- The blocks that they have rewritten in collections. -/
def movedBlks (env : Env) (w : List (WriteStep SmrDev)) : ℕ :=
  (w.map fun st => (st.storing env).storeMoved env st.blkNo).sum

/-- The writes among them of blocks without mapping. -/
def firstBlks (env : Env) (w : List (WriteStep SmrDev)) : ℕ :=
  (w.map fun st => (st.storing env).storeFirst st.blkNo).sum

/-- The writes among them of blocks that were in the buffer. -/
def hitBlks (env : Env) (w : List (WriteStep SmrDev)) : ℕ :=
  (w.map fun st => (st.storing env).storeHit st.blkNo).sum

/-- The block is stored in a device that keeps the invariant. -/
structure StoresOk (env : Env) (st : WriteStep SmrDev) : Prop where
  inv : DevInv (st.storing env)
  lt : st.blkNo < totalSmrBlocksCnt
  store : (st.storing env).storeBlock env st.blkNo st.buf = .ok st.after.dev

/-- What reads and calls of the detector do between two stores. -/
structure Quiet (env : Env) (gap : SmrDev → SmrDev → Prop) : Prop where
  refl : ∀ d, gap d d
  trans : ∀ d d' d'', gap d d' → gap d' d'' → gap d d''
  read : ∀ (d : SmrDev) (buf : ℕ → Block) (l n : ℕ), l + n ≤ totalSmrBlocksCnt → DevInv d →
    gap d (d.readSmrBlocks env buf l n).2
  detect : env.aware = true → ∀ (s s' : Ext2Sys SmrDev) (buf : Block) (l : ℕ), DevInv s.dev →
    s.detectExt2Fs (smrLayer env) buf l = .ok s' → gap s.dev s'.dev

section Runs

open Amortized

variable {env : Env} {gap : SmrDev → SmrDev → Prop} {s s' : Ext2Sys SmrDev}

/-- One write. -/
theorem storesOk_writeOne (hq : Quiet env gap) (h : BetweenCalls s) {buf : Block} {blkNo : ℕ}
    (hone : s.writeOne (smrLayer env) env.aware buf blkNo = .ok s') :
    gap s.dev (WriteStep.storing env ⟨s, blkNo, buf, s'⟩) ∧ StoresOk env ⟨s, blkNo, buf, s'⟩ := by
  obtain ⟨s₁, hs₁, hlt, dev, hstore, rfl⟩ := writeOne_ok hone
  split_ifs at hs₁ with haware
  · have hstoring : WriteStep.storing env ⟨s, blkNo, buf, { s₁ with dev := dev }⟩ = s₁.dev := by
      simp only [WriteStep.storing, haware, if_true, hs₁]
    obtain ⟨t, hst, -⟩ := h
    obtain ⟨t₁, -, hst₁⟩ := ((smrLayer_sim env).detectExt2Fs_refines hst buf blkNo).ok_of_ok hs₁
    rw [hstoring]
    refine ⟨hq.detect haware s s₁ buf blkNo hst.dev.inv hs₁, ?_, hlt, ?_⟩
    · rw [hstoring]
      exact hst₁.dev.inv
    · rw [hstoring]
      exact hstore
  · have hstoring : WriteStep.storing env ⟨s, blkNo, buf, { s₁ with dev := dev }⟩ = s.dev := by
      simp only [WriteStep.storing, haware, Bool.false_eq_true, if_false]
    rw [hs₁] at hstore
    rw [hstoring]
    refine ⟨hq.refl s.dev, ?_, hlt, ?_⟩
    · rw [hstoring]
      exact h.inv
    · rw [hstoring]
      exact hstore

/-- The writes of a call. -/
theorem leads_traceWrites (hq : Quiet env gap) (h : BetweenCalls s) {bufs : List Block} {blkNo : ℕ}
    (hrun : s.writeSmrBlocks (smrLayer env) env.aware bufs blkNo = .ok s') :
    Leads gap (WriteStep.storing env) (fun st => st.after.dev) s.dev
        (traceWrites (smrLayer env) env.aware s bufs blkNo) s'.dev ∧
      ∀ st ∈ traceWrites (smrLayer env) env.aware s bufs blkNo, StoresOk env st := by
  induction bufs generalizing s blkNo with
  | nil =>
    obtain rfl := Except.ok.inj hrun
    exact ⟨hq.refl _, fun _ hst => absurd hst List.not_mem_nil⟩
  | cons buf bufs ih =>
    obtain ⟨s₁, hone, hrest⟩ := writeSmrBlocks_cons_ok hrun
    obtain ⟨hgap, hstores⟩ := storesOk_writeOne hq h hone
    obtain ⟨hleads, hall⟩ := ih (h.writeOne hone).1 hrest
    rw [traceWrites_cons hone]
    exact ⟨⟨hgap, hleads⟩, List.forall_mem_cons.mpr ⟨hstores, hall⟩⟩

theorem BetweenCalls.runOp (h : BetweenCalls s) {op : HostOp} {out : List Block}
    (hop : MemSmr.runOp (smrLayer env) env.aware s op = .ok (out, s')) : BetweenCalls s' := by
  obtain ⟨t, hst, ht⟩ := h
  obtain ⟨⟨out', t'⟩, hop', -, hst'⟩ :=
    ((smrLayer_sim env).runOp_refines env.aware hst op).ok_of_ok hop
  refine ⟨t', hst', ?_⟩
  cases op with
  | write blkNo bufs =>
    exact (meets_writeSmrBlocks (fun t buf blkNo ht => meets_writeOne_array ht buf blkNo) ht
      bufs blkNo).of_ok (runOp_write_ok.mp hop').1
  | read blkNo bufs =>
    have hsame := ((readSmrBlocks_array_spec t bufs blkNo).of_ok hop').1
    dsimp only at hsame
    rwa [hsame]

/-- **The writes of a run**, with reads and calls of the detector between them. -/
theorem leads_trace (hq : Quiet env gap) (h : BetweenCalls s) {ops : List HostOp}
    {outs : List (List Block)} (hrun : runOps (smrLayer env) env.aware s ops = .ok (outs, s')) :
    Leads gap (WriteStep.storing env) (fun st => st.after.dev) s.dev
        (trace (smrLayer env) env.aware s ops) s'.dev ∧
      ∀ st ∈ trace (smrLayer env) env.aware s ops, StoresOk env st := by
  induction ops generalizing s outs with
  | nil =>
    obtain ⟨-, rfl⟩ := Prod.mk.inj (Except.ok.inj hrun)
    exact ⟨hq.refl _, fun _ hst => absurd hst List.not_mem_nil⟩
  | cons op ops ih =>
    obtain ⟨out, s₁, outs', hop, hrest, -⟩ := runOps_cons_ok.mp hrun
    obtain ⟨hleads, hall⟩ := ih (h.runOp hop) hrest
    rw [trace_cons hop]
    cases op with
    | write blkNo bufs =>
      obtain ⟨hfirst, hfirst'⟩ := leads_traceWrites hq h (runOp_write_ok.mp hop).1
      exact ⟨hfirst.append hq.trans hleads, List.forall_mem_append.mpr ⟨hfirst', hall⟩⟩
    | read blkNo bufs =>
      refine ⟨hleads.before hq.trans ?_, hall⟩
      rw [MemSmr.runOp, Ext2Sys.readSmrBlocks] at hop
      split_ifs at hop with hrange
      obtain ⟨-, rfl⟩ := Prod.mk.inj (Except.ok.inj hop)
      exact hq.read s.dev _ blkNo bufs.length hrange h.inv

/-! The number of writes. -/

theorem length_traceWrites {bufs : List Block} {blkNo : ℕ}
    (hrun : s.writeSmrBlocks (smrLayer env) env.aware bufs blkNo = .ok s') :
    (traceWrites (smrLayer env) env.aware s bufs blkNo).length = bufs.length := by
  induction bufs generalizing s blkNo with
  | nil => rfl
  | cons buf bufs ih =>
    obtain ⟨s₁, hone, hrest⟩ := writeSmrBlocks_cons_ok hrun
    rw [traceWrites_cons hone, List.length_cons, List.length_cons, ih hrest]

theorem length_trace {ops : List HostOp} {outs : List (List Block)}
    (hrun : runOps (smrLayer env) env.aware s ops = .ok (outs, s')) :
    (trace (smrLayer env) env.aware s ops).length = (ops.flatMap HostOp.writes).length := by
  induction ops generalizing s outs with
  | nil => rfl
  | cons op ops ih =>
    obtain ⟨out, s₁, outs', hop, hrest, -⟩ := runOps_cons_ok.mp hrun
    rw [trace_cons hop, List.length_append, List.flatMap_cons, List.length_append, ih hrest]
    congr 1
    cases op with
    | write blkNo bufs =>
      rw [HostOp.writes, List.length_map, List.length_zipIdx]
      exact length_traceWrites (runOp_write_ok.mp hop).1
    | read blkNo bufs => rfl

/-! What the moves leave alone. -/

/-- No buffer is taken. -/
theorem SmrDev.OnlyForgets.usedBufs_le {d d' : SmrDev} (h : d.OnlyForgets d') :
    d'.usedBufs ≤ d.usedBufs :=
  SmrDev.usedBufs_le_of_free fun q hq => (h.free q).mpr (Or.inr hq)

/-- Between two stores the buffers in use do not become more. -/
theorem quiet_usedBufs (env : Env) : Quiet env fun d d' => d'.usedBufs ≤ d.usedBufs where
  refl _ := le_refl _
  trans _ _ _ h h' := h'.trans h
  read d buf l n _ _ := (SmrDev.onlyForgets_readSmrBlocks env d buf l n).usedBufs_le
  detect _ _ _ _ _ _ hrun := (SmrDev.onlyForgets_detectExt2Fs hrun).usedBufs_le

/-- With the detector off, nothing happens between two stores to the buffers in use and to the blocks
that have a mapping. -/
theorem quiet_unaware (haware : env.aware = false) :
    Quiet env fun d d' => d'.usedBufs = d.usedBufs ∧ d'.mappedCnt = d.mappedCnt where
  refl _ := ⟨rfl, rfl⟩
  trans _ _ _ h h' := ⟨h'.1.trans h.1, h'.2.trans h.2⟩
  read d buf l n hrange h :=
    ⟨SmrDev.usedBufs_congr fun q _ => by rw [SmrDev.readSmrBlocks_freeHddBufs],
      SmrDev.mappedCnt_congr (SmrDev.readSmrBlocks_spec env buf h hrange).2.1.contents⟩
  detect h := by
    rw [haware] at h
    cases h

end Runs

/-- **The write amplification is bounded.**  In every run, with the detector on or off, let the host
write `n` blocks; let `sw` blocks be swapped out and `g` blocks be rewritten by collections, and let
`f` of the writes be of blocks without a mapping.  Each block that is swapped out was written before,
and stays behind that by the buffers in use; a collection is paid for by the swap or the first write
that asked for it.  So the disk and the buffer are written at most 17 times as often as the host
writes, but for the first writes and for what the buffer held at the beginning. -/
theorem write_amplification_bounded (env : Env) (s : Ext2Sys SmrDev) (hs : Reached s)
    (ops : List HostOp) (outs : List (List Block)) (s' : Ext2Sys SmrDev)
    (hrun : runOps (smrLayer env) env.aware s ops = .ok (outs, s')) :
    let w := trace (smrLayer env) env.aware s ops
    let n := (ops.flatMap HostOp.writes).length
    swappedBlks env w + firstBlks env w + s'.dev.usedBufs ≤ n + s.dev.usedBufs ∧
      movedBlks env w ≤ 15 * swappedBlks env w + 2047 * firstBlks env w ∧
      n + swappedBlks env w + movedBlks env w ≤
        17 * n + 16 * s.dev.usedBufs + 2031 * firstBlks env w := by
  intro w n
  obtain ⟨hleads, hstores⟩ := leads_trace (quiet_usedBufs env) hs.betweenCalls hrun
  have hlen : w.length = n := length_trace hrun
  have hflow := hleads.sum_le SmrDev.usedBufs
    (fun st => (st.storing env).storeSwapped st.blkNo + (st.storing env).storeFirst st.blkNo)
    (fun _ => 1) (fun _ _ h => h) fun st hst => by
      have hbal := SmrDev.storeBalance (hstores st hst).inv (hstores st hst).lt (hstores st hst).store
      omega
  have hmoved : movedBlks env w ≤ 15 * swappedBlks env w + 2047 * firstBlks env w := by
    unfold movedBlks swappedBlks firstBlks
    rw [← List.sum_map_mul_left, ← List.sum_map_mul_left, ← List.sum_map_add]
    exact List.sum_le_sum fun st hst =>
      SmrDev.storeMoved_le (hstores st hst).inv (hstores st hst).lt (hstores st hst).store
  rw [List.sum_map_add, List.map_const', List.sum_replicate, smul_eq_mul, Nat.mul_one] at hflow
  change swappedBlks env w + firstBlks env w + s'.dev.usedBufs ≤ w.length + s.dev.usedBufs at hflow
  rw [hlen] at hflow
  refine ⟨hflow, hmoved, ?_⟩
  omega

theorem write_amplification_bounded_overwrite :
    let env := plainEnv
    let s := initSmrDisk (freshModule fun _ => 0)
    let w := trace (smrLayer env) env.aware s overwriteOps
    let n := (overwriteOps.flatMap HostOp.writes).length
    ∃ outs s', runOps (smrLayer env) env.aware s overwriteOps = .ok (outs, s') ∧ s'.dev.Wrapped ∧
      swappedBlks env w + firstBlks env w + s'.dev.usedBufs ≤ n + s.dev.usedBufs ∧
      movedBlks env w ≤ 15 * swappedBlks env w + 2047 * firstBlks env w ∧
      n + swappedBlks env w + movedBlks env w ≤
        17 * n + 16 * s.dev.usedBufs + 2031 * firstBlks env w := by
  obtain ⟨outs, s', hrun, hwrapped⟩ := overwrite_run
  exact ⟨outs, s', hrun, hwrapped,
    write_amplification_bounded plainEnv _ (.init _) overwriteOps outs s' hrun⟩

/-- **The flow through the buffer balances.**  With the detector off, every write is a first write, or
finds its block in the buffer, or takes a buffer; and a swap frees as many buffers as it appends
blocks.  The first writes are the blocks that have got a mapping during the run. -/
theorem buffer_flow_balances (env : Env) (haware : env.aware = false) (s : Ext2Sys SmrDev)
    (hs : Reached s) (ops : List HostOp) (outs : List (List Block)) (s' : Ext2Sys SmrDev)
    (hrun : runOps (smrLayer env) env.aware s ops = .ok (outs, s')) :
    let w := trace (smrLayer env) env.aware s ops
    swappedBlks env w + firstBlks env w + hitBlks env w + s'.dev.usedBufs =
        (ops.flatMap HostOp.writes).length + s.dev.usedBufs ∧
      s.dev.mappedCnt + firstBlks env w = s'.dev.mappedCnt ∧
      s'.dev.mappedCnt ≤ totalSmrBlocksCnt := by
  intro w
  obtain ⟨hleads, hstores⟩ := leads_trace (quiet_unaware haware) hs.betweenCalls hrun
  have hlen : w.length = (ops.flatMap HostOp.writes).length := length_trace hrun
  refine ⟨?_, ?_, Nat.count_le _⟩
  · have hflow := hleads.sum_eq SmrDev.usedBufs
      (fun st => (st.storing env).storeSwapped st.blkNo +
        (st.storing env).storeFirst st.blkNo + (st.storing env).storeHit st.blkNo)
      (fun _ => 1) (fun _ _ h => h.1) fun st hst =>
        SmrDev.storeBalance (hstores st hst).inv (hstores st hst).lt (hstores st hst).store
    rw [List.sum_map_add, List.sum_map_add, List.map_const', List.sum_replicate, smul_eq_mul,
      Nat.mul_one] at hflow
    rw [← hlen]
    exact hflow
  · have hmapped := hleads.sum_eq SmrDev.mappedCnt (fun _ => 0)
      (fun st => (st.storing env).storeFirst st.blkNo) (fun _ _ h => h.2) fun st hst => by
        rw [SmrDev.mappedCnt_storeBlock (hstores st hst).inv (hstores st hst).lt
          (hstores st hst).store]
        omega
    rw [List.map_const', List.sum_replicate, smul_eq_mul, Nat.mul_zero, Nat.zero_add] at hmapped
    rw [hmapped, Nat.add_comm]
    rfl

theorem buffer_flow_balances_overwrite :
    let env := plainEnv
    let s := initSmrDisk (freshModule fun _ => 0)
    let w := trace (smrLayer env) env.aware s overwriteOps
    ∃ outs s', runOps (smrLayer env) env.aware s overwriteOps = .ok (outs, s') ∧ s'.dev.Wrapped ∧
      swappedBlks env w + firstBlks env w + hitBlks env w + s'.dev.usedBufs =
        (overwriteOps.flatMap HostOp.writes).length + s.dev.usedBufs ∧
      s.dev.mappedCnt + firstBlks env w = s'.dev.mappedCnt ∧
      s'.dev.mappedCnt ≤ totalSmrBlocksCnt := by
  obtain ⟨outs, s', hrun, hwrapped⟩ := overwrite_run
  exact ⟨outs, s', hrun, hwrapped,
    buffer_flow_balances plainEnv rfl _ (.init _) overwriteOps outs s' hrun⟩

end MemSmr
