import MemSmr.Requests
import MemSmr.FullRun

/-!
# The statistics of the simulator

The counters of the disk, of the buffer and of the driver over a run with the detector off.

* `swapped`, `collected`: the blocks that `swap_out_coldest` appends and that `do_gc_in_band` rewrites
  while a segment is transferred.
* `Counted`: how far a step has moved the counters.  There is one lemma for each function that counts.
* `Served`: the same for whole segments, and `served_doRequest` for runs of them.
* `amplification_balances`: the printed numbers are sums of what the host asked for and of these two.
-/

namespace MemSmr

open Outcome SmrDev

namespace SmrDev

/-! ## Extra work -/

/-- The blocks that `garbage_collecting` rewrites: the valid slots of the band that it gives to
`do_gc_in_band`. -/
def gcMoved (d : SmrDev) : ℕ :=
  if 0 < d.smr.fullyInvalidBands.size then 0
  else slotCount d.smr.smrReverseTable .validPhyBlock d.mostInvalidBand.1

/-- The blocks that `get_free_smr_block` has rewritten before it hands out a slot. -/
def appendMoved (env : Env) (d : SmrDev) : ℕ :=
  if d.smr.curPaddr % blocksPerBand = 0 ∧ d.phyStatusAt env d.smr.curPaddr ≠ .freePhyBlock then
    d.gcMoved
  else 0

/-- The blocks that are rewritten during `swap_out_coldest`. -/
def swapMoved (env : Env) (d : SmrDev) : ℕ :=
  ((visited (swapOutBuf env) d.selectColdBufs (List.range swapOutCnt)).map (appendMoved env)).sum

/-- The blocks that are rewritten during the write of a block. -/
def storeMoved (env : Env) (d : SmrDev) (blkNo : ℕ) : ℕ :=
  if d.Swaps blkNo then (d.invalidateMappingEntry blkNo).swapMoved env
  else if d.hasMapping blkNo then 0
  else d.appendMoved env

/-! ## The counters -/

/-- The blocks read, from the disk and from the buffer. -/
def readCnt (d : SmrDev) : UInt64 := d.smr.hddCnt.readCount + d.buf.rwCounter.readCount

/-- The blocks written, to the disk and into the buffer. -/
def writeCnt (d : SmrDev) : UInt64 := d.smr.hddCnt.writeCount + d.buf.rwCounter.writeCount

/-- The first number in the last line but one of `print_rw_info`. -/
def amplifiedWriteRead (d : SmrDev) : UInt64 :=
  d.smr.hddCnt.readCount + d.smr.hddCnt.writeCount + d.buf.rwCounter.readCount +
    d.buf.rwCounter.writeCount - d.smr.smrCnt.readCount

/-- A step in which `r` blocks are read and `w` blocks are written. -/
structure Counts (d d' : SmrDev) (r w : ℕ) : Prop where
  enabled : d'.smr.hddCnt.enable ≠ 0
  smr : d'.smr.smrCnt = d.smr.smrCnt
  reads : d'.readCnt = d.readCnt + UInt64.ofNat r
  writes : d'.writeCnt = d.writeCnt + UInt64.ofNat w

/-- The same if the counter of the disk is enabled. -/
def Counted (d d' : SmrDev) (r w : ℕ) : Prop := d.smr.hddCnt.enable ≠ 0 → Counts d d' r w

theorem Counted.of_eq {d d' : SmrDev} (hsmr : d'.smr.smrCnt = d.smr.smrCnt)
    (hhdd : d'.smr.hddCnt = d.smr.hddCnt) (hbuf : d'.buf.rwCounter = d.buf.rwCounter) :
    Counted d d' 0 0 := by
  intro he
  refine ⟨hhdd ▸ he, hsmr, ?_, ?_⟩
  · rw [readCnt, readCnt, hhdd, hbuf]
    exact (UInt64.add_zero _).symm
  · rw [writeCnt, writeCnt, hhdd, hbuf]
    exact (UInt64.add_zero _).symm

theorem Counted.refl (d : SmrDev) : Counted d d 0 0 := .of_eq rfl rfl rfl

theorem Counted.trans {d d' d'' : SmrDev} {r r' w w' : ℕ} (h : Counted d d' r w)
    (h' : Counted d' d'' r' w') : Counted d d'' (r + r') (w + w') := by
  intro he
  have h1 := h he
  have h2 := h' h1.enabled
  refine ⟨h2.enabled, h2.smr.trans h1.smr, ?_, ?_⟩
  · rw [h2.reads, h1.reads, UInt64.ofNat_add, UInt64.add_assoc]
  · rw [h2.writes, h1.writes, UInt64.ofNat_add, UInt64.add_assoc]

/-- Steps that do not count, after and before one that does. -/
theorem Counted.then_eq {d d' d'' : SmrDev} {r w : ℕ} (h : Counted d d' r w)
    (h' : Counted d' d'' 0 0) : Counted d d'' r w := h.trans h'

theorem Counted.eq_then {d d' d'' : SmrDev} {r w : ℕ} (h' : Counted d' d'' r w)
    (h : Counted d d' 0 0) : Counted d d'' r w := by
  have htrans := h.trans h'
  rwa [Nat.zero_add, Nat.zero_add] at htrans

/-! ### The disk -/

theorem counted_readHddBlock (d : SmrDev) (paddr : ℕ) : Counted d (d.readHddBlock paddr).2 1 0 := by
  intro he
  have hcnt : (d.readHddBlock paddr).2.smr.hddCnt =
      { d.smr.hddCnt with readCount := d.smr.hddCnt.readCount + UInt64.ofNat 1 } := if_pos he
  refine ⟨by rw [hcnt]; exact he, rfl, ?_, ?_⟩
  · rw [readCnt, readCnt, hcnt]
    dsimp only
    ac_rfl
  · rw [writeCnt, hcnt]
    exact (UInt64.add_zero _).symm

theorem counted_writeHddBlocks (d : SmrDev) (buf : ℕ → Block) (paddr n : ℕ) :
    Counted d (d.writeHddBlocks buf paddr n) 0 n := by
  intro he
  have hcnt : (d.writeHddBlocks buf paddr n).smr.hddCnt =
      { d.smr.hddCnt with writeCount := d.smr.hddCnt.writeCount + UInt64.ofNat n } := if_pos he
  refine ⟨by rw [hcnt]; exact he, rfl, ?_, ?_⟩
  · rw [readCnt, hcnt]
    exact (UInt64.add_zero _).symm
  · rw [writeCnt, writeCnt, hcnt]
    dsimp only
    ac_rfl

/-! ### The collection -/

theorem counted_gcRound (b : ℕ) (st : ℕ × SmrDev) (i : ℕ) :
    Counted st.2 (gcRound b st i).2 (if st.2.ValidAt b i then 1 else 0) 0 := by
  rw [gcRound]
  dsimp only
  by_cases hv : st.2.ValidAt b i
  · rw [if_pos hv, if_pos hv]
    exact (counted_readHddBlock st.2 (b * blocksPerBand + i)).then_eq (.of_eq rfl rfl rfl)
  · rw [if_neg hv, if_neg hv]
    exact .refl _

theorem counted_writeBackBand (d : SmrDev) (b : ℕ) (n : ℤ) :
    Counted d (d.writeBackBand b n) 0 n.toNat :=
  (counted_writeHddBlocks _ _ _ _).eq_then (.of_eq rfl rfl rfl)

/-- `do_gc_in_band` reads the valid blocks of the band and writes as many. -/
theorem counted_doGcInBand {d : SmrDev} {lo b : ℕ} (hs : StlInv d.smr lo)
    (hb : b < totalSmrBandsCnt) :
    Counted d (d.doGcInBand b).2 (slotCount d.smr.smrReverseTable .validPhyBlock b)
      (slotCount d.smr.smrReverseTable .validPhyBlock b) := by
  have hloop := Outcome.foldl_range (n := blocksPerBand) (a := ((0, d) : ℕ × SmrDev))
    (f := gcRound b) (fun i st => GcLoop d b i st ∧ Counted d st.2 (d.rank b i) 0)
    ⟨GcLoop.init d b, by rw [rank, Nat.count_zero]; exact .refl d⟩ fun i hi st h => by
      refine ⟨h.1.step (bandLinked_of_stlInv hs hb) hi, ?_⟩
      have hcounted := h.2.trans (counted_gcRound b st i)
      have hvalid : st.2.ValidAt b i ↔ d.ValidAt b i := by rw [ValidAt, ValidAt, h.1.unread]
      rw [if_congr hvalid rfl rfl] at hcounted
      rwa [rank, Nat.count_succ]
  have hread := hloop.2
  rw [rank_eq_slotCount] at hread
  have hwrite := hread.trans (counted_writeBackBand _ b (d.smr.phyBands b).validCnt)
  rwa [Nat.add_zero, Nat.zero_add, hs.validCnt_eq hb, Int.toNat_natCast, ← hs.validCnt_eq hb]
    at hwrite

theorem counted_garbageCollecting {d : SmrDev} {lo : ℕ} (hs : StlInv d.smr lo) :
    Counted d d.garbageCollecting d.gcMoved d.gcMoved := by
  rw [garbageCollecting, gcMoved]
  by_cases hq : 0 < d.smr.fullyInvalidBands.size
  · have hfull : Counted d d.getFullyInvalidBand.2 0 0 := by
      rw [getFullyInvalidBand, if_pos hq]
      exact .of_eq rfl rfl rfl
    rw [if_pos hq, if_pos hq]
    generalize d.getFullyInvalidBand = r at hfull ⊢
    obtain ⟨b, d'⟩ := r
    exact hfull.then_eq (.of_eq rfl rfl rfl)
  · have hgc := counted_doGcInBand hs d.mostInvalidBand_lt
    rw [if_neg hq, if_neg hq]
    generalize d.doGcInBand d.mostInvalidBand.1 = r at hgc ⊢
    obtain ⟨paddr, d'⟩ := r
    exact hgc.then_eq (.of_eq rfl rfl rfl)

/-! ### The append -/

theorem counted_checkFrontier (env : Env) {d : SmrDev} {lo : ℕ} (hs : StlInv d.smr lo) :
    Counted d (d.checkFrontier env) (d.appendMoved env) (d.appendMoved env) := by
  rw [checkFrontier]
  by_cases hmod : d.smr.curPaddr % blocksPerBand = 0
  · have hemit : Counted d (d.emit (.frontierCheck d.smr.curPaddr)) 0 0 := .of_eq rfl rfl rfl
    rw [if_pos hmod]
    by_cases hst : d.phyStatusAt env d.smr.curPaddr = .freePhyBlock
    · have hmoved : d.appendMoved env = 0 := if_neg fun h => h.2 hst
      rw [hmoved]
      dsimp only
      rw [if_neg fun h => h hst]
      exact hemit
    · have hmoved : d.appendMoved env = d.gcMoved := if_pos ⟨hmod, hst⟩
      rw [hmoved]
      change Counted d (if d.phyStatusAt env d.smr.curPaddr ≠ .freePhyBlock then _ else _) _ _
      rw [if_pos hst]
      exact (counted_garbageCollecting (d := d.emit (.frontierCheck d.smr.curPaddr)) hs).eq_then
        hemit
  · rw [appendMoved, if_neg hmod, if_neg fun h => hmod h.1]
    exact .refl d

theorem counted_placeBlock (d : SmrDev) (blk : Block) (l p : ℕ) :
    Counted d (d.placeBlock blk l p) 0 1 := by
  rw [placeBlock]
  exact (counted_writeHddBlocks _ _ _ 1).eq_then (.of_eq rfl rfl rfl)

/-- An append writes its block, and what the collection before it rewrites. -/
theorem counted_append {env : Env} {d d' : SmrDev} {lo l : ℕ} {buf : ℕ → Block}
    (hs : StlInv d.smr lo) (h : d.appendSmrBlocks env buf l 1 = .ok d') :
    Counted d d' (d.appendMoved env) (1 + d.appendMoved env) := by
  rw [appendSmrBlocks_one] at h
  split_ifs at h
  obtain rfl := Except.ok.inj h
  have hfree : Counted d (d.getFreeSmrBlock env).2 (d.appendMoved env) (d.appendMoved env) :=
    (counted_checkFrontier env hs).then_eq (.of_eq rfl rfl rfl)
  have htrans := hfree.trans
    (counted_placeBlock _ (buf 0) l (d.checkFrontier env).smr.curPaddr)
  rwa [Nat.add_zero, Nat.add_comm] at htrans

/-! ### The buffer -/

/-- A swap appends as many blocks as it takes out. -/
theorem counted_swapOutColdest {env : Env} {d d' : SmrDev} (h : DevInv d)
    (hfull : ∀ q, q ∉ d.buf.freeHddBufs) (hswap : d.swapOutColdest env = .ok d') :
    Counted d d' (d.swapMoved env) (swapOutCnt + d.swapMoved env) := by
  obtain ⟨⟨e, he⟩, hcold⟩ := selectColdBufs_spec d
  have hinit := SwapInv.init h hfull
  have hstart : Counted d d.selectColdBufs 0 0 := by
    rw [he]
    exact .of_eq rfl rfl rfl
  generalize d.selectColdBufs.coldBuf = c at hcold hinit
  have hloop : Outcome.Meets (fun _ => True)
      (fun d' => SwapInv d c swapOutCnt d' ∧
        Counted d d' (d.swapMoved env) (swapOutCnt + d.swapMoved env)) (d.swapOutColdest env) := by
    rw [swapOutColdest, swapMoved]
    refine meets_foldlM_visited (fun i m d' => SwapInv d c i d' ∧ Counted d d' m (i + m))
      ⟨hinit, hstart⟩ ?_
    rintro i hi m d' ⟨hinv, hcounted⟩
    have hstep := hinv.step env hcold hi
    cases hres : d'.swapOutBuf env i with
    | error e => trivial
    | ok d'' =>
      refine ⟨hstep.of_ok hres, ?_⟩
      rw [swapOutBuf] at hres
      obtain ⟨d₁, happend, hres⟩ := bind_eq_ok.mp hres
      obtain rfl := Except.ok.inj hres
      have hround : Counted d' d₁ (d'.appendMoved env) (1 + d'.appendMoved env) :=
        (counted_append (d := d'.resetPhyBufCounter (d'.coldBuf i)) hinv.inv.stl
          happend).eq_then (.of_eq rfl rfl rfl)
      have htrans := hcounted.trans hround
      have hsum : i + m + (1 + d'.appendMoved env) = i + 1 + (m + d'.appendMoved env) := by omega
      rw [hsum] at htrans
      exact htrans.then_eq (.of_eq rfl rfl rfl)
  exact (hloop.of_ok hswap).2

theorem counted_getOneFreeBuf (d : SmrDev) : Counted d d.getOneFreeBuf.2 0 0 := by
  rw [getOneFreeBuf]
  split_ifs
  · exact .of_eq rfl rfl rfl
  · exact .of_eq rfl rfl rfl

theorem counted_fillHddBuf (env : Env) (d : SmrDev) (l : ℕ) (blk : Block) (q : ℕ) :
    Counted d (d.fillHddBuf env l blk q) 0 1 := fun he =>
  ⟨he, rfl, (UInt64.add_zero _).symm, (UInt64.add_assoc _ _ _).symm⟩

section Store

variable {env : Env} {d d' : SmrDev} {l : ℕ} {blk : Block}

/-- A write into the buffer that finds a buffer. -/
theorem counted_writeBlock_room (hroom : d.inHddBuf l = true ∨ d.isHddBufFull = false)
    (hres : d.writeBlockIntoHddBuf env l blk = .ok d') : Counted d d' 0 1 := by
  rw [writeBlockIntoHddBuf, chooseHddBuf] at hres
  split_ifs at hres with hb hfull
  · obtain rfl := Except.ok.inj hres
    exact (counted_fillHddBuf env _ l blk _).eq_then (.of_eq rfl rfl rfl)
  · rw [hfull] at hroom
    exact absurd hroom (by simp [hb])
  · obtain rfl := Except.ok.inj hres
    exact (counted_fillHddBuf env _ l blk _).eq_then (counted_getOneFreeBuf d)

/-- A write into the buffer that has to swap. -/
theorem counted_writeBlock_swap (h : DevInv d) (hb : d.inHddBuf l = false)
    (hfull : d.isHddBufFull = true) (hres : d.writeBlockIntoHddBuf env l blk = .ok d') :
    Counted d d' (d.swapMoved env) (1 + swapOutCnt + d.swapMoved env) := by
  have hempty : ∀ q, q ∉ d.buf.freeHddBufs := fun q hq =>
    Nat.ne_of_gt (SortedVector.size_pos_iff.mpr ⟨q, hq⟩) (of_decide_eq_true hfull)
  rw [writeBlockIntoHddBuf, chooseHddBuf, if_neg (by rw [hb]; decide), if_pos hfull] at hres
  obtain ⟨r, hchoose, hres⟩ := bind_eq_ok.mp hres
  obtain ⟨d₁, hswap, hchoose⟩ := bind_eq_ok.mp hchoose
  obtain rfl := Except.ok.inj hchoose
  obtain rfl := Except.ok.inj hres
  have htrans := ((counted_swapOutColdest h hempty hswap).then_eq (counted_getOneFreeBuf d₁)).trans
    (counted_fillHddBuf env _ l blk d₁.getOneFreeBuf.1)
  have hsum : swapOutCnt + d.swapMoved env + 1 = 1 + swapOutCnt + d.swapMoved env := by omega
  rwa [Nat.add_zero, hsum] at htrans

/-- **The write of a block** reads what is rewritten, and writes the block, what is swapped out and what
is rewritten. -/
theorem counted_storeBlock (h : DevInv d) (hl : l < totalSmrBlocksCnt)
    (hres : d.storeBlock env l blk = .ok d') :
    Counted d d' (d.storeMoved env l) (1 + d.storeSwapped l + d.storeMoved env l) := by
  rw [storeMoved, storeSwapped]
  obtain ⟨hb, hres⟩ | ⟨hb, hs, hres⟩ | ⟨hb, hs, hres⟩ := storeBlock_cases hres
  · have hno : ¬ d.Swaps l := fun hswap => by
      rw [hswap.1] at hb
      cases hb
    rw [if_neg hno, if_neg hno, if_pos (by rw [hasMapping, hb, Bool.or_true])]
    exact counted_writeBlock_room (Or.inl hb) hres
  · have hf := inSmrDisk_iff.mp hs
    have hforgot : Counted d (d.invalidateMappingEntry l) 0 0 := by
      rw [invalidateMappingEntry_eq hf]
      exact .of_eq rfl rfl rfl
    have hsame := isHddBufFull_invalidate hf
    cases hfull : d.isHddBufFull with
    | true =>
      have hyes : d.Swaps l := ⟨hb, hs, hfull⟩
      rw [if_pos hyes, if_pos hyes]
      exact (counted_writeBlock_swap (devInv_invalidate h hl hf) (inHddBuf_invalidate hf)
        (hsame.trans hfull) hres).eq_then hforgot
    | false =>
      have hno : ¬ d.Swaps l := fun hswap => by
        rw [hswap.2.2] at hfull
        cases hfull
      rw [if_neg hno, if_neg hno, if_pos (by rw [hasMapping, hs, Bool.true_or])]
      exact (counted_writeBlock_room (Or.inr (hsame.trans hfull)) hres).eq_then hforgot
  · have hno : ¬ d.Swaps l := fun hswap => by
      rw [hswap.2.1] at hs
      cases hs
    rw [if_neg hno, if_neg hno, if_neg (by rw [hasMapping, hb, hs]; decide)]
    exact counted_append h.stl hres

end Store

/-! ### The read -/

theorem counted_readBlockFromHddBuf (env : Env) (d : SmrDev) (l : ℕ) :
    Counted d (d.readBlockFromHddBuf env l).2 1 0 := fun he =>
  ⟨he, rfl, (UInt64.add_assoc _ _ _).symm, (UInt64.add_zero _).symm⟩

/-- A read counts every block once, those without mapping at the end. -/
theorem counted_readSmrBlocks (env : Env) (d : SmrDev) (buf : ℕ → Block) (l n : ℕ) :
    Counted d (d.readSmrBlocks env buf l n).2 n 0 := by
  have hloop := Outcome.foldl_range (n := n) (a := ((buf, 0, d) : (ℕ → Block) × ℕ × SmrDev))
    (f := readRound env l)
    (fun i st => ∃ r, r + st.2.1 = i ∧ Counted d st.2.2 r 0) ⟨0, rfl, .refl d⟩ (by
      rintro i - ⟨b, k, d₁⟩ ⟨r, hr, hcounted⟩
      dsimp only at hr hcounted
      rw [readRound]
      dsimp only
      split_ifs
      · exact ⟨r + 1, by dsimp only; omega,
          hcounted.trans (counted_readBlockFromHddBuf env d₁ (l + i))⟩
      · exact ⟨r + 1, by dsimp only; omega, hcounted.trans
          (counted_readHddBlock d₁ (d₁.smr.mappingTable (l + i)).paddr)⟩
      · exact ⟨r, by dsimp only; omega, hcounted⟩)
  rw [readSmrBlocks]
  obtain ⟨r, hr, hcounted⟩ := hloop
  generalize (List.range n).foldl (readRound env l) (buf, 0, d) = st at hr hcounted ⊢
  have hmap : Counted st.2.2 { st.2.2 with smr := { st.2.2.smr with hddCnt :=
      { st.2.2.smr.hddCnt with
        readCount := st.2.2.smr.hddCnt.readCount + UInt64.ofNat st.2.1 } } } st.2.1 0 := fun he =>
    ⟨he, rfl, by rw [readCnt, readCnt]; dsimp only; ac_rfl, (UInt64.add_zero _).symm⟩
  have htrans := hcounted.trans hmap
  rwa [hr] at htrans

end SmrDev

/-! ## Segments -/

namespace Ended

variable (env : Env) (e : Ended)

/-- The blocks that the segment wrote, if it was accepted. -/
def blksWritten : ℕ :=
  if checkBlockSize e.segment.sector e.segment.nsect ∧ e.segment.write then e.segment.blks else 0

/-- The blocks that it read. -/
def blksRead : ℕ :=
  if checkBlockSize e.segment.sector e.segment.nsect ∧ ¬ e.segment.write then e.segment.blks else 0

/-- The writes of blocks that it led to. -/
def steps : List (WriteStep SmrDev) :=
  if checkBlockSize e.segment.sector e.segment.nsect ∧ e.segment.write then
    traceWrites (smrLayer env) env.aware e.before e.segment.bufs e.segment.firstBlk
  else []

/-- The blocks that `swap_out_coldest` appended. -/
def swapped : ℕ := ((e.steps env).map fun st => st.before.dev.storeSwapped st.blkNo).sum

/-- The blocks that `do_gc_in_band` rewrote. -/
def collected : ℕ := ((e.steps env).map fun st => st.before.dev.storeMoved env st.blkNo).sum

end Ended

/-- The statistics after some segments, compared with those before. -/
structure Served (env : Env) (d d' : SmrDev) (ended : List Ended) : Prop where
  enabled : d'.smr.hddCnt.enable ≠ 0
  smrReads : d'.smr.smrCnt.readCount =
    d.smr.smrCnt.readCount + UInt64.ofNat (ended.map Ended.blksRead).sum
  smrWrites : d'.smr.smrCnt.writeCount =
    d.smr.smrCnt.writeCount + UInt64.ofNat (ended.map Ended.blksWritten).sum
  reads : d'.readCnt = d.readCnt +
    UInt64.ofNat ((ended.map Ended.blksRead).sum + (ended.map (Ended.collected env)).sum)
  writes : d'.writeCnt = d.writeCnt + UInt64.ofNat ((ended.map Ended.blksWritten).sum +
    (ended.map (Ended.swapped env)).sum + (ended.map (Ended.collected env)).sum)

theorem Served.nil {env : Env} {d : SmrDev} (he : d.smr.hddCnt.enable ≠ 0) : Served env d d [] :=
  ⟨he, (UInt64.add_zero _).symm, (UInt64.add_zero _).symm, (UInt64.add_zero _).symm,
    (UInt64.add_zero _).symm⟩

theorem Served.cons {env : Env} {d d' d'' : SmrDev} {e : Ended} {ended : List Ended}
    (h : Served env d d' [e]) (h' : Served env d' d'' ended) : Served env d d'' (e :: ended) := by
  have hone : ∀ f : Ended → ℕ, ([e].map f).sum = f e := fun f => Nat.add_zero (f e)
  obtain ⟨-, h1, h2, h3, h4⟩ := h
  rw [hone] at h1 h2
  rw [hone, hone] at h3
  rw [hone, hone, hone] at h4
  refine ⟨h'.enabled, ?_, ?_, ?_, ?_⟩
  · rw [h'.smrReads, h1, UInt64.add_assoc, ← UInt64.ofNat_add, List.map_cons, List.sum_cons]
  · rw [h'.smrWrites, h2, UInt64.add_assoc, ← UInt64.ofNat_add, List.map_cons, List.sum_cons]
  · rw [h'.reads, h3, UInt64.add_assoc, ← UInt64.ofNat_add]
    simp only [List.map_cons, List.sum_cons]
    congr 2
    omega
  · rw [h'.writes, h4, UInt64.add_assoc, ← UInt64.ofNat_add]
    simp only [List.map_cons, List.sum_cons]
    congr 2
    omega

section Transfers

variable {env : Env} {s s' : Ext2Sys SmrDev}

/-- The writes of one call. -/
theorem counted_writeSmrBlocks (haware : env.aware = false) (h : BetweenCalls s)
    {bufs : List Block} {blkNo : ℕ}
    (hrun : s.writeSmrBlocks (smrLayer env) env.aware bufs blkNo = .ok s') :
    let steps := traceWrites (smrLayer env) env.aware s bufs blkNo
    Counted s.dev s'.dev (steps.map fun st => st.before.dev.storeMoved env st.blkNo).sum
      (bufs.length + (steps.map fun st => st.before.dev.storeSwapped st.blkNo).sum +
        (steps.map fun st => st.before.dev.storeMoved env st.blkNo).sum) := by
  induction bufs generalizing s blkNo with
  | nil =>
    obtain rfl := Except.ok.inj hrun
    exact .refl _
  | cons buf bufs ih =>
    obtain ⟨s₁, hone, hrest⟩ := writeSmrBlocks_cons_ok hrun
    have hlater := ih (h.writeOne hone).1 hrest
    have hone' := hone
    rw [haware] at hone'
    obtain ⟨hlt, dev, hstore, rfl⟩ := writeOne_unaware_ok.mp hone'
    have htrans := (counted_storeBlock h.inv hlt hstore).trans hlater
    rw [traceWrites_cons hone]
    simp only [List.map_cons, List.sum_cons, List.length_cons]
    convert htrans using 1
    omega

/-- **One segment.** -/
theorem served_doDataTransfer (haware : env.aware = false) (h : BetweenCalls s)
    (he : s.dev.smr.hddCnt.enable ≠ 0) {seg : Segment} {buffer : ℕ → Block}
    (hrun : doDataTransfer env s seg = .ok (buffer, s')) :
    Served env s.dev s'.dev [⟨seg, s, buffer, s', 0⟩] := by
  have hone : ∀ f : Ended → ℕ, ([⟨seg, s, buffer, s', 0⟩].map f).sum = f ⟨seg, s, buffer, s', 0⟩ :=
    fun f => Nat.add_zero _
  have hblks : UInt64.ofNat seg.blks = seg.nsect / kernSectsPerHardSect := UInt64.ofNat_toNat
  cases hacc : checkBlockSize seg.sector seg.nsect with
  | false =>
    rw [doDataTransfer_rejected hacc] at hrun
    obtain ⟨rfl, rfl⟩ := Prod.mk.inj (Except.ok.inj hrun)
    refine ⟨he, ?_, ?_, ?_, ?_⟩
    all_goals
      simp only [hone, Ended.blksRead, Ended.blksWritten, Ended.collected, Ended.swapped,
        Ended.steps, hacc, Bool.false_eq_true, false_and, if_false, List.map_nil, List.sum_nil]
      exact (UInt64.add_zero _).symm
  | true =>
    cases hw : seg.write with
    | true =>
      obtain ⟨s₁, hs₁, rfl⟩ := doDataTransfer_write_ok hacc hw hrun
      have hcounts := counted_writeSmrBlocks haware h hs₁ he
      rw [Segment.bufs, List.length_map, List.length_range, ← Segment.bufs] at hcounts
      refine ⟨hcounts.enabled, ?_, ?_, ?_, ?_⟩
      all_goals
        simp only [hone, Ended.blksRead, Ended.blksWritten, Ended.collected, Ended.swapped,
          Ended.steps, hacc, hw, not_true_eq_false, and_true, and_false, if_true, if_false,
          Nat.zero_add]
      · exact (congrArg DsCounter.readCount hcounts.smr).trans (UInt64.add_zero _).symm
      · rw [hblks, ← hcounts.smr]
        rfl
      · exact hcounts.reads
      · exact hcounts.writes
    | false =>
      obtain ⟨out, s₁, hread, -, rfl⟩ := doDataTransfer_read_ok hacc hw hrun
      have hcounts : Counts s.dev s₁.dev seg.blks 0 := by
        split_ifs at hread with h0
        · obtain ⟨-, rfl⟩ := Prod.mk.inj (Except.ok.inj hread)
          rw [h0]
          exact Counted.refl _ he
        · rw [Ext2Sys.readSmrBlocks] at hread
          split_ifs at hread
          obtain ⟨-, rfl⟩ := Prod.mk.inj (Except.ok.inj hread)
          have hlen : seg.bufs.length = seg.blks := by
            rw [Segment.bufs, List.length_map, List.length_range]
          rw [hlen]
          exact counted_readSmrBlocks env s.dev _ seg.firstBlk seg.blks he
      refine ⟨hcounts.enabled, ?_, ?_, ?_, ?_⟩
      all_goals
        simp only [hone, Ended.blksRead, Ended.blksWritten, Ended.collected, Ended.swapped,
          Ended.steps, hacc, hw, Bool.false_eq_true, not_false_eq_true, and_true, and_false,
          if_true, if_false, List.map_nil, List.sum_nil, Nat.add_zero]
      · rw [hblks, ← hcounts.smr]
        rfl
      · exact (congrArg DsCounter.writeCount hcounts.smr).trans (UInt64.add_zero _).symm
      · exact hcounts.reads
      · exact hcounts.writes

/-- **A run**, segment by segment. -/
theorem served_doRequest (haware : env.aware = false) (h : BetweenCalls s)
    (he : s.dev.smr.hddCnt.enable ≠ 0) {segs : List Segment} {ended : List Ended}
    (hrun : doRequest env s segs = .ok (ended, s')) : Served env s.dev s'.dev ended := by
  induction segs generalizing s ended with
  | nil =>
    obtain ⟨rfl, rfl⟩ := Prod.mk.inj (Except.ok.inj hrun)
    exact .nil he
  | cons seg segs ih =>
    obtain ⟨buffer, s₁, ended', hseg, hsegs, rfl⟩ := doRequest_cons_ok hrun
    have hone := served_doDataTransfer haware h he hseg
    exact hone.cons (ih (h.doDataTransfer hseg) hone.enabled hsegs)

theorem doDataTransfer_ok (hpast : env.PastEndNotFree) (haware : env.aware = false)
    (h : BetweenCalls s) {seg : Segment}
    (hrange : checkBlockSize seg.sector seg.nsect = true → seg.blks ≠ 0 →
      seg.firstBlk + seg.blks ≤ totalSmrBlocksCnt) :
    ∃ buffer s', doDataTransfer env s seg = .ok (buffer, s') := by
  obtain ⟨t, hst, -⟩ := h
  have hlen : seg.bufs.length = seg.blks := by
    rw [Segment.bufs, List.length_map, List.length_range]
  cases hacc : checkBlockSize seg.sector seg.nsect with
  | false => exact ⟨_, _, doDataTransfer_rejected hacc⟩
  | true =>
    rcases Nat.eq_zero_or_pos seg.blks with h0 | hpos
    · have hnil : seg.bufs = [] := List.eq_nil_of_length_eq_zero (hlen.trans h0)
      cases hw : seg.write with
      | true => exact ⟨_, _, doDataTransfer_write hacc hw (by rw [hnil]; rfl)⟩
      | false =>
        rw [doDataTransfer, if_neg (by rw [hacc]; decide), if_neg (by rw [hw]; decide), if_pos h0]
        exact ⟨_, _, rfl⟩
    · have hle := hrange hacc hpos.ne'
      rw [← hlen] at hle
      cases hw : seg.write with
      | true =>
        have hrefines := (smrLayer_sim env).writeSmrBlocks_refines env.aware hst seg.bufs
          seg.firstBlk
        rw [haware, writeSmrBlocks_array t hle, ← haware] at hrefines
        cases hres : s.writeSmrBlocks (smrLayer env) env.aware seg.bufs seg.firstBlk with
        | ok s₁ => exact ⟨_, _, doDataTransfer_write hacc hw hres⟩
        | error e =>
          rw [hres] at hrefines
          exact absurd hrefines (not_pastEndFault hpast e)
      | false =>
        rw [doDataTransfer, if_neg (by rw [hacc]; decide), if_neg (by rw [hw]; decide),
          if_neg hpos.ne', Ext2Sys.readSmrBlocks, if_pos hle]
        exact ⟨_, _, rfl⟩

/-- **A run ends** if its segments lie inside the device. -/
theorem doRequest_ok (hpast : env.PastEndNotFree) (haware : env.aware = false)
    (h : BetweenCalls s) {segs : List Segment}
    (hrange : ∀ seg ∈ segs, checkBlockSize seg.sector seg.nsect = true → seg.blks ≠ 0 →
      seg.firstBlk + seg.blks ≤ totalSmrBlocksCnt) :
    ∃ ended s', doRequest env s segs = .ok (ended, s') := by
  induction segs generalizing s with
  | nil => exact ⟨[], s, rfl⟩
  | cons seg segs ih =>
    obtain ⟨hseg, hsegs⟩ := List.forall_mem_cons.mp hrange
    obtain ⟨buffer, s₁, hone⟩ := doDataTransfer_ok hpast haware h hseg
    obtain ⟨ended, s', hrest⟩ := ih (h.doDataTransfer hone) hsegs
    rw [doRequest, hone, ok_bind]
    dsimp only
    rw [hrest]
    exact ⟨_, _, rfl⟩

end Transfers

/-! ## The balance -/

/-- All counters are zero and enabled. -/
def SmrDev.CountersClear (d : SmrDev) : Prop :=
  ∀ c ∈ [d.smr.smrCnt, d.smr.hddCnt, d.buf.rwCounter],
    c.enable ≠ 0 ∧ c.readCount = 0 ∧ c.writeCount = 0

theorem countersClear_init (data : ℕ → Block) :
    (initSmrDisk (freshModule data)).dev.CountersClear := by
  obtain ⟨table, bands, bufs, -, -, -, heq⟩ := SmrDev.initTables_eq (freshModule data).dev
  change (freshModule data).dev.initTables.CountersClear
  rw [heq]
  intro c hc
  simp only [List.mem_cons, List.not_mem_nil, or_false] at hc
  rcases hc with rfl | rfl | rfl
  all_goals exact ⟨Int.one_ne_zero, rfl, rfl⟩

/-- **The statistics balance.**  With the detector off and from clear counters, the numbers that
`print_rw_info` shows are the blocks that the host wrote and read, those that were swapped out, and
those that were collected.  A run over segments inside the device ends. -/
theorem amplification_balances (env : Env) (haware : env.aware = false) (s : Ext2Sys SmrDev)
    (hs : Reached s) (hclear : s.dev.CountersClear) (segs : List Segment) :
    (∀ ended s', doRequest env s segs = .ok (ended, s') →
      let uw := (ended.map Ended.blksWritten).sum
      let ur := (ended.map Ended.blksRead).sum
      let sw := (ended.map (Ended.swapped env)).sum
      let g := (ended.map (Ended.collected env)).sum
      s'.dev.smr.smrCnt.writeCount = UInt64.ofNat uw ∧
      s'.dev.smr.smrCnt.readCount = UInt64.ofNat ur ∧
      s'.dev.smr.hddCnt.readCount + s'.dev.buf.rwCounter.readCount = UInt64.ofNat (ur + g) ∧
      s'.dev.smr.hddCnt.writeCount + s'.dev.buf.rwCounter.writeCount =
        UInt64.ofNat (uw + sw + g) ∧
      s'.dev.amplifiedWriteRead = UInt64.ofNat (uw + sw + 2 * g)) ∧
    (env.PastEndNotFree →
      (∀ seg ∈ segs, checkBlockSize seg.sector seg.nsect = true → seg.blks ≠ 0 →
        seg.firstBlk + seg.blks ≤ totalSmrBlocksCnt) →
      ∃ ended s', doRequest env s segs = .ok (ended, s')) := by
  have hbetween := hs.betweenCalls
  refine ⟨fun ended s' hrun => ?_, fun hpast hrange => doRequest_ok hpast haware hbetween hrange⟩
  obtain ⟨-, hsmrRead, hsmrWrite⟩ := hclear s.dev.smr.smrCnt (by simp)
  obtain ⟨henable, hhddRead, hhddWrite⟩ := hclear s.dev.smr.hddCnt (by simp)
  obtain ⟨-, hbufRead, hbufWrite⟩ := hclear s.dev.buf.rwCounter (by simp)
  obtain ⟨-, hsmrReads, hsmrWrites, hreads, hwrites⟩ :=
    served_doRequest haware hbetween henable hrun
  rw [hsmrRead, UInt64.zero_add] at hsmrReads
  rw [hsmrWrite, UInt64.zero_add] at hsmrWrites
  have hread0 : s.dev.readCnt = 0 := by
    rw [SmrDev.readCnt, hhddRead, hbufRead]
    rfl
  have hwrite0 : s.dev.writeCnt = 0 := by
    rw [SmrDev.writeCnt, hhddWrite, hbufWrite]
    rfl
  rw [hread0, UInt64.zero_add] at hreads
  rw [hwrite0, UInt64.zero_add] at hwrites
  refine ⟨hsmrWrites, hsmrReads, hreads, hwrites, ?_⟩
  have hsum : s'.dev.smr.hddCnt.readCount + s'.dev.smr.hddCnt.writeCount +
      s'.dev.buf.rwCounter.readCount + s'.dev.buf.rwCounter.writeCount =
        s'.dev.writeCnt + s'.dev.readCnt := by
    rw [SmrDev.readCnt, SmrDev.writeCnt]
    ac_rfl
  have htotal : ∀ uw ur sw g : ℕ, uw + sw + g + (ur + g) = uw + sw + 2 * g + ur := by
    intro uw ur sw g
    omega
  rw [SmrDev.amplifiedWriteRead, hsum, hreads, hwrites, hsmrReads, ← UInt64.ofNat_add, htotal,
    UInt64.ofNat_add, UInt64.add_sub_cancel]

/-- One segment, which writes block 5. -/
theorem amplification_balances_overwrite :
    let env := plainEnv
    let s := initSmrDisk (freshModule fun _ => 0)
    ∃ ended s', doRequest env s (overwriteQueue.flatMap fun r => r.first :: r.rest) =
        .ok (ended, s') ∧ s'.dev.Wrapped ∧
      (let uw := (ended.map Ended.blksWritten).sum
      let ur := (ended.map Ended.blksRead).sum
      let sw := (ended.map (Ended.swapped env)).sum
      let g := (ended.map (Ended.collected env)).sum
      s'.dev.smr.smrCnt.writeCount = UInt64.ofNat uw ∧
      s'.dev.smr.smrCnt.readCount = UInt64.ofNat ur ∧
      s'.dev.smr.hddCnt.readCount + s'.dev.buf.rwCounter.readCount = UInt64.ofNat (ur + g) ∧
      s'.dev.smr.hddCnt.writeCount + s'.dev.buf.rwCounter.writeCount =
        UInt64.ofNat (uw + sw + g) ∧
      s'.dev.amplifiedWriteRead = UInt64.ofNat (uw + sw + 2 * g)) := by
  intro env s
  obtain ⟨ended, s', hserve, -, hwrapped⟩ := overwrite_served
  exact ⟨ended, s', hserve, hwrapped,
    (amplification_balances env rfl s (.init _) (countersClear_init _) _).1 ended s' hserve⟩

end MemSmr
