import MemSmr.Requests

/-!
# What a swap moves

`swap_out_coldest` is called when no buffer is free.  It moves the blocks of `SWAP_OUT_CNT` buffers to
the SMR area and touches no other block, although the appends may collect garbage on the way.

* `SwapRound`: what one round does to the block in the victim and to the rest.
* `SwapMoves`: what the first rounds have done.
* `SwappedOut`: what the swap has done.
* `swap_out_moves_victims`: from every state that keeps the invariant, and so from every state that
  the module reaches, whatever the access counts.
-/

namespace MemSmr

open Outcome

namespace SmrDev

/-! ## One round -/

/-- One round of a swap: `l` is the block in buffer `q`. -/
structure SwapRound (d d' : SmrDev) (l q : ℕ) : Prop extends Touches d d' l where
  here : (d'.smr.mappingTable l).mappingFlag = .inSmrDisk
  handed : ∃ table past, d'.log = .handed (d'.smr.mappingTable l).paddr table :: past
  buf : d'.buf = { d.buf with
    reverseTable := Function.update d.buf.reverseTable q ⟨l, 0, 0⟩
    freeHddBufs := d.buf.freeHddBufs.insert q }

theorem swapRound_of_ok {env : Env} {d d' : SmrDev} {i : ℕ} (h : DevInv d)
    (hq : d.coldBuf i < blocksOfHddBuf) (hfree : d.coldBuf i ∉ d.buf.freeHddBufs)
    (hok : d.swapOutBuf env i = .ok d') :
    SwapRound d d' (d.buf.reverseTable (d.coldBuf i)).blkNo (d.coldBuf i) := by
  rw [swapOutBuf] at hok
  generalize d.coldBuf i = q at hq hfree hok ⊢
  obtain ⟨d₂, happend, hrest⟩ := bind_eq_ok.mp hok
  obtain rfl := Except.ok.inj hrest
  have hblk : ((d.resetPhyBufCounter q).buf.reverseTable q) =
      ⟨(d.buf.reverseTable q).blkNo, 0, 0⟩ := Function.update_self _ _ _
  rw [hblk] at happend
  obtain ⟨hl, hflag, -⟩ := h.buf.rev q hq hfree
  have hd₁ := devInv_resetPhyBufCounter h q
  obtain ⟨-, -, ha⟩ := (appendSmrBlocks_spec env (fun _ => (d.resetPhyBufCounter q).buf.hddBuf q)
    hd₁.stl hd₁.log hl (by
      change (d.smr.mappingTable _).mappingFlag ≠ _
      rw [hflag]
      decide)).of_ok happend
  have hhanded := appendSmrBlocks_handed happend
  refine ⟨⟨ha.flag, ha.metaFlag, ha.paddr, ha.contents⟩, ha.here, hhanded, ?_⟩
  simp only [setFreeHddBufs, ha.buf]
  rfl

/-! ## The first rounds -/

/-- The victims of the first `n` rounds have been moved; `c` lists the victims. -/
structure SwapMoves (d : SmrDev) (c : ℕ → ℕ) (n : ℕ) (d' : SmrDev) : Prop
    extends SwapInv d c n d' where
  hddBuf : d'.buf.hddBuf = d.buf.hddBuf
  zeroed : ∀ j < n, d'.buf.reverseTable (c j) = ⟨(d.buf.reverseTable (c j)).blkNo, 0, 0⟩
  otherBufs : ∀ q, (∀ j < n, q ≠ c j) → d'.buf.reverseTable q = d.buf.reverseTable q
  moved : ∀ j < n,
    (d'.smr.mappingTable (d.buf.reverseTable (c j)).blkNo).mappingFlag = .inSmrDisk
  otherFlags : ∀ l, (∀ j < n, l ≠ (d.buf.reverseTable (c j)).blkNo) →
    (d'.smr.mappingTable l).mappingFlag = (d.smr.mappingTable l).mappingFlag
  otherPaddrs : ∀ l < totalSmrBlocksCnt, (∀ j < n, l ≠ (d.buf.reverseTable (c j)).blkNo) →
    (d.smr.mappingTable l).mappingFlag ≠ .inSmrDisk →
      (d'.smr.mappingTable l).paddr = (d.smr.mappingTable l).paddr

theorem SwapMoves.init {d : SmrDev} (h : DevInv d) (hfull : ∀ q, q ∉ d.buf.freeHddBufs) :
    SwapMoves d d.selectColdBufs.coldBuf 0 d.selectColdBufs := by
  have hinv := SwapInv.init h hfull
  obtain ⟨e, he⟩ := d.selectColdBufs_spec.1
  rw [he] at hinv ⊢
  exact
    { toSwapInv := hinv
      hddBuf := rfl
      zeroed := fun j hj => absurd hj (Nat.not_lt_zero j)
      otherBufs := fun _ _ => rfl
      moved := fun j hj => absurd hj (Nat.not_lt_zero j)
      otherFlags := fun _ _ => rfl
      otherPaddrs := fun _ _ _ _ => rfl }

section Moves

variable {env : Env} {d d' d'' : SmrDev} {c : ℕ → ℕ} {i : ℕ}

/-- The next victim has not been touched yet. -/
theorem SwapMoves.victim (h : SwapMoves d c i d') (hcold : ColdBufs c swapOutCnt blocksOfHddBuf)
    (hi : i < swapOutCnt) :
    d'.coldBuf i = c i ∧ c i ∉ d'.buf.freeHddBufs ∧
      d'.buf.reverseTable (c i) = d.buf.reverseTable (c i) := by
  have hne : ∀ j < i, c i ≠ c j := fun j hj heq =>
    Nat.ne_of_gt hj (hcold.inj i hi j (Nat.lt_trans hj hi) heq)
  refine ⟨congrFun h.cold i, fun hmem => ?_, h.otherBufs _ hne⟩
  obtain ⟨j, hj, heq⟩ := (h.free _).mp hmem
  exact hne j hj heq

theorem SwapMoves.round (h : SwapMoves d c i d') (hcold : ColdBufs c swapOutCnt blocksOfHddBuf)
    (hi : i < swapOutCnt) (hok : d'.swapOutBuf env i = .ok d'') :
    SwapRound d' d'' (d.buf.reverseTable (c i)).blkNo (c i) := by
  obtain ⟨hvictim, hfree, hblk⟩ := h.victim hcold hi
  have hround := swapRound_of_ok h.inv (by rw [hvictim]; exact hcold.lt i hi)
    (by rwa [hvictim]) hok
  rwa [hvictim, hblk] at hround

/-- **One more round.**  The victims are distinct, so the buffers of the rounds before are not
touched. -/
theorem SwapMoves.step (h : SwapMoves d c i d') (hcold : ColdBufs c swapOutCnt blocksOfHddBuf)
    (hi : i < swapOutCnt) (hok : d'.swapOutBuf env i = .ok d'') : SwapMoves d c (i + 1) d'' := by
  have hround := h.round hcold hi hok
  have hbefore : ∀ {P : ℕ → Prop}, (∀ j < i + 1, P j) → (∀ j < i, P j) ∧ P i := fun hP =>
    ⟨fun j hj => hP j (Nat.lt_succ_of_lt hj), hP i (Nat.lt_succ_self i)⟩
  refine
    { toSwapInv := (h.toSwapInv.step env hcold hi).of_ok hok
      hddBuf := ?_
      zeroed := fun j hj => ?_
      otherBufs := fun q hq => ?_
      moved := fun j hj => ?_
      otherFlags := fun l hl => ?_
      otherPaddrs := fun l hlt hl hf => ?_ }
  · rw [hround.buf]
    exact h.hddBuf
  · rw [hround.buf]
    dsimp only
    rcases Nat.lt_succ_iff_lt_or_eq.mp hj with hlt | rfl
    · rw [Function.update_of_ne]
      · exact h.zeroed j hlt
      · exact fun heq => Nat.ne_of_lt hlt (hcold.inj j (Nat.lt_trans hlt hi) i hi heq)
    · exact Function.update_self _ _ _
  · rw [hround.buf]
    dsimp only
    rw [Function.update_of_ne (hbefore hq).2]
    exact h.otherBufs q (hbefore hq).1
  · by_cases heq : (d.buf.reverseTable (c j)).blkNo = (d.buf.reverseTable (c i)).blkNo
    · rw [heq]
      exact hround.here
    · rw [hround.flag _ heq]
      refine h.moved j (Nat.lt_of_le_of_ne (Nat.le_of_lt_succ hj) ?_)
      rintro rfl
      exact heq rfl
  · rw [hround.flag l (hbefore hl).2]
    exact h.otherFlags l (hbefore hl).1
  · have hflag := h.otherFlags l (hbefore hl).1
    rw [hround.paddr l hlt (hbefore hl).2 (by rwa [hflag])]
    exact h.otherPaddrs l hlt (hbefore hl).1 hf

end Moves

/-! ## The swap -/

/-- Block `l` is in a slot of the SMR area that holds `blk` and that no other block has. -/
structure InOwnSlot (d : SmrDev) (l : ℕ) (blk : Block) : Prop where
  flag : (d.smr.mappingTable l).mappingFlag = .inSmrDisk
  lt : (d.smr.mappingTable l).paddr < totalSmrBlocksCnt
  rev : d.smr.smrReverseTable (d.smr.mappingTable l).paddr = ⟨l, .validPhyBlock⟩
  bytes : d.data (d.smr.mappingTable l).paddr = blk
  own : ∀ l' < totalSmrBlocksCnt, (d.smr.mappingTable l').mappingFlag = .inSmrDisk →
    (d.smr.mappingTable l').paddr = (d.smr.mappingTable l).paddr → l' = l

theorem inOwnSlot_of_contents {d : SmrDev} {l : ℕ} {blk : Block} (h : DevInv d)
    (hl : l < totalSmrBlocksCnt) (hf : (d.smr.mappingTable l).mappingFlag = .inSmrDisk)
    (hblk : d.contents l = some blk) : d.InOwnSlot l blk := by
  obtain ⟨hlt, hrev⟩ := h.stl.fwd l hl hf
  rw [contents_of_inSmrDisk hf] at hblk
  refine ⟨hf, hlt, hrev, Option.some.inj hblk, fun l' hl' hf' heq => ?_⟩
  have hrev' := (h.stl.fwd l' hl' hf').2
  rw [heq, hrev] at hrev'
  exact (congrArg ReverseMappingEntry.blkNo hrev').symm

/-- Block `l` has just been given its slot, which was free when it was handed out. -/
def FreshlyPlaced (d : SmrDev) (l : ℕ) : Prop :=
  ∃ table past, d.log = .handed (d.smr.mappingTable l).paddr table :: past ∧
    (table (d.smr.mappingTable l).paddr).phyStatus = .freePhyBlock

/-- What a swap does whose victims `c` lists. -/
structure SwappedOut (env : Env) (d d' : SmrDev) (c : ℕ → ℕ) : Prop where
  /-- The victims are distinct buffers. -/
  lt : ∀ i < swapOutCnt, c i < blocksOfHddBuf
  distinct : ∀ i < swapOutCnt, ∀ j < swapOutCnt, c i = c j → i = j
  /-- Just they are free now, and their counts are zero. -/
  free : ∀ q, q ∈ d'.buf.freeHddBufs ↔ ∃ i < swapOutCnt, q = c i
  zeroed : ∀ i < swapOutCnt,
    (d'.buf.reverseTable (c i)).readCnt = 0 ∧ (d'.buf.reverseTable (c i)).writeCnt = 0
  /-- The block that a victim held has a slot of its own, with the same bytes.  Its round gave it a
  slot that was free. -/
  moved : ∀ i < swapOutCnt,
    (d.buf.reverseTable (c i)).blkNo < totalSmrBlocksCnt ∧
      d'.InOwnSlot (d.buf.reverseTable (c i)).blkNo (d.buf.hddBuf (c i))
  fresh : ∃ st : ℕ → SmrDev, st 0 = d.selectColdBufs ∧ st swapOutCnt = d' ∧
    ∀ i < swapOutCnt, (st i).swapOutBuf env i = .ok (st (i + 1)) ∧
      (st (i + 1)).InOwnSlot (d.buf.reverseTable (c i)).blkNo (d.buf.hddBuf (c i)) ∧
      (st (i + 1)).FreshlyPlaced (d.buf.reverseTable (c i)).blkNo
  /-- The other buffers keep block, bytes and counts. -/
  otherBufs : ∀ q < blocksOfHddBuf, (∀ i < swapOutCnt, q ≠ c i) →
    d'.buf.reverseTable q = d.buf.reverseTable q ∧ d'.buf.hddBuf q = d.buf.hddBuf q ∧
      (d'.smr.mappingTable (d.buf.reverseTable q).blkNo).mappingFlag = .inHddBuf ∧
      (d'.smr.mappingTable (d.buf.reverseTable q).blkNo).paddr = q
  /-- The other blocks keep their contents. -/
  others : ∀ l < totalSmrBlocksCnt, (∀ i < swapOutCnt, l ≠ (d.buf.reverseTable (c i)).blkNo) →
    (d'.smr.mappingTable l).mappingFlag = (d.smr.mappingTable l).mappingFlag ∧
      d'.contents l = d.contents l

section Swap

variable {env : Env} {d d' : SmrDev} {c : ℕ → ℕ} {n i : ℕ}

/-- The block of an earlier victim is in its slot. -/
theorem SwapMoves.inOwnSlot (h : SwapMoves d c n d') (hd : DevInv d)
    (hfull : ∀ q, q ∉ d.buf.freeHddBufs) (hi : i < n) (hc : c i < blocksOfHddBuf) :
    d'.InOwnSlot (d.buf.reverseTable (c i)).blkNo (d.buf.hddBuf (c i)) := by
  have hl := (hd.buf.rev (c i) hc (hfull _)).1
  refine inOwnSlot_of_contents h.inv hl (h.moved i hi) ?_
  rw [h.view.contents _ hl]
  exact hd.buf.contents_blkNo hc (hfull _)

theorem SwapRound.freshlyPlaced {l q : ℕ} (h : SwapRound d d' l q) (hlog : LogInv d') :
    d'.FreshlyPlaced l := by
  obtain ⟨table, past, heq⟩ := h.handed
  have hok := hlog.ok
  rw [heq] at hok
  exact ⟨table, past, heq, hok.1.2.1⟩

theorem swappedOut_of_ok (hd : DevInv d) (hfull : ∀ q, q ∉ d.buf.freeHddBufs)
    (hok : d.swapOutColdest env = .ok d') :
    SwappedOut env d d' d.selectColdBufs.coldBuf := by
  have hcold := d.selectColdBufs_spec.2
  have hinit := SwapMoves.init hd hfull
  generalize d.selectColdBufs.coldBuf = c at hcold hinit ⊢
  rw [swapOutColdest] at hok
  obtain ⟨st, h0, hn, hst⟩ := foldlM_range_eq_ok hok
  have hmoves : ∀ i ≤ swapOutCnt, SwapMoves d c i (st i) := by
    intro i hi
    induction i with
    | zero =>
      rw [h0]
      exact hinit
    | succ i ih => exact (ih (Nat.le_of_succ_le hi)).step hcold hi (hst i hi)
  have hend := hmoves swapOutCnt le_rfl
  rw [hn] at hend
  refine
    { lt := hcold.lt
      distinct := hcold.inj
      free := hend.free
      zeroed := fun i hi => by
        rw [hend.zeroed i hi]
        exact ⟨rfl, rfl⟩
      moved := fun i hi => ⟨(hd.buf.rev (c i) (hcold.lt i hi) (hfull _)).1,
        hend.inOwnSlot hd hfull hi (hcold.lt i hi)⟩
      fresh := ⟨st, h0, hn, fun i hi => ⟨hst i hi, ?_, ?_⟩⟩
      otherBufs := fun q hq hne => ?_
      others := fun l hl hne => ⟨hend.otherFlags l hne, hend.view.contents l hl⟩ }
  · exact (hmoves (i + 1) hi).inOwnSlot hd hfull (Nat.lt_succ_self i) (hcold.lt i hi)
  · exact ((hmoves i hi.le).round hcold hi (hst i hi)).freshlyPlaced (hmoves (i + 1) hi).inv.log
  · obtain ⟨hl, hf, hp⟩ := hd.buf.rev q hq (hfull q)
    -- Two buffers do not hold the same block.
    have hblk : ∀ i < swapOutCnt, (d.buf.reverseTable q).blkNo ≠
        (d.buf.reverseTable (c i)).blkNo := fun i hi heq => hne i hi (by
      rw [← hp, heq, (hd.buf.rev (c i) (hcold.lt i hi) (hfull _)).2.2])
    refine ⟨hend.otherBufs q hne, congrFun hend.hddBuf q, (hend.otherFlags _ hblk).trans hf, ?_⟩
    rw [hend.otherPaddrs _ hl hblk (by rw [hf]; decide), hp]

end Swap

/-- The access counts of the buffers replaced. -/
def withAccessCounts (d : SmrDev) (readCnt writeCnt : ℕ → Int32) : SmrDev :=
  { d with buf := { d.buf with
      reverseTable := fun q => ⟨(d.buf.reverseTable q).blkNo, readCnt q, writeCnt q⟩ } }

theorem devInv_withAccessCounts {d : SmrDev} (h : DevInv d) (readCnt writeCnt : ℕ → Int32) :
    DevInv (d.withAccessCounts readCnt writeCnt) :=
  ⟨h.stl, h.buf.congr rfl fun _ => rfl, h.free, h.log.congr rfl rfl⟩

/-- **A swap moves exactly its victims.**  The invariant holds in every state that the module
reaches, whatever the access counts are, and at every step on the way to it. -/
theorem swap_out_moves_victims (env : Env) (hpast : env.PastEndNotFree) :
    (∀ s, Reached s → ∀ readCnt writeCnt, DevInv (s.dev.withAccessCounts readCnt writeCnt)) ∧
      ∀ d : SmrDev, DevInv d → d.buf.freeHddBufs.size = 0 →
        ∃ d', d.swapOutColdest env = .ok d' ∧
          SwappedOut env d d' d.selectColdBufs.coldBuf := by
  refine ⟨fun s hs r w => devInv_withAccessCounts hs.betweenCalls.inv r w, fun d hd hsize => ?_⟩
  have hfull : ∀ q, q ∉ d.buf.freeHddBufs := fun q hq =>
    Nat.ne_of_gt (SortedVector.size_pos_iff.mpr ⟨q, hq⟩) hsize
  obtain ⟨d', hok, -⟩ := (swapOutColdest_spec env hd hfull).exists_ok fun e _ =>
    not_pastEndFault hpast e
  exact ⟨d', hok, swappedOut_of_ok hd hfull hok⟩

/-- A swap when every buffer is in use. -/
theorem swap_out_moves_victims_full : ∃ d',
    fullDev.swapOutColdest ⟨true, false, fun _ => .other 0⟩ = .ok d' ∧
      SwappedOut ⟨true, false, fun _ => .other 0⟩ fullDev d'
        fullDev.selectColdBufs.coldBuf :=
  (swap_out_moves_victims ⟨true, false, fun _ => .other 0⟩ fun _ h => by cases h).2 fullDev
    devInv_fullDev rfl

end SmrDev

end MemSmr
