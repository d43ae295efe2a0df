import MemSmr.Append

/-!
# The HDD buffer

`DevInv` is the invariant of the translation layer between two operations.  The results say what
each operation of `hdd_buf.c` does to it and to the contents.

* `selectColdBufs_spec`: the buffers chosen for the swap are distinct.
* `swapOutColdest_spec`: a swap frees buffers and cannot be seen.
* `writeBlockIntoHddBuf_spec`, `reclaim_spec`, `readBlockFromHddBuf_spec`.
-/

namespace MemSmr

/-- The invariant of the translation layer. -/
structure DevInv (d : SmrDev) : Prop where
  stl : StlInv d.smr d.smr.curPaddr
  buf : BufInv d (· ∈ d.buf.freeHddBufs)
  free : ∀ q ∈ d.buf.freeHddBufs, q < blocksOfHddBuf
  log : LogInv d

namespace SmrDev

/-- A step that cannot be seen. -/
structure SameView (d d' : SmrDev) : Prop where
  metaFlag : ∀ l, (d'.smr.mappingTable l).metaFlag = (d.smr.mappingTable l).metaFlag
  contents : ∀ l < totalSmrBlocksCnt, d'.contents l = d.contents l

theorem SameView.refl (d : SmrDev) : SameView d d := ⟨fun _ => rfl, fun _ _ => rfl⟩

theorem SameView.trans {d d' d'' : SmrDev} (h : SameView d d') (h' : SameView d' d'') :
    SameView d d'' where
  metaFlag l := (h'.metaFlag l).trans (h.metaFlag l)
  contents l hl := (h'.contents l hl).trans (h.contents l hl)

theorem contents_eq_none_iff {d : SmrDev} {l : ℕ} :
    d.contents l = none ↔ (d.smr.mappingTable l).mappingFlag ≠ .inHddBuf ∧
      (d.smr.mappingTable l).mappingFlag ≠ .inSmrDisk := by
  refine ⟨fun h => ⟨fun hf => ?_, fun hf => ?_⟩, fun h => contents_of_unmapped h.1 h.2⟩
  · rw [contents_of_inHddBuf hf] at h
    cases h
  · rw [contents_of_inSmrDisk hf] at h
    cases h

/-! ## Which assignments matter -/

/-- The invariant of the SMR area does not speak of blocks outside it. -/
theorem stlInv_update {s s' : SmrCtrData} {lo l : ℕ} {e : MappingEntry} (hs : StlInv s lo)
    (hmap : s'.mappingTable = Function.update s.mappingTable l e)
    (hrev : s'.smrReverseTable = s.smrReverseTable) (hbands : s'.phyBands = s.phyBands)
    (hqueue : s'.fullyInvalidBands = s.fullyInvalidBands)
    (hflag : (s.mappingTable l).mappingFlag ≠ .inSmrDisk) (he : e.mappingFlag ≠ .inSmrDisk) :
    StlInv s' lo := by
  obtain ⟨hfwd, hrev', hknown, hcounts, hq, hfrontier⟩ := hs
  constructor
  all_goals simp only [hmap, hrev, hbands, hqueue]
  case fwd =>
    intro l' hl' hf
    by_cases hne : l' = l
    · rw [hne, Function.update_self] at hf
      exact absurd hf he
    · rw [Function.update_of_ne hne] at hf ⊢
      exact hfwd l' hl' hf
  case rev =>
    intro p hp l' hr
    obtain ⟨h1, h2, h3⟩ := hrev' p hp l' hr
    have hne : l' ≠ l := fun heq => hflag (heq ▸ h2)
    rw [Function.update_of_ne hne]
    exact ⟨h1, h2, h3⟩
  all_goals assumption

end SmrDev

namespace BufInv

variable {d d' : SmrDev} {F F' : ℕ → Prop} {q : ℕ}

/-- The invariant of the buffer speaks of the blocks in it and of the block numbers. -/
theorem congr (h : BufInv d F)
    (hmap : d'.smr.mappingTable = d.smr.mappingTable)
    (hblk : ∀ q, (d'.buf.reverseTable q).blkNo = (d.buf.reverseTable q).blkNo) : BufInv d' F := by
  obtain ⟨h1, h2⟩ := h
  constructor
  · simp only [hmap, hblk]
    exact h1
  · simp only [hmap, hblk]
    exact h2

/-- The block in a buffer that is not free. -/
theorem contents_blkNo (h : BufInv d F)
    (hq : q < blocksOfHddBuf) (hF : ¬ F q) :
    d.contents (d.buf.reverseTable q).blkNo = some (d.buf.hddBuf q) := by
  obtain ⟨-, h2, h3⟩ := h.rev q hq hF
  rw [SmrDev.contents_of_inHddBuf h2, h3]

/-- A block that is appended to the SMR area leaves its buffer behind. -/
theorem append {blk : Block} (h : BufInv d F) (hq : q < blocksOfHddBuf) (hqF : ¬ F q)
    (ha : SmrDev.Appended d d' (d.buf.reverseTable q).blkNo blk)
    (hblk : ∀ q, (d'.buf.reverseTable q).blkNo = (d.buf.reverseTable q).blkNo)
    (hF : ∀ x, F' x ↔ x = q ∨ F x) : BufInv d' F' where
  fwd l' hl' hf := by
    have hne : l' ≠ (d.buf.reverseTable q).blkNo := by
      rintro rfl
      rw [ha.here] at hf
      cases hf
    rw [ha.flag l' hne] at hf
    obtain ⟨h1, h2, h3⟩ := h.fwd l' hl' hf
    rw [ha.paddr l' hl' hne (by rw [hf]; decide), hblk, hF]
    refine ⟨h1, fun h' => h'.elim (fun heq => hne ?_) h2, h3⟩
    rw [← h3, heq]
  rev x hx hx' := by
    rw [hF, not_or] at hx'
    obtain ⟨h1, h2, h3⟩ := h.rev x hx hx'.2
    rw [hblk]
    have hne : (d.buf.reverseTable x).blkNo ≠ (d.buf.reverseTable q).blkNo := by
      intro heq
      rw [heq, (h.rev q hq hqF).2.2] at h3
      exact hx'.1 h3.symm
    rw [ha.flag _ hne, ha.paddr _ h1 hne (by rw [h2]; decide)]
    exact ⟨h1, h2, h3⟩

/-- A step on a block that is not in the buffer. -/
theorem touches {l : ℕ} (h : BufInv d F) (ht : SmrDev.Touches d d' l) (hbuf : d'.buf = d.buf)
    (h0 : (d.smr.mappingTable l).mappingFlag ≠ .inHddBuf)
    (h1 : (d'.smr.mappingTable l).mappingFlag ≠ .inHddBuf) : BufInv d' F where
  fwd l' hl' hf := by
    have hne : l' ≠ l := fun heq => h1 (heq ▸ hf)
    rw [ht.flag l' hne] at hf
    rw [ht.paddr l' hl' hne (by rw [hf]; decide), hbuf]
    exact h.fwd l' hl' hf
  rev x hx hx' := by
    obtain ⟨h1, h2, h3⟩ := h.rev x hx hx'
    have hne : (d.buf.reverseTable x).blkNo ≠ l := fun heq => h0 (heq ▸ h2)
    rw [hbuf, ht.flag _ hne, ht.paddr _ h1 hne (by rw [h2]; decide)]
    exact ⟨h1, h2, h3⟩

end BufInv

namespace SmrDev

/-! ## The choice of the buffers to swap out -/

/-- The first `n` entries of `cold_bufs` are distinct buffers below `m`. -/
structure ColdBufs (c : ℕ → ℕ) (n m : ℕ) : Prop where
  lt : ∀ i < n, c i < m
  inj : ∀ i < n, ∀ j < n, c i = c j → i = j

/-- A buffer that is not among them yet takes the place `pos`, and the rest are kept. -/
theorem ColdBufs.update {c : ℕ → ℕ} {n m k pos : ℕ} (h : ColdBufs c n m)
    (hk : ∀ i < k, i ≠ pos → i < n) : ColdBufs (Function.update c pos m) k (m + 1) where
  lt i hi := by
    by_cases hne : i = pos
    · rw [hne, Function.update_self]
      exact Nat.lt_succ_self m
    · rw [Function.update_of_ne hne]
      exact Nat.lt_succ_of_lt (h.lt i (hk i hi hne))
  inj i hi j hj heq := by
    by_cases hip : i = pos
    · by_cases hjp : j = pos
      · exact hip.trans hjp.symm
      · rw [hip, Function.update_self, Function.update_of_ne hjp] at heq
        exact absurd heq (Nat.ne_of_gt (h.lt j (hk j hj hjp)))
    · by_cases hjp : j = pos
      · rw [hjp, Function.update_self, Function.update_of_ne hip] at heq
        exact absurd heq (Nat.ne_of_lt (h.lt i (hk i hi hip)))
      · rw [Function.update_of_ne hip, Function.update_of_ne hjp] at heq
        exact h.inj i (hk i hi hip) j (hk j hj hjp) heq

/-- An assignment to `cold_bufs`, as a whole. -/
def setColdBufs (d : SmrDev) (e : ℕ → ℤ) : SmrDev := { d with buf := { d.buf with coldBufs := e } }

theorem coldBuf_setColdBuf (d : SmrDev) (i bufNo : ℕ) :
    (d.setColdBuf i bufNo).coldBuf = Function.update d.coldBuf i bufNo := by
  funext j
  unfold coldBuf setColdBuf
  dsimp only
  by_cases hj : j = i
  · rw [hj, Function.update_self, Function.update_self, Int.toNat_natCast]
  · rw [Function.update_of_ne hj, Function.update_of_ne hj]

/-- `update_cold_buf` does nothing, or it puts `buf_no` somewhere. -/
theorem updateColdBuf_cases (d : SmrDev) (bufNo : ℕ) :
    d.updateColdBuf bufNo = d ∨ ∃ pos, d.updateColdBuf bufNo = d.setColdBuf pos bufNo := by
  rw [updateColdBuf]
  rcases d.scanColdBufs bufNo with _ | ⟨_ | pos, max⟩
  · exact Or.inl rfl
  · dsimp only
    split_ifs <;> exact Or.inl rfl
  · dsimp only
    split_ifs
    · exact Or.inr ⟨pos, rfl⟩
    · exact Or.inl rfl

/-- The first `n` rounds of the selection. -/
theorem selectRounds_spec (d : SmrDev) (n : ℕ) : ∃ e, (List.range n).foldl
    (fun d i => if i < swapOutCnt then d.setColdBuf i i else d.updateColdBuf i) d =
      d.setColdBufs e ∧ ColdBufs (d.setColdBufs e).coldBuf (min n swapOutCnt) n := by
  refine Outcome.foldl_range
    (fun i d' => ∃ e, d' = d.setColdBufs e ∧ ColdBufs (d.setColdBufs e).coldBuf (min i swapOutCnt) i)
    ⟨d.buf.coldBufs, rfl, ⟨fun i hi => absurd hi (by omega), fun i hi => absurd hi (by omega)⟩⟩ ?_
  rintro i - _ ⟨e, rfl, hcold⟩
  have hnext : ∀ {k pos : ℕ}, ColdBufs (Function.update (d.setColdBufs e).coldBuf pos i) k (i + 1) →
      ∃ e', (d.setColdBufs e).setColdBuf pos i = d.setColdBufs e' ∧
        ColdBufs (d.setColdBufs e').coldBuf k (i + 1) := fun h =>
    ⟨_, rfl, (coldBuf_setColdBuf (d.setColdBufs e) _ i).symm ▸ h⟩
  split_ifs with hi
  · rw [Nat.min_eq_left hi.le] at hcold
    rw [Nat.min_eq_left hi]
    exact hnext (hcold.update fun j hj hne => by omega)
  · have hmin : min i swapOutCnt = swapOutCnt := Nat.min_eq_right (Nat.not_lt.mp hi)
    rw [hmin] at hcold
    rw [Nat.min_eq_right (Nat.le_succ_of_le (Nat.not_lt.mp hi))]
    rcases updateColdBuf_cases (d.setColdBufs e) i with heq | ⟨pos, heq⟩
    · exact ⟨e, heq, fun j hj => Nat.lt_succ_of_lt (hcold.lt j hj), hcold.inj⟩
    · rw [heq]
      exact hnext (hcold.update fun j hj _ => hj)

theorem swapOutCnt_le : swapOutCnt ≤ blocksOfHddBuf := by
  rw [swapOutCnt_eq, blocksOfHddBuf_eq]
  decide

/-- **The victims of a swap are distinct buffers**, and nothing else changes in the selection. -/
theorem selectColdBufs_spec (d : SmrDev) : (∃ e, d.selectColdBufs = d.setColdBufs e) ∧
    ColdBufs d.selectColdBufs.coldBuf swapOutCnt blocksOfHddBuf := by
  obtain ⟨e, he, hcold⟩ := selectRounds_spec d blocksOfHddBuf
  rw [Nat.min_eq_right swapOutCnt_le] at hcold
  rw [← selectColdBufs] at he
  rw [← he] at hcold
  exact ⟨⟨e, he⟩, hcold⟩

/-! ## The swap -/

/-- An assignment to the counters of a buffer. -/
theorem devInv_resetPhyBufCounter {d : SmrDev} (h : DevInv d) (q : ℕ) :
    DevInv (d.resetPhyBufCounter q) where
  stl := h.stl
  buf := h.buf.congr rfl fun x => by
    simp only [resetPhyBufCounter, setHddBufEntry]
    by_cases hne : x = q
    · rw [hne, Function.update_self]
    · rw [Function.update_of_ne hne]
  free := h.free
  log := h.log.congr rfl rfl

theorem sameView_resetPhyBufCounter (d : SmrDev) (q : ℕ) :
    SameView d (d.resetPhyBufCounter q) := ⟨fun _ => rfl, fun _ _ => rfl⟩

/-- One round of a swap: the victim moves to the SMR area and its buffer becomes free. -/
theorem swapOutBuf_spec (env : Env) {d : SmrDev} {i : ℕ} (h : DevInv d)
    (hq : d.coldBuf i < blocksOfHddBuf) (hfree : d.coldBuf i ∉ d.buf.freeHddBufs) :
    Outcome.Meets (PastEndFault env)
      (fun d' => DevInv d' ∧ SameView d d' ∧ d'.coldBuf = d.coldBuf ∧
        ∀ q, q ∈ d'.buf.freeHddBufs ↔ q = d.coldBuf i ∨ q ∈ d.buf.freeHddBufs)
      (d.swapOutBuf env i) := by
  rw [swapOutBuf]
  have hd₁ := devInv_resetPhyBufCounter h (d.coldBuf i)
  have hview := sameView_resetPhyBufCounter d (d.coldBuf i)
  generalize d.coldBuf i = q at *
  have hbuf : (d.resetPhyBufCounter q).buf.freeHddBufs = d.buf.freeHddBufs := rfl
  have hcold : (d.resetPhyBufCounter q).coldBuf = d.coldBuf := rfl
  generalize d.resetPhyBufCounter q = d₁ at *
  rw [← hbuf] at hfree
  obtain ⟨hl, hflag, -⟩ := hd₁.buf.rev q hq hfree
  refine Outcome.Meets.bind (appendSmrBlocks_spec env _ hd₁.stl hd₁.log hl (by rw [hflag]; decide))
    fun d₂ ⟨hstl, hlog, ha⟩ => ?_
  have hfree' : ∀ x, x ∈ (d₂.setFreeHddBufs (d₂.buf.freeHddBufs.insert q)).buf.freeHddBufs ↔
      x = q ∨ x ∈ d₁.buf.freeHddBufs := fun x => by
    simp only [setFreeHddBufs]
    rw [SortedVector.mem_insert, ha.buf]
  refine ⟨⟨hstl.congr rfl rfl rfl rfl, ?_, fun x hx => ?_, hlog.congr rfl rfl⟩,
    hview.trans ⟨ha.metaFlag, fun l hl' => ?_⟩,
    (congrArg (fun b i => (b.coldBufs i).toNat) ha.buf).trans hcold, fun x => ?_⟩
  · exact (hd₁.buf.append hq hfree ha (fun x => by rw [ha.buf]) hfree').congr rfl fun _ => rfl
  · rcases (hfree' x).mp hx with rfl | hx
    · exact hq
    · exact hd₁.free x hx
  · by_cases hne : l = (d₁.buf.reverseTable q).blkNo
    · rw [hne, hd₁.buf.contents_blkNo hq hfree]
      exact ha.stored
    · exact ha.contents l hl' hne
  · rw [hfree', hbuf]

/-- The invariant of the second loop of `swap_out_coldest`, before round `i`. -/
structure SwapInv (d : SmrDev) (c : ℕ → ℕ) (i : ℕ) (d' : SmrDev) : Prop where
  inv : DevInv d'
  view : SameView d d'
  cold : d'.coldBuf = c
  free : ∀ q, q ∈ d'.buf.freeHddBufs ↔ ∃ j < i, q = c j

theorem SwapInv.step {d d' : SmrDev} {c : ℕ → ℕ} {i : ℕ} (env : Env)
    (hcold : ColdBufs c swapOutCnt blocksOfHddBuf) (hi : i < swapOutCnt) (h : SwapInv d c i d') :
    Outcome.Meets (PastEndFault env) (SwapInv d c (i + 1)) (d'.swapOutBuf env i) := by
  have hnot : d'.coldBuf i ∉ d'.buf.freeHddBufs := by
    rw [h.cold, h.free]
    rintro ⟨j, hj, heq⟩
    exact Nat.ne_of_gt hj (hcold.inj i hi j (Nat.lt_trans hj hi) heq)
  have hlt : d'.coldBuf i < blocksOfHddBuf := by
    rw [h.cold]
    exact hcold.lt i hi
  refine (swapOutBuf_spec env h.inv hlt hnot).mono fun d'' ⟨h1, h2, h3, h4⟩ =>
    ⟨h1, h.view.trans h2, h3.trans h.cold, fun q => ?_⟩
  rw [h4, h.cold, h.free]
  constructor
  · rintro (rfl | ⟨j, hj, rfl⟩)
    · exact ⟨i, Nat.lt_succ_self i, rfl⟩
    · exact ⟨j, Nat.lt_succ_of_lt hj, rfl⟩
  · rintro ⟨j, hj, rfl⟩
    rcases Nat.lt_succ_iff_lt_or_eq.mp hj with hj | rfl
    · exact Or.inr ⟨j, hj, rfl⟩
    · exact Or.inl rfl

theorem SwapInv.init {d : SmrDev} (h : DevInv d) (hfull : ∀ q, q ∉ d.buf.freeHddBufs) :
    SwapInv d d.selectColdBufs.coldBuf 0 d.selectColdBufs := by
  obtain ⟨e, he⟩ := d.selectColdBufs_spec.1
  rw [he]
  exact
    { inv := ⟨h.stl, h.buf.congr rfl fun _ => rfl, h.free, h.log.congr rfl rfl⟩
      view := ⟨fun _ => rfl, fun _ _ => rfl⟩
      cold := rfl
      free := fun q => ⟨fun hq => absurd hq (hfull q),
        fun ⟨j, hj, _⟩ => absurd hj (Nat.not_lt_zero j)⟩ }

/-- **A swap cannot be seen**, and it leaves free buffers. -/
theorem swapOutColdest_spec (env : Env) {d : SmrDev} (h : DevInv d)
    (hfull : ∀ q, q ∉ d.buf.freeHddBufs) :
    Outcome.Meets (PastEndFault env)
      (fun d' => DevInv d' ∧ SameView d d' ∧ 0 < d'.buf.freeHddBufs.size)
      (d.swapOutColdest env) := by
  have hcold := d.selectColdBufs_spec.2
  rw [swapOutColdest]
  have hloop : Outcome.Meets (PastEndFault env) (SwapInv d d.selectColdBufs.coldBuf swapOutCnt)
      ((List.range swapOutCnt).foldlM (swapOutBuf env) d.selectColdBufs) :=
    Outcome.meets_foldlM_range (SwapInv d d.selectColdBufs.coldBuf) (.init h hfull)
      fun _ hi _ hd' => hd'.step env hcold hi
  generalize (List.range swapOutCnt).foldlM (swapOutBuf env) d.selectColdBufs = x at hloop ⊢
  refine hloop.mono fun d' hd' =>
    ⟨hd'.inv, hd'.view, SortedVector.size_pos_iff.mpr ⟨d.selectColdBufs.coldBuf 0, ?_⟩⟩
  rw [hd'.free]
  exact ⟨0, by rw [swapOutCnt_eq]; decide, rfl⟩

/-! ## Writing into the buffer -/

/-- Buffer `q` may be filled with block `l`: it is not free, and no other block is in it. -/
structure Fillable (d : SmrDev) (l q : ℕ) : Prop where
  lt : q < blocksOfHddBuf
  notFree : q ∉ d.buf.freeHddBufs
  fwd : ∀ l' < totalSmrBlocksCnt, l' ≠ l → (d.smr.mappingTable l').mappingFlag = .inHddBuf →
    (d.smr.mappingTable l').paddr < blocksOfHddBuf ∧
      (d.smr.mappingTable l').paddr ∉ d.buf.freeHddBufs ∧ (d.smr.mappingTable l').paddr ≠ q ∧
      (d.buf.reverseTable (d.smr.mappingTable l').paddr).blkNo = l'
  rev : ∀ x < blocksOfHddBuf, x ∉ d.buf.freeHddBufs → x ≠ q →
    (d.buf.reverseTable x).blkNo < totalSmrBlocksCnt ∧ (d.buf.reverseTable x).blkNo ≠ l ∧
      (d.smr.mappingTable (d.buf.reverseTable x).blkNo).mappingFlag = .inHddBuf ∧
      (d.smr.mappingTable (d.buf.reverseTable x).blkNo).paddr = x

/-- A block that is in the buffer may be written again. -/
theorem fillable_of_inHddBuf {d : SmrDev} {l : ℕ} (h : DevInv d) (hl : l < totalSmrBlocksCnt)
    (hf : (d.smr.mappingTable l).mappingFlag = .inHddBuf) :
    Fillable d l (d.smr.mappingTable l).paddr := by
  obtain ⟨h1, h2, h3⟩ := h.buf.fwd l hl hf
  refine ⟨h1, h2, fun l' hl' hne hf' => ?_, fun x hx hx' hne => ?_⟩
  · obtain ⟨h1', h2', h3'⟩ := h.buf.fwd l' hl' hf'
    refine ⟨h1', h2', fun heq => hne ?_, h3'⟩
    rw [← h3', heq, h3]
  · obtain ⟨h1', h2', h3'⟩ := h.buf.rev x hx hx'
    refine ⟨h1', fun heq => hne ?_, h2', h3'⟩
    rw [← h3', heq]

theorem getOneFreeBuf_eq {d : SmrDev} (h : 0 < d.buf.freeHddBufs.size) :
    d.getOneFreeBuf = (d.buf.freeHddBufs.get 0,
      (d.emit (.freeBufAsked d.buf.freeHddBufs.size)).setFreeHddBufs
        (d.buf.freeHddBufs.remove (d.buf.freeHddBufs.get 0))) := by
  rw [getOneFreeBuf]
  exact if_neg (Nat.ne_of_gt h)

/-- What may be assumed of a state in which buffer `q` is about to be filled with block `l`. -/
structure ReadyToFill (d d' : SmrDev) (l q : ℕ) : Prop where
  fillable : Fillable d' l q
  view : SameView d d'
  stl : StlInv d'.smr d'.smr.curPaddr
  free : ∀ q ∈ d'.buf.freeHddBufs, q < blocksOfHddBuf
  log : LogInv d'
  notInSmr : (d'.smr.mappingTable l).mappingFlag ≠ .inSmrDisk

/-- A free buffer may be filled once it has been taken from the list. -/
theorem getOneFreeBuf_spec {d : SmrDev} {l : ℕ} (h : DevInv d)
    (hpos : 0 < d.buf.freeHddBufs.size) (hnone : d.contents l = none) :
    ReadyToFill d d.getOneFreeBuf.2 l d.getOneFreeBuf.1 := by
  obtain ⟨hnb, hns⟩ := contents_eq_none_iff.mp hnone
  have hmem := SortedVector.get_mem hpos
  rw [getOneFreeBuf_eq hpos]
  generalize d.buf.freeHddBufs.get 0 = q at hmem ⊢
  have hfree : ∀ x, x ∉ d.buf.freeHddBufs.remove q → x ≠ q → x ∉ d.buf.freeHddBufs :=
    fun x hx hne hx' => hx (SortedVector.mem_remove.mpr ⟨hx', hne⟩)
  refine
    { fillable := ⟨h.free q hmem, fun hq => (SortedVector.mem_remove.mp hq).2 rfl,
        fun l' hl' _ hf' => ?_, fun x hx hx' hne => ?_⟩
      view := ⟨fun _ => rfl, fun _ _ => rfl⟩
      stl := h.stl
      free := fun x hx => h.free x (SortedVector.mem_remove.mp hx).1
      log := ⟨⟨hpos, h.log.ok⟩, h.log.cur⟩
      notInSmr := hns }
  · obtain ⟨h1, h2, h3⟩ := h.buf.fwd l' hl' hf'
    exact ⟨h1, fun hx => h2 (SortedVector.mem_remove.mp hx).1, fun heq => h2 (heq ▸ hmem), h3⟩
  · obtain ⟨h1, h2, h3⟩ := h.buf.rev x hx (hfree x hx' hne)
    exact ⟨h1, fun heq => hnb (heq ▸ h2), h2, h3⟩

/-- A buffer for a block that is not in the SMR area. -/
theorem chooseHddBuf_spec (env : Env) {d : SmrDev} {l : ℕ} (h : DevInv d)
    (hl : l < totalSmrBlocksCnt) (hns : (d.smr.mappingTable l).mappingFlag ≠ .inSmrDisk) :
    Outcome.Meets (PastEndFault env) (fun st => ReadyToFill d st.2 l st.1)
      (d.chooseHddBuf env l) := by
  rw [chooseHddBuf]
  by_cases hf : (d.smr.mappingTable l).mappingFlag = .inHddBuf
  · rw [if_pos (inHddBuf_iff.mpr hf)]
    obtain ⟨h1, h2, h3, h4⟩ := fillable_of_inHddBuf h hl hf
    exact
      { fillable := ⟨h1, h2, h3, h4⟩
        view := ⟨fun _ => rfl, fun _ _ => rfl⟩
        stl := h.stl
        free := h.free
        log := h.log.congr rfl rfl
        notInSmr := hns }
  · have hnone : d.contents l = none := contents_eq_none_iff.mpr ⟨hf, hns⟩
    rw [if_neg fun h' => hf (inHddBuf_iff.mp h')]
    split_ifs with hfull
    · have hempty : ∀ q, q ∉ d.buf.freeHddBufs := fun q hq =>
        Nat.ne_of_gt (SortedVector.size_pos_iff.mpr ⟨q, hq⟩) (of_decide_eq_true hfull)
      refine Outcome.Meets.bind (swapOutColdest_spec env h hempty) fun d' ⟨h1, h2, h3⟩ => ?_
      have hready := getOneFreeBuf_spec h1 h3 ((h2.contents l hl).trans hnone)
      exact { hready with view := h2.trans hready.view }
    · have hpos : 0 < d.buf.freeHddBufs.size :=
        Nat.pos_of_ne_zero fun h0 => hfull (decide_eq_true h0)
      exact getOneFreeBuf_spec h hpos hnone

/-- What a store of block `l` does. -/
structure Stored (d d' : SmrDev) (l : ℕ) (blk : Block) : Prop where
  inv : DevInv d'
  metaFlag : ∀ l, (d'.smr.mappingTable l).metaFlag = (d.smr.mappingTable l).metaFlag
  here : d'.contents l = some blk
  others : ∀ l' < totalSmrBlocksCnt, l' ≠ l → d'.contents l' = d.contents l'

theorem fillHddBuf_spec (env : Env) {d d₁ : SmrDev} {l q : ℕ} (blk : Block)
    (hl : l < totalSmrBlocksCnt) (h : ReadyToFill d d₁ l q) :
    Stored d (d₁.fillHddBuf env l blk q) l blk := by
  have hmap : (d₁.fillHddBuf env l blk q).smr.mappingTable = Function.update d₁.smr.mappingTable l
      ⟨.inHddBuf, (d₁.smr.mappingTable l).metaFlag, q⟩ := rfl
  have hrev : ∃ r w, (d₁.fillHddBuf env l blk q).buf.reverseTable =
      Function.update d₁.buf.reverseTable q ⟨l, r, w⟩ := ⟨_, _, rfl⟩
  obtain ⟨r, w, hrev⟩ := hrev
  have hdata : (d₁.fillHddBuf env l blk q).buf.hddBuf = Function.update d₁.buf.hddBuf q blk := rfl
  have htouch : Touches d₁ (d₁.fillHddBuf env l blk q) l := by
    refine Touches.of_update hmap rfl (fun l' hl' hne hf => ?_) fun _ _ _ _ => rfl
    rw [hdata, Function.update_of_ne (h.fillable.fwd l' hl' hne hf).2.2.1]
  refine
    { inv :=
        { stl := stlInv_update h.stl hmap rfl rfl rfl h.notInSmr (fun h => by cases h)
          buf := ⟨fun l' hl' hf => ?_, fun x hx hx' => ?_⟩
          free := h.free
          log := h.log.congr rfl rfl }
      metaFlag := fun l' => (htouch.metaFlag l').trans (h.view.metaFlag l')
      here := ?_
      others := fun l' hl' hne => (htouch.contents l' hl' hne).trans (h.view.contents l' hl') }
  · by_cases hne : l' = l
    · rw [hmap, hne, Function.update_self, hrev, Function.update_self]
      exact ⟨h.fillable.lt, h.fillable.notFree, rfl⟩
    · rw [hmap, Function.update_of_ne hne] at hf ⊢
      obtain ⟨h1, h2, h3, h4⟩ := h.fillable.fwd l' hl' hne hf
      rw [hrev, Function.update_of_ne h3]
      exact ⟨h1, h2, h4⟩
  · rw [hrev]
    by_cases hxq : x = q
    · rw [hxq, Function.update_self, hmap, Function.update_self]
      exact ⟨hl, rfl, rfl⟩
    · obtain ⟨h1, h2, h3, h4⟩ := h.fillable.rev x hx hx' hxq
      rw [Function.update_of_ne hxq, hmap, Function.update_of_ne h2]
      exact ⟨h1, h3, h4⟩
  · rw [contents_of_inHddBuf (by rw [hmap, Function.update_self]), hmap, Function.update_self,
      hdata, Function.update_self]

/-- **A write into the buffer**, of a block that is not in the SMR area. -/
theorem writeBlockIntoHddBuf_spec (env : Env) {d : SmrDev} {l : ℕ} (blk : Block) (h : DevInv d)
    (hl : l < totalSmrBlocksCnt) (hns : (d.smr.mappingTable l).mappingFlag ≠ .inSmrDisk) :
    Outcome.Meets (PastEndFault env) (fun d' => Stored d d' l blk)
      (d.writeBlockIntoHddBuf env l blk) := by
  rw [writeBlockIntoHddBuf]
  exact (chooseHddBuf_spec env h hl hns).bind fun _ hready => fillHddBuf_spec env blk hl hready

/-! ## Giving a buffer up -/

/-- The buffer of a block becomes free and the block loses its mapping. -/
theorem devInv_release {d : SmrDev} {l : ℕ} (h : DevInv d) (hl : l < totalSmrBlocksCnt)
    (hf : (d.smr.mappingTable l).mappingFlag = .inHddBuf) :
    DevInv ((d.setFreeHddBufs (d.buf.freeHddBufs.insert
      (d.smr.mappingTable l).paddr)).setupGlobalMappingEntry l 0 .invalidMapping) := by
  obtain ⟨hq, hqF, hql⟩ := h.buf.fwd l hl hf
  generalize hpq : (d.smr.mappingTable l).paddr = q at hq hqF hql ⊢
  refine
    { stl := stlInv_update h.stl rfl rfl rfl rfl (by rw [hf]; decide) fun h => by cases h
      buf := ⟨fun l' hl' hf' => ?_, fun x hx hx' => ?_⟩
      free := fun x hx => ?_
      log := h.log.congr rfl rfl }
  all_goals simp only [setupGlobalMappingEntry, setFreeHddBufs] at *
  · have hne : l' ≠ l := by
      rintro rfl
      rw [Function.update_self] at hf'
      cases hf'
    rw [Function.update_of_ne hne] at hf' ⊢
    obtain ⟨h1, h2, h3⟩ := h.buf.fwd l' hl' hf'
    refine ⟨h1, fun hmem => ?_, h3⟩
    rcases SortedVector.mem_insert.mp hmem with heq | hmem
    · exact hne (by rw [← h3, heq, hql])
    · exact h2 hmem
  · rw [SortedVector.mem_insert, not_or] at hx'
    obtain ⟨h1, h2, h3⟩ := h.buf.rev x hx hx'.2
    have hne : (d.buf.reverseTable x).blkNo ≠ l := by
      intro heq
      rw [heq, hpq] at h3
      exact hx'.1 h3.symm
    rw [Function.update_of_ne hne]
    exact ⟨h1, h2, h3⟩
  · rcases SortedVector.mem_insert.mp hx with rfl | hx
    · exact hq
    · exact h.free x hx

/-- **A buffer is given up**: `reclaim_free_hdd_buf`, on a block in the buffer. -/
theorem reclaimFreeHddBuf_spec {d : SmrDev} {l : ℕ} (h : DevInv d) (hl : l < totalSmrBlocksCnt)
    (hf : (d.smr.mappingTable l).mappingFlag = .inHddBuf) :
    DevInv (d.reclaimFreeHddBuf l) ∧ Forgets d (d.reclaimFreeHddBuf l) l := by
  have hmap : (d.reclaimFreeHddBuf l).smr.mappingTable = Function.update d.smr.mappingTable l
      ⟨.invalidMapping, (d.smr.mappingTable l).metaFlag, 0⟩ := by
    rw [reclaimFreeHddBuf, if_pos (inHddBuf_iff.mpr hf)]
    rfl
  refine ⟨?_, Touches.of_update hmap rfl (fun _ _ _ _ => ?_) fun _ _ _ _ => ?_, ?_⟩
  · rw [reclaimFreeHddBuf, if_pos (inHddBuf_iff.mpr hf)]
    exact devInv_release (devInv_resetPhyBufCounter h (d.smr.mappingTable l).paddr) hl hf
  · rw [reclaimFreeHddBuf, if_pos (inHddBuf_iff.mpr hf)]
    rfl
  · rw [reclaimFreeHddBuf, if_pos (inHddBuf_iff.mpr hf)]
    rfl
  · rw [hmap, Function.update_self]

/-! ## Reading from the buffer -/

/-- A read of a block in the buffer gives its contents and counts an access. -/
theorem readBlockFromHddBuf_spec (env : Env) {d : SmrDev} {l : ℕ} (h : DevInv d)
    (hf : (d.smr.mappingTable l).mappingFlag = .inHddBuf) :
    DevInv (d.readBlockFromHddBuf env l).2 ∧ SameView d (d.readBlockFromHddBuf env l).2 ∧
      d.contents l = some (d.readBlockFromHddBuf env l).1 := by
  refine ⟨⟨h.stl, h.buf.congr rfl fun x => ?_, h.free, h.log.congr rfl rfl⟩,
    ⟨fun _ => rfl, fun _ _ => rfl⟩, contents_of_inHddBuf hf⟩
  simp only [readBlockFromHddBuf, setHddBufEntry]
  by_cases hne : x = (d.smr.mappingTable l).paddr
  · rw [hne, Function.update_self]
  · rw [Function.update_of_ne hne]

/-- A read of a block in the SMR area. -/
theorem readHddBlock_spec {d : SmrDev} {l : ℕ} (h : DevInv d)
    (hf : (d.smr.mappingTable l).mappingFlag = .inSmrDisk) :
    DevInv (d.readHddBlock (d.smr.mappingTable l).paddr).2 ∧
      SameView d (d.readHddBlock (d.smr.mappingTable l).paddr).2 ∧
      d.contents l = some (d.readHddBlock (d.smr.mappingTable l).paddr).1 :=
  ⟨⟨h.stl.congr rfl rfl rfl rfl, h.buf.congr rfl fun _ => rfl, h.free, h.log.congr rfl rfl⟩,
    ⟨fun _ => rfl, fun _ _ => rfl⟩, contents_of_inSmrDisk hf⟩

end SmrDev

end MemSmr
