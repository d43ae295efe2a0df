import MemSmr.DeviceInv

/-!
# Counting the appends

`get_free_smr_block` hands the slots out in order and leaves `cur_paddr` one past the last of them.  So
until the device has been filled once, `cur_paddr` is the number of blocks that have been appended.

## 1.  What is appended

`storeFirst` and `storeSwapped` count the blocks that the write of one block appends: the block itself,
if it has no mapping, or the victims of a swap.  Both are read off the state before the write.

## 2.  The first time round

* `Unwrapped d k`: `k` blocks have been appended, the slots from `k` on are free, and nothing has been
  collected.
* `Wrapped d`: a frontier check has looked past the table, and then there was a collection.
* `FrontierAt d k`: the one or the other, according to whether the `k` blocks fit on the device.

## 3.  The steps

`FrontierAt.append` is the step lemma: the append after the last slot is the one that looks past the
table.  `FrontierAt.storeBlock` is for the write of a block.
-/

namespace MemSmr

open Outcome

namespace SmrDev

/-! ## 1.  What is appended -/

/-- The write of a block swaps: it is an update of a block in the SMR area, and the buffer is full. -/
def Swaps (d : SmrDev) (blkNo : ℕ) : Prop :=
  d.inHddBuf blkNo = false ∧ d.inSmrDisk blkNo = true ∧ d.isHddBufFull = true

instance (d : SmrDev) (blkNo : ℕ) : Decidable (d.Swaps blkNo) :=
  inferInstanceAs (Decidable (_ ∧ _ ∧ _))

/-- The blocks that `swap_out_coldest` appends during the write of a block. -/
def storeSwapped (d : SmrDev) (blkNo : ℕ) : ℕ := if d.Swaps blkNo then swapOutCnt else 0

/-- One, for the write of a block that has no mapping. -/
def storeFirst (d : SmrDev) (blkNo : ℕ) : ℕ := if d.hasMapping blkNo then 0 else 1

section Counts

variable {d : SmrDev} {l : ℕ}

/-! The three ways of a store. -/

theorem storeCounts_hit (hb : d.inHddBuf l = true) : d.storeFirst l = 0 ∧ d.storeSwapped l = 0 := by
  simp [storeFirst, hasMapping, storeSwapped, Swaps, hb]

theorem storeCounts_update (hb : d.inHddBuf l = false) (hs : d.inSmrDisk l = true) :
    d.storeFirst l = 0 ∧ d.storeSwapped l = if d.isHddBufFull then swapOutCnt else 0 := by
  simp [storeFirst, hasMapping, storeSwapped, Swaps, hb, hs]

theorem storeCounts_first (hb : d.inHddBuf l = false) (hs : d.inSmrDisk l = false) :
    d.storeFirst l = 1 ∧ d.storeSwapped l = 0 := by
  simp [storeFirst, hasMapping, storeSwapped, Swaps, hb, hs]

end Counts

/-! ## 2.  The first time round -/

/-- The slots are handed out for the first time; `k` of them have been. -/
structure Unwrapped (d : SmrDev) (k : ℕ) : Prop where
  cur : d.smr.curPaddr = k
  free : ∀ p < totalSmrBlocksCnt, k ≤ p → (d.smr.smrReverseTable p).phyStatus = .freePhyBlock
  checks : ∀ i, Event.frontierCheck i ∈ d.log → i < totalSmrBlocksCnt
  spared : ∀ p table, Event.collected p table ∉ d.log

/-- The frontier has been past the last slot. -/
structure Wrapped (d : SmrDev) : Prop where
  check : Event.frontierCheck totalSmrBlocksCnt ∈ d.log
  collected : ∃ p table, Event.collected p table ∈ d.log

/-- Where the frontier is after `k` appends. -/
inductive FrontierAt (d : SmrDev) (k : ℕ) : Prop where
  | fits (hk : k ≤ totalSmrBlocksCnt) (h : d.Unwrapped k)
  | past (hk : totalSmrBlocksCnt < k) (h : d.Wrapped)

section FrontierAt

variable {env : Env} {d d' d'' : SmrDev} {k : ℕ}

/-- **The checks stay inside the table as long as the appends fit on the device.** -/
theorem FrontierAt.checks_iff (h : d.FrontierAt k) :
    (∀ i, Event.frontierCheck i ∈ d.log → i < totalSmrBlocksCnt) ↔ k ≤ totalSmrBlocksCnt := by
  cases h with
  | fits hk h => exact iff_of_true h.checks hk
  | past hk h =>
    exact iff_of_false (fun hall => Nat.lt_irrefl _ (hall _ h.check)) (Nat.not_le.mpr hk)

theorem FrontierAt.unwrapped (h : d.FrontierAt k) (hk : k ≤ totalSmrBlocksCnt) : d.Unwrapped k := by
  cases h with
  | fits _ h => exact h
  | past hlt _ => exact absurd hk (Nat.not_le.mpr hlt)

theorem FrontierAt.wrapped (h : d.FrontierAt k) (hk : totalSmrBlocksCnt < k) : d.Wrapped := by
  cases h with
  | fits hle _ => exact absurd hle (Nat.not_le.mpr hk)
  | past _ h => exact h

/-- Steps that do not append. -/
structure SameFrontier (d d' : SmrDev) : Prop where
  cur : d'.smr.curPaddr = d.smr.curPaddr
  free : ∀ p < totalSmrBlocksCnt, (d.smr.smrReverseTable p).phyStatus = .freePhyBlock →
    (d'.smr.smrReverseTable p).phyStatus = .freePhyBlock
  log : ∀ e, (∀ avail, e ≠ Event.freeBufAsked avail) → (e ∈ d'.log ↔ e ∈ d.log)

theorem SameFrontier.refl (d : SmrDev) : SameFrontier d d :=
  ⟨rfl, fun _ _ h => h, fun _ _ => Iff.rfl⟩

theorem SameFrontier.trans (h : SameFrontier d d') (h' : SameFrontier d' d'') :
    SameFrontier d d'' where
  cur := h'.cur.trans h.cur
  free p hp hfree := h'.free p hp (h.free p hp hfree)
  log e he := (h'.log e he).trans (h.log e he)

/-- Steps that leave the SMR area and the log alone. -/
theorem SameFrontier.of_eq (hcur : d'.smr.curPaddr = d.smr.curPaddr)
    (hrev : d'.smr.smrReverseTable = d.smr.smrReverseTable) (hlog : d'.log = d.log) :
    SameFrontier d d' :=
  ⟨hcur, fun _ _ h => hrev ▸ h, fun _ _ => by rw [hlog]⟩

theorem FrontierAt.congr (h : d.FrontierAt k) (hsame : SameFrontier d d') : d'.FrontierAt k := by
  have hcheck : ∀ i, Event.frontierCheck i ∈ d'.log ↔ Event.frontierCheck i ∈ d.log := fun i =>
    hsame.log _ fun _ heq => by cases heq
  have hcollected : ∀ p table, Event.collected p table ∈ d'.log ↔ Event.collected p table ∈ d.log :=
    fun p table => hsame.log _ fun _ heq => by cases heq
  cases h with
  | fits hk h =>
    exact .fits hk
      { cur := hsame.cur.trans h.cur
        free := fun p hp hkp => hsame.free p hp (h.free p hp hkp)
        checks := fun i hi => h.checks i ((hcheck i).mp hi)
        spared := fun p table he => h.spared p table ((hcollected p table).mp he) }
  | past hk h =>
    obtain ⟨p, table, he⟩ := h.collected
    exact .past hk ⟨(hcheck _).mpr h.check, p, table, (hcollected p table).mpr he⟩

theorem frontierAt_initTables (h : d.smr.curPaddr = 0) (hlog : d.log = []) :
    d.initTables.FrontierAt 0 := by
  obtain ⟨table, bands, bufs, htable, -, -, heq⟩ := initTables_eq d
  rw [heq]
  refine .fits (Nat.zero_le _) ⟨h, fun p hp _ => ?_, fun i hi => ?_, fun p table he => ?_⟩
  · dsimp only
    rw [htable p hp]
  · dsimp only at hi
    rw [hlog] at hi
    exact absurd hi List.not_mem_nil
  · dsimp only at he
    rw [hlog] at he
    exact absurd he List.not_mem_nil

end FrontierAt

/-! ## 3.  The steps -/

section Steps

variable {env : Env} {d d' : SmrDev} {k l : ℕ} {blk : Block}

/-! What the collection leaves in the log. -/

theorem gcRounds_log (d : SmrDev) (b n : ℕ) :
    ((List.range n).foldl (gcRound b) (0, d)).2.log = d.log :=
  foldl_range (fun _ (st : ℕ × SmrDev) => st.2.log = d.log) rfl fun i _ st hst => by
    rw [gcRound]
    split_ifs
    · exact hst
    · exact hst

theorem writeBackBand_log (d : SmrDev) (b : ℕ) (n : ℤ) : (d.writeBackBand b n).log = d.log := rfl

theorem doGcInBand_log (d : SmrDev) (b : ℕ) : (d.doGcInBand b).2.log = d.log := by
  rw [doGcInBand]
  exact (writeBackBand_log _ b (d.smr.phyBands b).validCnt).trans (gcRounds_log _ _ _)

theorem setCurPaddr_log (d : SmrDev) (paddr : ℕ) : (d.setCurPaddr paddr).log = d.log := rfl

theorem freeBand_log (d : SmrDev) (b : ℕ) : (d.freeBand b).log = d.log := rfl

theorem collected_log {d d' : SmrDev} (h : d'.log = d.log) :
    ∃ p table, (d'.emit (.collected d'.smr.curPaddr d'.smr.smrReverseTable)).log =
      .collected p table :: d.log :=
  ⟨_, _, congrArg _ h⟩

/-- A collection is recorded, and nothing is forgotten. -/
theorem garbageCollecting_log (d : SmrDev) :
    ∃ p table, d.garbageCollecting.log = .collected p table :: d.log := by
  by_cases h : 0 < d.smr.fullyInvalidBands.size
  · rw [garbageCollecting, if_pos h, getFullyInvalidBand, if_pos h]
    exact collected_log (freeBand_log _ (d.smr.fullyInvalidBands.get 0))
  · -- The two loops stay folded: only what they leave in the log matters.
    have heq : ∃ paddr, d.garbageCollecting =
        ((d.doGcInBand d.mostInvalidBand.1).2.setCurPaddr paddr).emit
          (.collected ((d.doGcInBand d.mostInvalidBand.1).2.setCurPaddr paddr).smr.curPaddr
            ((d.doGcInBand d.mostInvalidBand.1).2.setCurPaddr paddr).smr.smrReverseTable) := by
      rw [garbageCollecting]
      simp only [if_neg h]
      exact ⟨_, rfl⟩
    obtain ⟨paddr, heq⟩ := heq
    rw [heq]
    exact collected_log ((setCurPaddr_log _ paddr).trans (doGcInBand_log d _))

/-! The check of the frontier. -/

/-- The check finds a free slot and leaves it at that. -/
theorem checkFrontier_of_free (env : Env) (hlt : d.smr.curPaddr < totalSmrBlocksCnt)
    (hfree : (d.smr.smrReverseTable d.smr.curPaddr).phyStatus = .freePhyBlock) :
    (d.checkFrontier env).smr = d.smr ∧ (d.checkFrontier env).buf = d.buf ∧
      ∀ e ∈ (d.checkFrontier env).log, e = .frontierCheck d.smr.curPaddr ∨ e ∈ d.log := by
  rw [checkFrontier]
  split_ifs
  · have hst : (d.emit (.frontierCheck d.smr.curPaddr)).phyStatusAt env
        (d.emit (.frontierCheck d.smr.curPaddr)).smr.curPaddr = .freePhyBlock := by
      rw [phyStatusAt]
      exact (if_pos hlt).trans hfree
    dsimp only
    rw [if_neg (not_not.mpr hst)]
    exact ⟨rfl, rfl, fun e he => List.mem_cons.mp he⟩
  · exact ⟨rfl, rfl, fun e he => Or.inr he⟩

/-- The check past the last slot: what is read there is another field, and unless it looks like a free
slot there is a collection. -/
theorem checkFrontier_past (env : Env) (hcur : d.smr.curPaddr = totalSmrBlocksCnt) :
    (d.checkFrontier env).smr.curPaddr = totalSmrBlocksCnt ∨ (d.checkFrontier env).Wrapped := by
  have hmod : d.smr.curPaddr % blocksPerBand = 0 := by
    rw [hcur, totalSmrBlocksCnt_eq, blocksPerBand_eq]
  rw [checkFrontier, if_pos hmod]
  dsimp only
  split_ifs with hst
  · obtain ⟨p, table, hlog⟩ := (d.emit (.frontierCheck d.smr.curPaddr)).garbageCollecting_log
    right
    constructor
    · rw [hlog, ← hcur]
      exact List.mem_cons_of_mem _ List.mem_cons_self
    · exact ⟨p, table, by rw [hlog]; exact List.mem_cons_self⟩
  · exact Or.inl hcur

/-- A check forgets nothing. -/
theorem checkFrontier_log (env : Env) (d : SmrDev) : d.log ⊆ (d.checkFrontier env).log := by
  rw [checkFrontier]
  split_ifs
  · dsimp only
    split_ifs
    · obtain ⟨p, table, hlog⟩ := (d.emit (.frontierCheck d.smr.curPaddr)).garbageCollecting_log
      rw [hlog]
      exact fun e he => List.mem_cons_of_mem _ (List.mem_cons_of_mem _ he)
    · exact fun e he => List.mem_cons_of_mem _ he
  · exact fun e he => he

theorem Wrapped.mono (h : d.Wrapped) (hlog : d.log ⊆ d'.log) : d'.Wrapped := by
  obtain ⟨p, table, he⟩ := h.collected
  exact ⟨hlog h.check, p, table, hlog he⟩

/-- **The append of a block.** -/
theorem FrontierAt.append (h : d.FrontierAt k) {buf : ℕ → Block}
    (hok : d.appendSmrBlocks env buf l 1 = .ok d') : d'.FrontierAt (k + 1) := by
  rw [appendSmrBlocks_one] at hok
  split_ifs at hok with hlt
  obtain rfl := Except.ok.inj hok
  have hgrows : (d.checkFrontier env).log ⊆ ((d.getFreeSmrBlock env).2.placeBlock (buf 0) l
      (d.checkFrontier env).smr.curPaddr).log := fun e he => List.mem_cons_of_mem _ he
  cases h with
  | past hk h => exact .past (Nat.lt_succ_of_lt hk) ((h.mono (checkFrontier_log env d)).mono hgrows)
  | fits hk h =>
    rcases Nat.lt_or_eq_of_le hk with hk | hk
    · have hcur : d.smr.curPaddr < totalSmrBlocksCnt := by
        rw [h.cur]
        exact hk
      obtain ⟨hsmr, -, hlog⟩ := checkFrontier_of_free env hcur (h.free _ hcur h.cur.ge)
      rw [getFreeSmrBlock]
      generalize d.checkFrontier env = d₁ at hsmr hlog hlt ⊢
      have hmem : ∀ e ∈ Event.handed d₁.smr.curPaddr d₁.smr.smrReverseTable :: d₁.log,
          e = .handed d₁.smr.curPaddr d₁.smr.smrReverseTable ∨ e = .frontierCheck d.smr.curPaddr ∨
            e ∈ d.log := fun e he => (List.mem_cons.mp he).imp_right (hlog e)
      refine .fits hk ⟨?_, fun p hp hkp => ?_, fun i hi => ?_, fun p table he => ?_⟩
      · change d₁.smr.curPaddr + 1 = k + 1
        rw [hsmr, h.cur]
      · change (Function.update d₁.smr.smrReverseTable d₁.smr.curPaddr _ p).phyStatus = _
        rw [hsmr, h.cur, Function.update_of_ne (by omega)]
        exact h.free p hp (by omega)
      · rcases hmem _ hi with heq | heq | hi
        · cases heq
        · obtain rfl := Event.frontierCheck.inj heq
          exact hcur
        · exact h.checks i hi
      · rcases hmem _ he with heq | heq | he
        · cases heq
        · cases heq
        · exact h.spared p table he
    · -- All slots have been handed out.
      rcases checkFrontier_past env (h.cur.trans hk) with hcur | hwrapped
      · exact absurd hlt (by rw [hcur]; exact Nat.lt_irrefl _)
      · exact .past (by omega) (hwrapped.mono hgrows)

/-- `invalidate_mapping_entry` takes no free slot. -/
theorem sameFrontier_invalidate (hs : StlInv d.smr d.smr.curPaddr) (hl : l < totalSmrBlocksCnt)
    (hf : (d.smr.mappingTable l).mappingFlag = .inSmrDisk) :
    SameFrontier d (d.invalidateMappingEntry l) := by
  obtain ⟨-, hrev⟩ := hs.fwd l hl hf
  refine ⟨invalidate_curPaddr hf, fun p _ hfree => ?_, fun e _ => by rw [invalidate_log hf]⟩
  have hne : p ≠ (d.smr.mappingTable l).paddr := by
    rintro rfl
    rw [hrev] at hfree
    cases hfree
  rw [invalidateMappingEntry_eq hf]
  change (Function.update d.smr.smrReverseTable _ _ p).phyStatus = _
  rwa [Function.update_of_ne hne]

theorem sameFrontier_getOneFreeBuf (d : SmrDev) : SameFrontier d d.getOneFreeBuf.2 := by
  have hemit : SameFrontier d (d.emit (.freeBufAsked d.buf.freeHddBufs.size)) :=
    ⟨rfl, fun _ _ h => h, fun e he => by
      rw [show (d.emit (.freeBufAsked d.buf.freeHddBufs.size)).log = _ :: d.log from rfl,
        List.mem_cons]
      exact or_iff_right (he _)⟩
  rw [getOneFreeBuf]
  split_ifs
  · exact hemit
  · exact hemit.trans (.of_eq rfl rfl rfl)

/-- **A swap** appends `SWAP_OUT_CNT` blocks. -/
theorem FrontierAt.swapOutColdest (h : d.FrontierAt k) (hok : d.swapOutColdest env = .ok d') :
    d'.FrontierAt (k + swapOutCnt) := by
  have hloop : Meets (fun _ => True) (fun d' => d'.FrontierAt (k + swapOutCnt))
      (d.swapOutColdest env) := by
    rw [SmrDev.swapOutColdest]
    obtain ⟨e, he⟩ := d.selectColdBufs_spec.1
    rw [he]
    refine meets_foldlM_range (fun i (d' : SmrDev) => d'.FrontierAt (k + i))
      (h.congr (.of_eq rfl rfl rfl)) fun i _ d₁ h₁ => ?_
    cases hres : d₁.swapOutBuf env i with
    | error e => trivial
    | ok d₂ =>
      rw [swapOutBuf] at hres
      obtain ⟨d₃, happend, hres⟩ := bind_eq_ok.mp hres
      obtain rfl := Except.ok.inj hres
      have hreset : (d₁.resetPhyBufCounter (d₁.coldBuf i)).FrontierAt (k + i) :=
        h₁.congr (.of_eq rfl rfl rfl)
      exact (hreset.append happend).congr (.of_eq rfl rfl rfl)
  exact hloop.of_ok hok

/-- A write into the buffer appends the victims of its swap. -/
theorem FrontierAt.writeBlock (h : d.FrontierAt k)
    (hok : d.writeBlockIntoHddBuf env l blk = .ok d') :
    d'.FrontierAt
      (k + if d.inHddBuf l then 0 else if d.isHddBufFull then swapOutCnt else 0) := by
  rw [writeBlockIntoHddBuf] at hok
  obtain ⟨⟨q, d₁⟩, hchoose, hok⟩ := bind_eq_ok.mp hok
  obtain rfl := Except.ok.inj hok
  suffices hd₁ : d₁.FrontierAt _ from hd₁.congr (.of_eq rfl rfl rfl)
  rw [chooseHddBuf] at hchoose
  split_ifs at hchoose with hb hfull
  · obtain ⟨-, rfl⟩ := Prod.mk.inj (Except.ok.inj hchoose)
    rw [if_pos hb]
    exact h.congr (.of_eq rfl rfl rfl)
  · obtain ⟨d₂, hswap, hchoose⟩ := bind_eq_ok.mp hchoose
    obtain rfl := (Prod.mk.inj (Except.ok.inj hchoose)).2
    rw [if_neg hb, if_pos hfull]
    exact (h.swapOutColdest hswap).congr (sameFrontier_getOneFreeBuf d₂)
  · obtain ⟨d₂, hsame, hchoose⟩ := bind_eq_ok.mp hchoose
    obtain rfl := Except.ok.inj hsame
    obtain rfl := (Prod.mk.inj (Except.ok.inj hchoose)).2
    rw [if_neg hb, if_neg hfull]
    exact h.congr (sameFrontier_getOneFreeBuf d)

/-- **The write of a block.** -/
theorem FrontierAt.storeBlock (h : d.FrontierAt k) (hinv : DevInv d) (hl : l < totalSmrBlocksCnt)
    (hok : d.storeBlock env l blk = .ok d') :
    d'.FrontierAt (k + (d.storeFirst l + d.storeSwapped l)) := by
  obtain ⟨hb, hok⟩ | ⟨hb, hs, hok⟩ | ⟨hb, hs, hok⟩ := storeBlock_cases hok
  · obtain ⟨hfirst, hswapped⟩ := storeCounts_hit hb
    have hwrite := h.writeBlock hok
    rw [if_pos hb] at hwrite
    rw [hfirst, hswapped]
    exact hwrite
  · obtain ⟨hfirst, hswapped⟩ := storeCounts_update hb hs
    have hf := inSmrDisk_iff.mp hs
    have hwrite := (h.congr (sameFrontier_invalidate hinv.stl hl hf)).writeBlock hok
    rw [if_neg (by rw [inHddBuf_invalidate hf]; exact Bool.false_ne_true),
      isHddBufFull_invalidate hf] at hwrite
    rw [hfirst, hswapped, Nat.zero_add]
    exact hwrite
  · obtain ⟨hfirst, hswapped⟩ := storeCounts_first hb hs
    rw [hfirst, hswapped]
    exact h.append hok

end Steps

end SmrDev

end MemSmr
