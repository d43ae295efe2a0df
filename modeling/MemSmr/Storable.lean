import MemSmr.MetaFlags
import MemSmr.Requests

/-!
# The values of the tables fit into their types

The tables hold natural numbers, and the C types are of fixed width.  In every state of the module
the numbers are far below the bounds, so that nothing is cut off when the structs are written to a
file.

* `TableRanges`: the entries of the tables.  Every operation of the translation layer keeps it.
* `VectsFit`: the vectors of the detector.
* `Storable`: both, in every state of the module.
-/

namespace MemSmr

open Outcome SmrDev Ext2MetaCtr

/-! ## The tables -/

/-- An entry of `mapping_table` as the source writes it. -/
structure MappingEntry.InRange (e : MappingEntry) : Prop where
  flag : e.mappingFlag = .invalidMapping ∨ e.mappingFlag = .inSmrDisk ∨ e.mappingFlag = .inHddBuf
  paddr : e.paddr < totalSmrBlocksCnt
  buffered : e.mappingFlag = .inHddBuf → e.paddr < blocksOfHddBuf

/-- The meta flag is not looked at. -/
theorem MappingEntry.InRange.setMetaFlag {e : MappingEntry} (h : e.InRange) (flag : ℕ) :
    { e with metaFlag := flag }.InRange := ⟨h.flag, h.paddr, h.buffered⟩

/-- The counters that are enabled. -/
def SmrDev.enables (d : SmrDev) : ℤ × ℤ × ℤ :=
  (d.smr.smrCnt.enable, d.smr.hddCnt.enable, d.buf.rwCounter.enable)

/-- The entries of the tables are in range. -/
structure TableRanges (d : SmrDev) : Prop where
  mapping : ∀ l < totalSmrBlocksCnt, (d.smr.mappingTable l).InRange
  rev : ∀ p < totalSmrBlocksCnt, (d.smr.smrReverseTable p).blkNo < totalSmrBlocksCnt
  bufBlk : ∀ q < blocksOfHddBuf, (d.buf.reverseTable q).blkNo < totalSmrBlocksCnt
  cold : ∀ i < swapOutCnt, 0 ≤ d.buf.coldBufs i ∧ d.buf.coldBufs i < blocksOfHddBuf
  free : ∀ q ∈ d.buf.freeHddBufs, q < blocksOfHddBuf
  enabled : d.enables = (1, 1, 1)

namespace TableRanges

variable {d d' : SmrDev} {env : Env}

theorem congr (h : TableRanges d) (hmap : d'.smr.mappingTable = d.smr.mappingTable)
    (hrev : d'.smr.smrReverseTable = d.smr.smrReverseTable)
    (hbuf : d'.buf.reverseTable = d.buf.reverseTable) (hcold : d'.buf.coldBufs = d.buf.coldBufs)
    (hfree : d'.buf.freeHddBufs = d.buf.freeHddBufs) (hen : d'.enables = d.enables) :
    TableRanges d' :=
  ⟨hmap ▸ h.mapping, hrev ▸ h.rev, hbuf ▸ h.bufBlk, hcold ▸ h.cold, hfree ▸ h.free,
    hen.trans h.enabled⟩

theorem setPhyBand (h : TableRanges d) (b : ℕ) (band : BandInfo) :
    TableRanges (d.setPhyBand b band) := h.congr rfl rfl rfl rfl rfl rfl

theorem setCurPaddr (h : TableRanges d) (p : ℕ) : TableRanges (d.setCurPaddr p) :=
  h.congr rfl rfl rfl rfl rfl rfl

theorem setFullyInvalidBands (h : TableRanges d) (v : SortedVector) :
    TableRanges (d.setFullyInvalidBands v) := h.congr rfl rfl rfl rfl rfl rfl

theorem emit (h : TableRanges d) (e : Event) : TableRanges (d.emit e) :=
  h.congr rfl rfl rfl rfl rfl rfl

theorem zero_lt : 0 < totalSmrBlocksCnt := by
  rw [totalSmrBlocksCnt_eq]
  decide

theorem zero_lt_bufs : 0 < blocksOfHddBuf := by
  rw [blocksOfHddBuf_eq]
  decide

theorem buf_lt {q : ℕ} (hq : q < blocksOfHddBuf) : q < totalSmrBlocksCnt := by
  rw [blocksOfHddBuf_eq] at hq
  rw [totalSmrBlocksCnt_eq]
  omega

/-! ### The assignments -/

theorem setupGlobalMappingEntry (h : TableRanges d) {flag : MappingFlag} {paddr : ℕ} (l : ℕ)
    (he : MappingEntry.InRange ⟨flag, 0, paddr⟩) :
    TableRanges (d.setupGlobalMappingEntry l paddr flag) := by
  refine ⟨fun l' hl' => ?_, h.rev, h.bufBlk, h.cold, h.free, h.enabled⟩
  change (Function.update d.smr.mappingTable l _ l').InRange
  by_cases hll : l' = l
  · rw [hll, Function.update_self]
    exact ⟨he.flag, he.paddr, he.buffered⟩
  · rw [Function.update_of_ne hll]
    exact h.mapping l' hl'

theorem unmap (h : TableRanges d) (l : ℕ) :
    TableRanges (d.setupGlobalMappingEntry l 0 .invalidMapping) :=
  h.setupGlobalMappingEntry l ⟨Or.inl rfl, zero_lt, fun hf => by cases hf⟩

theorem mapSmr (h : TableRanges d) (l : ℕ) {p : ℕ} (hp : p < totalSmrBlocksCnt) :
    TableRanges (d.setupGlobalMappingEntry l p .inSmrDisk) :=
  h.setupGlobalMappingEntry l ⟨Or.inr (Or.inl rfl), hp, fun hf => by cases hf⟩

theorem mapBuf (h : TableRanges d) (l : ℕ) {q : ℕ} (hq : q < blocksOfHddBuf) :
    TableRanges (d.setupGlobalMappingEntry l q .inHddBuf) :=
  h.setupGlobalMappingEntry l ⟨Or.inr (Or.inr rfl), buf_lt hq, fun _ => hq⟩

theorem setupMetaFlag (h : TableRanges d) (l flag : ℕ) : TableRanges (d.setupMetaFlag l flag) := by
  refine ⟨fun l' hl' => ?_, h.rev, h.bufBlk, h.cold, h.free, h.enabled⟩
  change (Function.update d.smr.mappingTable l _ l').InRange
  by_cases hll : l' = l
  · rw [hll, Function.update_self]
    exact (h.mapping l (hll ▸ hl')).setMetaFlag flag
  · rw [Function.update_of_ne hll]
    exact h.mapping l' hl'

theorem setupSmrReverseMapping (h : TableRanges d) (p : ℕ) {l : ℕ} (hl : l < totalSmrBlocksCnt)
    (st : PhyStatus) : TableRanges (d.setupSmrReverseMapping p l st) := by
  refine ⟨h.mapping, fun p' hp' => ?_, h.bufBlk, h.cold, h.free, h.enabled⟩
  change (Function.update d.smr.smrReverseTable p _ p').blkNo < _
  by_cases hpp : p' = p
  · rw [hpp, Function.update_self]
    exact hl
  · rw [Function.update_of_ne hpp]
    exact h.rev p' hp'

theorem freeSlots (h : TableRanges d) (p n : ℕ) : TableRanges (d.freeSlots p n) := by
  refine ⟨h.mapping, fun p' hp' => ?_, h.bufBlk, h.cold, h.free, h.enabled⟩
  change (Slots.fillRange d.smr.smrReverseTable p n _ p').blkNo < _
  rw [Slots.fillRange]
  split_ifs
  · exact zero_lt
  · exact h.rev p' hp'

theorem setHddBufEntry (h : TableRanges d) (q : ℕ) {e : HddBufEntry}
    (he : e.blkNo < totalSmrBlocksCnt) : TableRanges (d.setHddBufEntry q e) := by
  refine ⟨h.mapping, h.rev, fun q' hq' => ?_, h.cold, h.free, h.enabled⟩
  change (Function.update d.buf.reverseTable q e q').blkNo < _
  by_cases hqq : q' = q
  · rw [hqq, Function.update_self]
    exact he
  · rw [Function.update_of_ne hqq]
    exact h.bufBlk q' hq'

theorem coldBuf_lt (h : TableRanges d) {i : ℕ} (hi : i < swapOutCnt) :
    d.coldBuf i < blocksOfHddBuf := (Int.toNat_lt (h.cold i hi).1).mpr (h.cold i hi).2

theorem setColdBuf (h : TableRanges d) (i : ℕ) {q : ℕ} (hq : q < blocksOfHddBuf) :
    TableRanges (d.setColdBuf i q) := by
  refine ⟨h.mapping, h.rev, h.bufBlk, fun i' hi' => ?_, h.free, h.enabled⟩
  change 0 ≤ Function.update d.buf.coldBufs i (q : ℤ) i' ∧ Function.update d.buf.coldBufs i (q : ℤ) i' < _
  by_cases hii : i' = i
  · rw [hii, Function.update_self]
    exact ⟨Int.natCast_nonneg q, Int.ofNat_lt.mpr hq⟩
  · rw [Function.update_of_ne hii]
    exact h.cold i' hi'

theorem insertFree (h : TableRanges d) {q : ℕ} (hq : q < blocksOfHddBuf) :
    TableRanges (d.setFreeHddBufs (d.buf.freeHddBufs.insert q)) := by
  refine ⟨h.mapping, h.rev, h.bufBlk, h.cold, fun q' hq' => ?_, h.enabled⟩
  rcases SortedVector.mem_insert.mp hq' with rfl | hq'
  · exact hq
  · exact h.free q' hq'

end TableRanges

/-! ### The operations -/

theorem DsCounter.enable_addRead (c : DsCounter) (n : ℕ) : (c.addRead n).enable = c.enable := by
  rw [addRead]
  split_ifs
  · rfl
  · rfl

theorem DsCounter.enable_addWrite (c : DsCounter) (n : ℕ) : (c.addWrite n).enable = c.enable := by
  rw [addWrite]
  split_ifs
  · rfl
  · rfl

namespace SmrDev

variable {d d' : SmrDev} {env : Env}

theorem tableRanges_readHddBlock (h : TableRanges d) (p : ℕ) : TableRanges (d.readHddBlock p).2 :=
  h.congr rfl rfl rfl rfl rfl (by
    rw [enables, enables, readHddBlock]
    dsimp only
    rw [DsCounter.enable_addRead])

theorem tableRanges_writeHddBlocks (h : TableRanges d) (buf : ℕ → Block) (p n : ℕ) :
    TableRanges (d.writeHddBlocks buf p n) :=
  h.congr rfl rfl rfl rfl rfl (by
    rw [enables, enables, writeHddBlocks]
    dsimp only
    rw [DsCounter.enable_addWrite])

/-- One round of the collection. -/
theorem tableRanges_gcRound {b i : ℕ} {st : ℕ × SmrDev} (hb : b < totalSmrBandsCnt)
    (hi : i < blocksPerBand) (h : st.1 ≤ i ∧ TableRanges st.2) :
    (gcRound b st i).1 ≤ i + 1 ∧ TableRanges (gcRound b st i).2 := by
  obtain ⟨hcnt, h⟩ := h
  rw [gcRound]
  dsimp only
  split_ifs
  · refine ⟨Nat.succ_le_succ hcnt, ?_⟩
    have hfrom := h.rev _ (band_add_lt hb hi)
    have hto : b * blocksPerBand + st.1 < totalSmrBlocksCnt := band_add_lt hb (by omega)
    have hread : TableRanges { (st.2.readHddBlock (b * blocksPerBand + i)).2 with
        bandBuf := Function.update (st.2.readHddBlock (b * blocksPerBand + i)).2.bandBuf st.1
          (st.2.readHddBlock (b * blocksPerBand + i)).1 } :=
      (tableRanges_readHddBlock h (b * blocksPerBand + i)).congr rfl rfl rfl rfl rfl rfl
    exact (hread.mapSmr _ hto).setupSmrReverseMapping _ hfrom _
  · exact ⟨Nat.le_succ_of_le hcnt, h⟩

theorem tableRanges_doGcInBand (h : TableRanges d) {b : ℕ} (hb : b < totalSmrBandsCnt) :
    TableRanges (d.doGcInBand b).2 := by
  have hloop := Outcome.foldl_range (n := blocksPerBand) (a := ((0, d) : ℕ × SmrDev))
    (f := gcRound b) (fun i st => st.1 ≤ i ∧ TableRanges st.2) ⟨Nat.le_refl 0, h⟩
    fun i hi st hst => tableRanges_gcRound hb hi hst
  exact tableRanges_writeHddBlocks ((hloop.2.setPhyBand b _).freeSlots _ _) _ _ _

theorem tableRanges_garbageCollecting (h : TableRanges d) : TableRanges d.garbageCollecting := by
  rw [garbageCollecting]
  by_cases hq : 0 < d.smr.fullyInvalidBands.size
  · have hfull : TableRanges d.getFullyInvalidBand.2 := by
      rw [getFullyInvalidBand, if_pos hq]
      exact h.setFullyInvalidBands _
    rw [if_pos hq]
    generalize d.getFullyInvalidBand = r at hfull ⊢
    obtain ⟨b, d'⟩ := r
    exact (((hfull.freeSlots _ _).setPhyBand b _).setCurPaddr _).emit _
  · have hgc := tableRanges_doGcInBand h d.mostInvalidBand_lt
    rw [if_neg hq]
    generalize d.doGcInBand d.mostInvalidBand.1 = r at hgc ⊢
    obtain ⟨paddr, d'⟩ := r
    exact (hgc.setCurPaddr paddr).emit _

theorem tableRanges_checkFrontier (h : TableRanges d) : TableRanges (d.checkFrontier env) := by
  rw [checkFrontier]
  dsimp only
  split_ifs
  · exact tableRanges_garbageCollecting (h.emit _)
  · exact h.emit _
  · exact h

/-- An append. -/
theorem tableRanges_append {buf : ℕ → Block} {l : ℕ} (h : TableRanges d)
    (hl : l < totalSmrBlocksCnt) (hres : d.appendSmrBlocks env buf l 1 = .ok d') :
    TableRanges d' := by
  rw [appendSmrBlocks_one] at hres
  split_ifs at hres with hlt
  obtain rfl := Except.ok.inj hres
  have hfree : TableRanges (d.getFreeSmrBlock env).2 :=
    ((tableRanges_checkFrontier h).emit _).setCurPaddr _
  have hmap := (hfree.mapSmr l hlt).setupSmrReverseMapping (d.checkFrontier env).smr.curPaddr hl
    .validPhyBlock
  rw [placeBlock]
  exact tableRanges_writeHddBlocks (hmap.setPhyBand _ _) _ _ _

theorem tableRanges_invalidate (h : TableRanges d) (l : ℕ) :
    TableRanges (d.invalidateMappingEntry l) := by
  rw [invalidateMappingEntry]
  dsimp only
  split_ifs
  · exact (((h.setPhyBand _ _).setupSmrReverseMapping _ TableRanges.zero_lt _).unmap
      l).setFullyInvalidBands _
  · exact ((h.setPhyBand _ _).setupSmrReverseMapping _ TableRanges.zero_lt _).unmap l
  · exact h

/-! The buffer. -/

theorem tableRanges_resetPhyBufCounter (h : TableRanges d) {q : ℕ} (hq : q < blocksOfHddBuf) :
    TableRanges (d.resetPhyBufCounter q) := h.setHddBufEntry q (h.bufBlk q hq)

theorem tableRanges_updateColdBuf (h : TableRanges d) {q : ℕ} (hq : q < blocksOfHddBuf) :
    TableRanges (d.updateColdBuf q) := by
  rw [updateColdBuf]
  cases d.scanColdBufs q with
  | none => exact h
  | some r =>
    obtain ⟨maxPos, max⟩ := r
    dsimp only
    split_ifs
    · cases maxPos with
      | none => exact h
      | some i => exact h.setColdBuf i hq
    · exact h

theorem tableRanges_selectColdBufs (h : TableRanges d) : TableRanges d.selectColdBufs := by
  refine Outcome.foldl_range (fun _ d => TableRanges d) h ?_
  rintro q hq d hd
  split_ifs
  · exact hd.setColdBuf q hq
  · exact tableRanges_updateColdBuf hd hq

theorem tableRanges_swapOutBuf (h : TableRanges d) {i : ℕ} (hi : i < swapOutCnt)
    (hres : d.swapOutBuf env i = .ok d') : TableRanges d' := by
  rw [swapOutBuf] at hres
  obtain ⟨d₁, happend, hres⟩ := bind_eq_ok.mp hres
  obtain rfl := Except.ok.inj hres
  have hreset := tableRanges_resetPhyBufCounter h (h.coldBuf_lt hi)
  have hblk := hreset.bufBlk _ (h.coldBuf_lt hi)
  exact (tableRanges_append hreset hblk happend).insertFree (h.coldBuf_lt hi)

theorem tableRanges_swapOutColdest (h : TableRanges d) (hres : d.swapOutColdest env = .ok d') :
    TableRanges d' := by
  have hloop : Meets (fun _ => True) TableRanges (d.swapOutColdest env) := by
    refine meets_foldlM_range (fun _ d => TableRanges d) (tableRanges_selectColdBufs h) ?_
    rintro i hi d hd
    cases hres : d.swapOutBuf env i with
    | ok d' => exact tableRanges_swapOutBuf hd hi hres
    | error e => trivial
  exact hloop.of_ok hres

theorem tableRanges_getOneFreeBuf (h : TableRanges d) :
    d.getOneFreeBuf.1 < blocksOfHddBuf ∧ TableRanges d.getOneFreeBuf.2 := by
  have hemit := h.emit (.freeBufAsked d.buf.freeHddBufs.size)
  rw [getOneFreeBuf]
  split_ifs with hsize
  · exact ⟨TableRanges.zero_lt_bufs, hemit⟩
  · refine ⟨h.free _ (SortedVector.get_mem (Nat.pos_of_ne_zero hsize)), ?_⟩
    exact ⟨h.mapping, h.rev, h.bufBlk, h.cold,
      fun q hq => h.free q (SortedVector.mem_remove.mp hq).1, h.enabled⟩

theorem tableRanges_fillHddBuf (h : TableRanges d) {l q : ℕ} (blk : Block)
    (hl : l < totalSmrBlocksCnt) (hq : q < blocksOfHddBuf) :
    TableRanges (d.fillHddBuf env l blk q) := by
  have hbuf : TableRanges { d with buf := { d.buf with
      hddBuf := Function.update d.buf.hddBuf q blk } } := h.congr rfl rfl rfl rfl rfl rfl
  have hmap := hbuf.mapBuf l hq
  rw [fillHddBuf]
  exact (hmap.setHddBufEntry q hl).congr rfl rfl rfl rfl rfl rfl

theorem tableRanges_writeBlockIntoHddBuf (h : TableRanges d) {l : ℕ} {blk : Block}
    (hl : l < totalSmrBlocksCnt) (hres : d.writeBlockIntoHddBuf env l blk = .ok d') :
    TableRanges d' := by
  rw [writeBlockIntoHddBuf] at hres
  obtain ⟨⟨q, d₁⟩, hchoose, hres⟩ := bind_eq_ok.mp hres
  obtain rfl := Except.ok.inj hres
  suffices hchosen : q < blocksOfHddBuf ∧ TableRanges d₁ from
    tableRanges_fillHddBuf hchosen.2 blk hl hchosen.1
  rw [chooseHddBuf] at hchoose
  split_ifs at hchoose with hb hfull
  · obtain ⟨rfl, rfl⟩ := Prod.mk.inj (Except.ok.inj hchoose)
    exact ⟨(h.mapping l hl).buffered (inHddBuf_iff.mp hb), h.congr rfl rfl rfl rfl rfl rfl⟩
  · obtain ⟨d₂, hswap, hchoose⟩ := bind_eq_ok.mp hchoose
    have hfree := tableRanges_getOneFreeBuf (tableRanges_swapOutColdest h hswap)
    rw [Except.ok.inj hchoose] at hfree
    exact hfree
  · have hfree := tableRanges_getOneFreeBuf h
    rw [Except.ok.inj hchoose] at hfree
    exact hfree

/-- The write of a block. -/
theorem tableRanges_storeBlock (h : TableRanges d) {l : ℕ} {blk : Block}
    (hl : l < totalSmrBlocksCnt) (hres : d.storeBlock env l blk = .ok d') : TableRanges d' := by
  obtain ⟨-, hres⟩ | ⟨-, -, hres⟩ | ⟨-, -, hres⟩ := storeBlock_cases hres
  · exact tableRanges_writeBlockIntoHddBuf h hl hres
  · exact tableRanges_writeBlockIntoHddBuf (tableRanges_invalidate h l) hl hres
  · exact tableRanges_append h hl hres

theorem tableRanges_trimBlock (h : TableRanges d) {l : ℕ} (hl : l < totalSmrBlocksCnt) :
    TableRanges (d.trimBlock l) := by
  rw [trimBlock]
  split_ifs with hb hs
  · have hq := (h.mapping l hl).buffered (inHddBuf_iff.mp hb)
    rw [reclaimFreeHddBuf, if_pos hb]
    exact ((tableRanges_resetPhyBufCounter h hq).insertFree hq).unmap l
  · exact tableRanges_invalidate h l
  · exact h

theorem tableRanges_readBlockFromHddBuf (h : TableRanges d) {l : ℕ} (hl : l < totalSmrBlocksCnt)
    (hb : d.inHddBuf l = true) : TableRanges (d.readBlockFromHddBuf env l).2 := by
  have hq := (h.mapping l hl).buffered (inHddBuf_iff.mp hb)
  rw [readBlockFromHddBuf]
  let e := d.buf.reverseTable (d.smr.mappingTable l).paddr
  have hset : TableRanges (d.setHddBufEntry (d.smr.mappingTable l).paddr
      { e with readCnt := e.readCnt + 1 + (if d.countsTwice env l then 1 else 0) }) :=
    h.setHddBufEntry _ (h.bufBlk _ hq)
  exact hset.congr rfl rfl rfl rfl rfl rfl

/-- A read. -/
theorem tableRanges_readSmrBlocks (h : TableRanges d) (buf : ℕ → Block) {l n : ℕ}
    (hln : l + n ≤ totalSmrBlocksCnt) : TableRanges (d.readSmrBlocks env buf l n).2 := by
  refine readSmrBlocks_keeps (P := TableRanges) (fun d₁ i hi hb hd => ?_) (fun d₁ r hd => ?_) buf h
  · exact tableRanges_readBlockFromHddBuf hd (by omega) hb
  · exact hd.congr rfl rfl rfl rfl rfl rfl

end SmrDev

/-! ### The states of the module -/

/-- The device shows the contents and its tables are in range. -/
structure ShowsRanges (d : SmrDev) (a : ArrayDisk) : Prop extends Shows d a where
  ranges : TableRanges d

/-- **The translation layer keeps the tables in range.** -/
theorem smrLayer_range_sim (env : Env) :
    LayerSim (smrLayer env) arrayLayer (PastEndFault env) ShowsRanges where
  hasMapping h hl := (smrLayer_sim env).hasMapping h.toShows hl
  read buf _ _ h hln := by
    obtain ⟨h1, h2⟩ := (smrLayer_sim env).read buf h.toShows hln
    exact ⟨h1, h2, tableRanges_readSmrBlocks h.ranges buf hln⟩
  setupMetaFlag l flag h :=
    ⟨(smrLayer_sim env).setupMetaFlag l flag h.toShows, h.ranges.setupMetaFlag l flag⟩
  trim h hl := ⟨(smrLayer_sim env).trim h.toShows hl, tableRanges_trimBlock h.ranges hl⟩
  store {d a l} blk h hl := by
    have hsim := (smrLayer_sim env).store blk h.toShows hl
    change Refines _ _ (d.storeBlock env l blk) _ at hsim ⊢
    cases hres : d.storeBlock env l blk with
    | error e =>
      rw [hres] at hsim
      exact hsim
    | ok d' =>
      rw [hres] at hsim
      exact ⟨hsim, tableRanges_storeBlock h.ranges hl hres⟩

theorem tableRanges_init (data : ℕ → Block) : TableRanges (freshModule data).dev.initTables := by
  obtain ⟨table, bands, bufs, htable, -, hbufs, heq⟩ := SmrDev.initTables_eq (freshModule data).dev
  rw [heq]
  refine ⟨fun l hl => ?_, fun p hp => ?_, fun q hq => TableRanges.zero_lt,
    fun i hi => ⟨le_refl 0, Int.ofNat_lt.mpr TableRanges.zero_lt_bufs⟩, fun q hq => (hbufs q).mp hq, rfl⟩
  · dsimp only
    rw [if_pos hl]
    exact ⟨Or.inl rfl, TableRanges.zero_lt, fun hf => by cases hf⟩
  · dsimp only
    rw [htable p hp]
    exact TableRanges.zero_lt

/-! ## The vectors of the detector -/

/-- The elements of a vector are 64-bit numbers, and their count is an `int`. -/
def VectFits (v : SortedVector) : Prop := v.size < 2 ^ 31 ∧ ∀ x ∈ v, x < 2 ^ 64

namespace VectFits

variable {v w : SortedVector}

theorem of_subset {S : Finset ℕ} (h : ∀ x ∈ v, x ∈ S) (hcard : S.card < 2 ^ 31)
    (hlt : ∀ x ∈ S, x < 2 ^ 64) : VectFits v :=
  ⟨(SortedVector.size_le_card h).trans_lt hcard, fun x hx => hlt x (h x hx)⟩

theorem of_empty (h : ∀ x, x ∉ v) : VectFits v :=
  of_subset (S := ∅) (fun x hx => absurd hx (h x)) (by decide) (by simp)

theorem congr (h : VectFits v) (hvw : ∀ x, x ∈ w ↔ x ∈ v) : VectFits w := by
  have hsize : w.size = v.size := by
    rw [← SortedVector.length_toList, SortedVector.toList_eq_of_mem_iff hvw,
      SortedVector.length_toList]
  exact ⟨hsize ▸ h.1, fun x hx => h.2 x ((hvw x).mp hx)⟩

end VectFits

/-- All the vectors of the detector fit. -/
def VectsFit (m : Ext2MetaCtr) : Prop := ∀ idx, VectFits (m.metaBlks idx)

theorem Ext2SuperBlock.groupStart_lt_word (sb : Ext2SuperBlock) (g : ℕ) : sb.groupStart g < 2 ^ 32 :=
  Nat.mod_lt _ (by decide)

theorem Ext2SuperBlock.IsSuperPos.eq_groupStart {sb : Ext2SuperBlock} {x : ℕ}
    (h : sb.IsSuperPos x) : x = sb0BlockNo ∨ ∃ g < sb.gdCnt, x = sb.groupStart g := by
  rcases h with h | ⟨g, hg, -, hx⟩
  · exact Or.inl h
  · exact Or.inr ⟨g, hg, hx⟩

/-- Where super blocks may be. -/
theorem vectFits_supers {sb : Ext2SuperBlock} {v : SortedVector} (hcnt : sb.gdCnt ≤ 131072) (k : ℕ)
    (hk : k ≤ 1) (h : ∀ x ∈ v, ∃ y, x = y + k ∧ (y = sb0BlockNo ∨ ∃ g < sb.gdCnt, y = sb.groupStart g)) :
    VectFits v := by
  let S : Finset ℕ := insert sb0BlockNo ((Finset.range sb.gdCnt).image sb.groupStart)
  have hcard : S.card ≤ sb.gdCnt + 1 := by
    refine (Finset.card_insert_le _ _).trans (Nat.succ_le_succ ?_)
    exact Finset.card_image_le.trans (Finset.card_range _).le
  have hlt : ∀ y ∈ S, y < 2 ^ 32 := by
    intro y hy
    rcases Finset.mem_insert.mp hy with rfl | hy
    · decide
    · obtain ⟨g, -, rfl⟩ := Finset.mem_image.mp hy
      exact sb.groupStart_lt_word g
  refine .of_subset (S := S.image (· + k)) (fun x hx => ?_) ?_ fun x hx => ?_
  · obtain ⟨y, rfl, hy⟩ := h x hx
    refine Finset.mem_image_of_mem _ ?_
    rcases hy with rfl | ⟨g, hg, rfl⟩
    · exact Finset.mem_insert_self _ _
    · exact Finset.mem_insert_of_mem (Finset.mem_image_of_mem _ (Finset.mem_range.mpr hg))
  · exact (Finset.card_image_le.trans hcard).trans_lt (by omega)
  · obtain ⟨y, hy, rfl⟩ := Finset.mem_image.mp hx
    have := hlt y hy
    omega

theorem Sb0Phase.vectsFit {m : Ext2MetaCtr} (h : Sb0Phase m) : VectsFit m := by
  have hcnt : m.sb0.gdCnt ≤ 131072 := by
    rcases Ext2SuperBlock.gdCnt_cases h.legal with hle | heq
    · omega
    · exact heq.le
  have htmp : ∀ x ∈ m.metaBlks .tmpIdx, ∃ g < m.sb0.gdCnt, x = m.sb0.groupStart g := fun x hx => by
    obtain ⟨g, hg, -, hx⟩ := h.groups x hx
    exact ⟨g, hg, hx⟩
  intro idx
  by_cases hsb : idx = .sbIdx
  · subst hsb
    refine vectFits_supers hcnt 0 (by decide) fun x hx => ⟨x, rfl, ?_⟩
    exact ((h.super x).mp hx).imp_right (htmp x)
  · by_cases ht : idx = .tmpIdx
    · subst ht
      exact vectFits_supers hcnt 0 (by decide) fun x hx => ⟨x, rfl, Or.inr (htmp x hx)⟩
    · exact .of_empty (h.rest idx hsb ht)

section Known

variable {a : ArrayDisk} {desc : Block} {m : Ext2MetaCtr}

theorem SupersKnown.vectFits_super (h : SupersKnown a m) : VectFits (m.metaBlks .sbIdx) := by
  refine vectFits_supers (h.small.trans (by decide)) 0 (by decide) fun x hx => ⟨x, rfl, ?_⟩
  exact ((h.super x).mp hx).eq_groupStart

theorem SupersKnown.vectFits_bgDesc (h : SupersKnown a m) : VectFits (m.metaBlks .bgDescIdx) := by
  refine vectFits_supers (h.small.trans (by decide)) 1 (Nat.le_refl 1) fun x hx => ?_
  obtain ⟨y, hy, i, hi, rfl⟩ := (h.bgDesc x).mp hx
  rw [Ext2SuperBlock.gdBlks_eq_one h.small] at hi
  exact ⟨y, by omega, hy.eq_groupStart⟩

theorem SbsPhase.vectsFit (h : SbsPhase a m) : VectsFit m := by
  intro idx
  by_cases hsb : idx = .sbIdx
  · rw [hsb]
    exact h.vectFits_super
  · by_cases ht : idx = .tmpIdx
    · rw [ht]
      refine .of_subset (S := {sb0BlockNo + 1}) (fun x hx => ?_) (by decide) (by decide)
      exact Finset.mem_singleton.mpr ((h.tmp x).mp hx)
    · by_cases hd : idx = .bgDescIdx
      · rw [hd]
        exact h.vectFits_bgDesc
      · exact .of_empty (h.rest idx hsb ht hd)

/-- What the descriptors of a small file system say is one number for each group. -/
theorem vectFits_fields {n : ℕ} {v : SortedVector} {f : ℕ → ℕ} (hn : n ≤ 8)
    (hf : ∀ g, f g < 2 ^ 32) (h : ∀ x ∈ v, ∃ g < n, x = f g) : VectFits v := by
  refine .of_subset (S := (Finset.range n).image f) (fun x hx => ?_) ?_ fun x hx => ?_
  · obtain ⟨g, hg, rfl⟩ := h x hx
    exact Finset.mem_image_of_mem _ (Finset.mem_range.mpr hg)
  · have hcard := (Finset.card_image_le (s := Finset.range n) (f := f)).trans
      (Finset.card_range n).le
    omega
  · obtain ⟨g, -, rfl⟩ := Finset.mem_image.mp hx
    exact (hf g).trans (by decide)

theorem Decoded.vectFits_inoTable (h : Decoded a desc m) : VectFits (m.metaBlks .inoTableIdx) := by
  let f : ℕ × ℕ → ℕ := fun p => ((groupDesc (fun _ => desc) p.1).bgInodeTable + p.2) % 2 ^ 32
  refine .of_subset (S := (Finset.range m.sb0.gdCnt ×ˢ Finset.range m.sb0.tableBlks).image f)
    (fun x hx => ?_) ?_ fun x hx => ?_
  · obtain ⟨g, hg, i, hi, rfl⟩ := (h.inoTable x).mp hx
    exact Finset.mem_image.mpr ⟨(g, i),
      Finset.mem_product.mpr ⟨Finset.mem_range.mpr hg, Finset.mem_range.mpr hi⟩, rfl⟩
  · refine Finset.card_image_le.trans_lt ?_
    rw [Finset.card_product, Finset.card_range, Finset.card_range]
    have hprod := Nat.mul_le_mul h.small m.sb0.tableBlks_le
    omega
  · obtain ⟨p, -, rfl⟩ := Finset.mem_image.mp hx
    exact (Nat.mod_lt _ (by decide)).trans (by decide : 2 ^ 32 < 2 ^ 64)

theorem Decoded.vectFits (h : Decoded a desc m) {idx : MetaVectIndex} (hidx : idx ≠ .tmpIdx) :
    VectFits (m.metaBlks idx) := by
  cases idx with
  | sbIdx => exact h.vectFits_super
  | bgDescIdx => exact h.vectFits_bgDesc
  | inoTableIdx => exact h.vectFits_inoTable
  | inoBmpIdx =>
    exact vectFits_fields h.small (fun g => desc.le32_lt _) fun x hx => (h.inoBmp x).mp hx
  | blkBmpIdx =>
    exact vectFits_fields h.small (fun g => desc.le32_lt _) fun x hx => (h.blkBmp x).mp hx
  | tmpIdx => exact absurd rfl hidx

theorem Decoded.vectsFit (h : Decoded a desc m) (htmp : VectFits (m.metaBlks .tmpIdx)) :
    VectsFit m := by
  intro idx
  by_cases hidx : idx = .tmpIdx
  · rw [hidx]
    exact htmp
  · exact h.vectFits hidx

theorem DescsPhase.vectsFit (h : DescsPhase a desc m) : VectsFit m := by
  have htmp : ∀ {idx}, idx ≠ .tmpIdx → Decoded a desc m → m.TmpIs idx → VectsFit m :=
    fun hidx hdec hcopy => hdec.vectsFit ((hdec.vectFits hidx).congr hcopy)
  cases h with
  | bgDescs _ hdec hcopy => exact htmp (by decide) hdec hcopy
  | blkBitmap _ hdec hcopy => exact htmp (by decide) hdec hcopy
  | inoBitmap _ hdec hcopy => exact htmp (by decide) hdec hcopy

end Known

section Calls

variable {s s' : Ext2Sys ArrayDisk} {a : ArrayDisk} {desc buf : Block} {sb0 : Ext2SuperBlock}
  {blkNo : ℕ}

theorem Advanced.vectsFit (h : Advanced a desc sb0 s) : VectsFit s.metaCtr := by
  obtain ⟨-, ⟨-, hphase, -⟩ | hfin⟩ := h
  · exact hphase.vectsFit
  · exact hfin.decoded.vectsFit (.of_empty hfin.tmp)

theorem AfterSBs.vectsFit (h : AfterSBs a sb0 s) : VectsFit s.metaCtr := by
  obtain ⟨-, -, hphase, -⟩ | ⟨desc, -, hadv⟩ := h
  · exact hphase.vectsFit
  · exact hadv.vectsFit

/-- One call of the detector. -/
theorem Detects.vectsFit (h : Detects s desc buf blkNo s') (hs : VectsFit s.metaCtr) :
    VectsFit s'.metaCtr := by
  have hsame : ∀ {m}, VectsFit m → s'.metaCtr.metaBlks = m.metaBlks → VectsFit s'.metaCtr := by
    intro m hm heq idx
    rw [heq]
    exact hm idx
  cases h with
  | idle _ h => rwa [h]
  | recheck _ _ _ hblks => exact hsame hs hblks
  | back _ _ _ hvects =>
    rcases hvects with heq | ⟨m, hm, heq⟩
    · exact hsame hs heq
    · exact hsame hm.vectsFit heq
  | start _ _ _ _ _ h _ => exact h.vectsFit
  | startOn _ _ _ _ h => exact h.vectsFit
  | supers _ _ _ h => exact h.vectsFit
  | descs _ h => exact h.vectsFit
  | rest _ h => exact h.vectsFit

/-- One write. -/
theorem meets_writeOne_vectsFit {aware : Bool} (h : InPhase s ∧ VectsFit s.metaCtr) (buf : Block)
    (blkNo : ℕ) : Meets (fun _ => True) (fun s' => InPhase s' ∧ VectsFit s'.metaCtr)
      (s.writeOne arrayLayer aware buf blkNo) := by
  obtain ⟨⟨desc, hphase⟩, hs⟩ := h
  have hwrite : Meets TableFault _ (s.writeOne arrayLayer aware buf blkNo) :=
    writeOne_array_spec hphase buf blkNo
  have hin : Meets TableFault InPhase (s.writeOne arrayLayer aware buf blkNo) :=
    meets_writeOne_array ⟨desc, hphase⟩ buf blkNo
  cases hres : s.writeOne arrayLayer aware buf blkNo with
  | error e => trivial
  | ok s' =>
    rw [hres] at hwrite hin
    obtain ⟨s₁, hs₁, rfl⟩ := hwrite
    refine ⟨hin, ?_⟩
    split_ifs at hs₁
    · exact hs₁.vectsFit hs
    · rw [hs₁]
      exact hs

end Calls

/-! ## The states of the module -/

theorem ranges_kept :
    KeptBy arrayLayer ShowsRanges (fun t => InPhase t ∧ VectsFit t.metaCtr) where
  sim := smrLayer_range_sim
  recounted {d d' a} h hd := by
    refine ⟨h.toShows.recounted hd, h.ranges.congr (by rw [hd.rest]) (by rw [hd.rest])
      (by rw [hd.rest]) (by rw [hd.rest]) (by rw [hd.rest]) ?_⟩
    rw [enables, hd.smrCnt, hd.hddCnt, hd.rwCounter, enables]
  init data := by
    have h := shows_init data
    exact ⟨freshArray, ⟨⟨h.dev, tableRanges_init data⟩, h.metaCtr, h.sbsBuf, h.bgDescsBuf, h.blkBmp⟩,
      inPhase_freshArray, fun _ => .of_empty SortedVector.not_mem_create⟩
  write _ _ buf blkNo h := meets_writeOne_vectsFit h buf blkNo
  read _ _ _ _ h := h

theorem lastClassFlag_le (m : Ext2MetaCtr) (b : ℕ) : lastClassFlag m b ≤ metaInodeTable := by
  rw [lastClassFlag]
  cases hlast : (idx2Flag.filter fun entry => (m.metaBlks entry.1).isExisting b).getLast? with
  | none => exact Nat.zero_le _
  | some entry =>
    have hmem : entry ∈ idx2Flag := (List.mem_filter.mp (List.mem_of_getLast? hlast)).1
    have hall : ∀ e ∈ idx2Flag, e.2 ≤ metaInodeTable := by decide
    exact hall entry hmem

section Counters

variable {s : Ext2Sys FlagDisk}

/-- The detector does not count. -/
theorem detectExt2Fs_metaRwCnt (s : Ext2Sys FlagDisk) (buf : Block) (blkNo : ℕ) :
    Meets (fun _ => True) (fun s' => s'.metaCtr.metaRwCnt = s.metaCtr.metaRwCnt)
      (s.detectExt2Fs flagLayer buf blkNo) := by
  have hstage : ∀ {f : Except Fault (Ext2Sys FlagDisk)}, Meets (fun _ => True) (Marked s) f →
      Meets (fun _ => True) (fun s' => s'.metaCtr.metaRwCnt = s.metaCtr.metaRwCnt) f :=
    fun hf => hf.mono fun s' hs' => hs'.ctr.metaRwCnt
  rw [Ext2Sys.detectExt2Fs]
  cases hs : s.metaCtr.status with
  | ext2Detected =>
    dsimp only
    split_ifs
    · rw [Ext2Sys.recheckSB0]
      dsimp only
      split_ifs
      · exact rfl
      · refine ((markMetaBlks_flags _ _).weaken fun _ _ => trivial).mono ?_
        rintro - rfl
        rfl
    · exact rfl
  | noSb0 =>
    dsimp only
    rw [Ext2Sys.detectSB0IfNoSB0]
    dsimp only
    split_ifs with hcond
    · obtain ⟨m, hm, -, hrec⟩ := recordSuperBlks_start s.metaCtr
        (Ext2SuperBlock.ofBlock buf firstSuperBlockOffset)
      have hcnt : m.metaRwCnt = s.metaCtr.metaRwCnt := by
        rw [hrec.only]
        rfl
      rw [hm]
      refine (detectSBsIfSB0_marked (s := { s with metaCtr := m }) fun h => ?_).mono
        fun s' hs' => hs'.ctr.metaRwCnt.trans hcnt
      rw [hrec.only.status] at h
      cases h
    · exact rfl
  | sb0Detected => exact hstage (detectSBsIfSB0_marked (by rw [hs]; decide))
  | sbsDetected => exact hstage (detectBgDescsIfSBs_marked (by rw [hs]; decide))
  | bgDescsDetected => exact hstage (detectBlkBmpIfBgDescs_marked (by rw [hs]; decide))
  | blkBitmapDetected => exact hstage (detectInoBmpIfBlkBmp_marked (by rw [hs]; decide))
  | inoBitmapDetected => exact hstage (detectInoTableIfInoBmp_marked (by rw [hs]; decide))
  | inodeTableDetected => exact trivial
  | undefined code => exact trivial

theorem writeOne_metaRwCnt (aware : Bool) (s : Ext2Sys FlagDisk) (buf : Block) (blkNo : ℕ) :
    Meets (fun _ => True) (fun s' => s'.metaCtr.metaRwCnt = s.metaCtr.metaRwCnt)
      (s.writeOne flagLayer aware buf blkNo) := by
  cases hres : s.writeOne flagLayer aware buf blkNo with
  | error e => trivial
  | ok s' =>
    obtain ⟨s₁, hs₁, -, dev, -, rfl⟩ := writeOne_ok hres
    change s₁.metaCtr.metaRwCnt = s.metaCtr.metaRwCnt
    split_ifs at hs₁
    · exact (detectExt2Fs_metaRwCnt s buf blkNo).of_ok hs₁
    · rw [hs₁]

end Counters

theorem flags_kept : KeptBy flagLayer ShowsFlags
    (fun u => FlagsExact u ∧ u.metaCtr.metaRwCnt = zeroCounter) where
  sim := smrLayer_flag_sim
  recounted {d d' a} h hd := by
    refine ⟨h.toShows.recounted hd, fun l => ?_⟩
    rw [hd.rest]
    exact h.flags l
  init data := ⟨freshFlags, showsFlags_init data,
    fun _ => (if_neg fun h => MetaStatus.noConfusion h).symm, rfl⟩
  write aware u buf blkNo h := by
    have hexact := h.1.writeOne aware buf blkNo
    have hcnt := writeOne_metaRwCnt aware u buf blkNo
    cases hres : u.writeOne flagLayer aware buf blkNo with
    | error e => trivial
    | ok u' =>
      rw [hres] at hexact hcnt
      exact ⟨hexact, hcnt.trans h.2⟩
  read _ _ _ _ h := h

/-- All that the module holds fits into its type. -/
structure Storable (s : Ext2Sys SmrDev) : Prop where
  inv : DevInv s.dev
  ranges : TableRanges s.dev
  metaFlag : ∀ l < totalSmrBlocksCnt, (s.dev.smr.mappingTable l).metaFlag ≤ metaInodeTable
  vects : VectsFit s.metaCtr
  status : ∀ code, s.metaCtr.status ≠ .undefined code
  metaRwCnt : s.metaCtr.metaRwCnt = zeroCounter

/-- **In every state of the module** all that it holds fits into its type. -/
theorem Reached.storable {s : Ext2Sys SmrDev} (hs : Reached s) : Storable s := by
  obtain ⟨t, hst, ⟨desc, hphase⟩, hvects⟩ := ranges_kept.reached hs
  obtain ⟨u, hsu, hexact, hcnt⟩ := flags_kept.reached hs
  rw [← hst.metaCtr] at hphase hvects
  rw [← hsu.metaCtr] at hcnt
  refine ⟨hst.dev.inv, hst.dev.ranges, fun l _ => ?_, hvects, fun code heq => ?_, hcnt⟩
  · rw [hsu.dev.flags, hexact l]
    split_ifs
    · exact lastClassFlag_le _ l
    · exact Nat.zero_le _
  · cases hphase with
    | noSb0 hs => exact absurd (hs.symm.trans heq) (by simp)
    | sb0 h => exact absurd (h.status.symm.trans heq) (by simp)
    | sbs h => exact absurd (h.status.symm.trans heq) (by simp)
    | descs h =>
      cases h with
      | bgDescs hs => exact absurd (hs.symm.trans heq) (by simp)
      | blkBitmap hs => exact absurd (hs.symm.trans heq) (by simp)
      | inoBitmap hs => exact absurd (hs.symm.trans heq) (by simp)
    | ext2 hs => exact absurd (hs.symm.trans heq) (by simp)

end MemSmr
