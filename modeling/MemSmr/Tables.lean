import MemSmr.FullRun

/-!
# The tables between two operations

What the invariant of the translation layer says of every state that a run of the module reaches,
with the detector on or off.

* `shingled_writes`: appends go to the free end of a band, and a collection leaves room there.
* `maps_inverse`: the forward and the reverse maps are inverse to each other.
* `band_accounting`: the counters of the bands and the queue of invalid bands are exact.

The hypothesis `hindex` says that the calls and the detector use no block number past the end of
`mapping_table`.
-/

namespace MemSmr

/-- The calls of the run that fills the device. -/
theorem index_overwrite (i : ℕ) :
    runModule plainEnv (fun _ => 0) overwriteOps ≠ .error (.tableIndex i) := by
  obtain ⟨outs, s, hrun, -⟩ := overwrite_run
  rw [hrun]
  exact fun h => by cases h

/-- **Shingled writes.**  Every slot that `get_free_smr_block` hands out is free, with the slots of
its band above it free and those below it not; and a collection leaves `cur_paddr` on a free
slot. -/
theorem shingled_writes (env : Env) (hpast : env.PastEndNotFree) (data : ℕ → Block)
    (ops : List HostOp) (hindex : ∀ i, runModule env data ops ≠ .error (.tableIndex i)) :
    ∃ outs s, runModule env data ops = .ok (outs, s) ∧
      (∀ p table, Event.handed p table ∈ s.dev.log →
        p < totalSmrBlocksCnt ∧ (table p).phyStatus = .freePhyBlock ∧
          (∀ q, q / blocksPerBand = p / blocksPerBand → p < q →
            (table q).phyStatus = .freePhyBlock) ∧
          ∀ q, q / blocksPerBand = p / blocksPerBand → q < p →
            (table q).phyStatus ≠ .freePhyBlock) ∧
      ∀ p table, Event.collected p table ∈ s.dev.log →
        p < totalSmrBlocksCnt ∧ (table p).phyStatus = .freePhyBlock := by
  obtain ⟨outs, s, hrun⟩ := runModule_ok hpast hindex
  have hlog := (devInv_of_runModule hrun).log.ok
  refine ⟨outs, s, hrun, fun p table he => ?_, fun p table he => ?_⟩
  · obtain ⟨_, h⟩ := hlog.of_mem he
    exact h
  · obtain ⟨_, h⟩ := hlog.of_mem he
    exact h

/-- A run with a swap and a collection. -/
theorem shingled_writes_overwrite :
    ∃ outs s, runModule plainEnv (fun _ => 0) overwriteOps = .ok (outs, s) ∧ s.dev.Wrapped ∧
      (∀ p table, Event.handed p table ∈ s.dev.log →
        p < totalSmrBlocksCnt ∧ (table p).phyStatus = .freePhyBlock ∧
          (∀ q, q / blocksPerBand = p / blocksPerBand → p < q →
            (table q).phyStatus = .freePhyBlock) ∧
          ∀ q, q / blocksPerBand = p / blocksPerBand → q < p →
            (table q).phyStatus ≠ .freePhyBlock) ∧
      ∀ p table, Event.collected p table ∈ s.dev.log →
        p < totalSmrBlocksCnt ∧ (table p).phyStatus = .freePhyBlock := by
  obtain ⟨outs, s, hrun, hall⟩ :=
    shingled_writes plainEnv plainEnv_pastEndNotFree (fun _ => 0) overwriteOps index_overwrite
  obtain ⟨outs', s', hrun', hwrapped⟩ := overwrite_run
  obtain ⟨rfl, rfl⟩ := Prod.mk.inj (Except.ok.inj (hrun'.symm.trans hrun))
  exact ⟨outs', s', hrun, hwrapped, hall⟩

/-- **The maps are inverse.**  No block is in two places, no slot or buffer holds two blocks, no
buffer is lost, and `get_one_free_buf` always finds one. -/
theorem maps_inverse (env : Env) (hpast : env.PastEndNotFree) (data : ℕ → Block)
    (ops : List HostOp) (hindex : ∀ i, runModule env data ops ≠ .error (.tableIndex i)) :
    ∃ outs s, runModule env data ops = .ok (outs, s) ∧
      (∀ l < totalSmrBlocksCnt, ∀ p < totalSmrBlocksCnt,
        (s.dev.smr.mappingTable l).mappingFlag = .inSmrDisk ∧
            (s.dev.smr.mappingTable l).paddr = p ↔
          s.dev.smr.smrReverseTable p = ⟨l, .validPhyBlock⟩) ∧
      (∀ l < totalSmrBlocksCnt, ∀ q,
        (s.dev.smr.mappingTable l).mappingFlag = .inHddBuf ∧
            (s.dev.smr.mappingTable l).paddr = q ↔
          q < blocksOfHddBuf ∧ q ∉ s.dev.buf.freeHddBufs ∧
            (s.dev.buf.reverseTable q).blkNo = l) ∧
      (∀ p < totalSmrBlocksCnt, (s.dev.smr.smrReverseTable p).phyStatus = .validPhyBlock →
        (s.dev.smr.smrReverseTable p).blkNo < totalSmrBlocksCnt) ∧
      (∀ q < blocksOfHddBuf, q ∈ s.dev.buf.freeHddBufs ∨
        ∃ l < totalSmrBlocksCnt, (s.dev.smr.mappingTable l).mappingFlag = .inHddBuf ∧
          (s.dev.smr.mappingTable l).paddr = q) ∧
      ∀ avail, Event.freeBufAsked avail ∈ s.dev.log → 0 < avail := by
  obtain ⟨outs, s, hrun⟩ := runModule_ok hpast hindex
  have hinv := devInv_of_runModule hrun
  refine ⟨outs, s, hrun, fun l hl p hp => ⟨?_, fun hr => ?_⟩, fun l hl q => ⟨?_, ?_⟩,
    fun p hp hv => ?_, fun q hq => ?_, fun avail he => ?_⟩
  · rintro ⟨hf, rfl⟩
    exact (hinv.stl.fwd l hl hf).2
  · exact (hinv.stl.rev p hp l hr).2
  · rintro ⟨hf, rfl⟩
    exact hinv.buf.fwd l hl hf
  · rintro ⟨hq, hused, rfl⟩
    exact (hinv.buf.rev q hq hused).2
  · exact (hinv.stl.rev p hp _ (by rw [← hv])).1
  · refine or_iff_not_imp_left.mpr fun hused => ?_
    obtain ⟨h1, h2, h3⟩ := hinv.buf.rev q hq hused
    exact ⟨_, h1, h2, h3⟩
  · obtain ⟨_, h⟩ := hinv.log.ok.of_mem he
    exact h

/-- A run with a swap and a collection. -/
theorem maps_inverse_overwrite :
    ∃ outs s, runModule plainEnv (fun _ => 0) overwriteOps = .ok (outs, s) ∧ s.dev.Wrapped ∧
      (∀ l < totalSmrBlocksCnt, ∀ p < totalSmrBlocksCnt,
        (s.dev.smr.mappingTable l).mappingFlag = .inSmrDisk ∧
            (s.dev.smr.mappingTable l).paddr = p ↔
          s.dev.smr.smrReverseTable p = ⟨l, .validPhyBlock⟩) ∧
      (∀ l < totalSmrBlocksCnt, ∀ q,
        (s.dev.smr.mappingTable l).mappingFlag = .inHddBuf ∧
            (s.dev.smr.mappingTable l).paddr = q ↔
          q < blocksOfHddBuf ∧ q ∉ s.dev.buf.freeHddBufs ∧
            (s.dev.buf.reverseTable q).blkNo = l) ∧
      (∀ p < totalSmrBlocksCnt, (s.dev.smr.smrReverseTable p).phyStatus = .validPhyBlock →
        (s.dev.smr.smrReverseTable p).blkNo < totalSmrBlocksCnt) ∧
      (∀ q < blocksOfHddBuf, q ∈ s.dev.buf.freeHddBufs ∨
        ∃ l < totalSmrBlocksCnt, (s.dev.smr.mappingTable l).mappingFlag = .inHddBuf ∧
          (s.dev.smr.mappingTable l).paddr = q) ∧
      ∀ avail, Event.freeBufAsked avail ∈ s.dev.log → 0 < avail := by
  obtain ⟨outs, s, hrun, hall⟩ :=
    maps_inverse plainEnv plainEnv_pastEndNotFree (fun _ => 0) overwriteOps index_overwrite
  obtain ⟨outs', s', hrun', hwrapped⟩ := overwrite_run
  obtain ⟨rfl, rfl⟩ := Prod.mk.inj (Except.ok.inj (hrun'.symm.trans hrun))
  exact ⟨outs', s', hrun, hwrapped, hall⟩

/-- **Band accounting is exact.** -/
theorem band_accounting (env : Env) (hpast : env.PastEndNotFree) (data : ℕ → Block)
    (ops : List HostOp) (hindex : ∀ i, runModule env data ops ≠ .error (.tableIndex i)) :
    ∃ outs s, runModule env data ops = .ok (outs, s) ∧
      (∀ b < totalSmrBandsCnt,
        (s.dev.smr.phyBands b).freeCnt = slotCount s.dev.smr.smrReverseTable .freePhyBlock b ∧
        (s.dev.smr.phyBands b).validCnt = slotCount s.dev.smr.smrReverseTable .validPhyBlock b ∧
        (s.dev.smr.phyBands b).invalidCnt =
          slotCount s.dev.smr.smrReverseTable .invalidPhyBlock b ∧
        (s.dev.smr.phyBands b).freeCnt + (s.dev.smr.phyBands b).validCnt +
          (s.dev.smr.phyBands b).invalidCnt = blocksPerBand) ∧
      (∀ b, b ∈ s.dev.smr.fullyInvalidBands.toList ↔
        b < totalSmrBandsCnt ∧ (s.dev.smr.phyBands b).invalidCnt = blocksPerBand) ∧
      s.dev.smr.fullyInvalidBands.toList.Nodup := by
  obtain ⟨outs, s, hrun⟩ := runModule_ok hpast hindex
  have hinv := (devInv_of_runModule hrun).stl
  refine ⟨outs, s, hrun, fun b hb => ?_, fun b => ?_, ?_⟩
  · have hsum := slotCount_sum s.dev.smr.smrReverseTable b fun i hi =>
      hinv.known _ (band_add_lt hb hi)
    rw [hinv.counts b hb]
    refine ⟨rfl, rfl, rfl, ?_⟩
    dsimp only
    omega
  · rw [SortedVector.mem_toList, hinv.queue]
    refine and_congr_right fun hb => ?_
    rw [hinv.invalidCnt_eq hb, Int.ofNat_inj]
  · exact (SortedVector.pairwise_toList _).imp fun h => Nat.ne_of_lt h

/-- A run with a swap and a collection. -/
theorem band_accounting_overwrite :
    ∃ outs s, runModule plainEnv (fun _ => 0) overwriteOps = .ok (outs, s) ∧ s.dev.Wrapped ∧
      (∀ b < totalSmrBandsCnt,
        (s.dev.smr.phyBands b).freeCnt = slotCount s.dev.smr.smrReverseTable .freePhyBlock b ∧
        (s.dev.smr.phyBands b).validCnt = slotCount s.dev.smr.smrReverseTable .validPhyBlock b ∧
        (s.dev.smr.phyBands b).invalidCnt =
          slotCount s.dev.smr.smrReverseTable .invalidPhyBlock b ∧
        (s.dev.smr.phyBands b).freeCnt + (s.dev.smr.phyBands b).validCnt +
          (s.dev.smr.phyBands b).invalidCnt = blocksPerBand) ∧
      (∀ b, b ∈ s.dev.smr.fullyInvalidBands.toList ↔
        b < totalSmrBandsCnt ∧ (s.dev.smr.phyBands b).invalidCnt = blocksPerBand) ∧
      s.dev.smr.fullyInvalidBands.toList.Nodup := by
  obtain ⟨outs, s, hrun, hall⟩ :=
    band_accounting plainEnv plainEnv_pastEndNotFree (fun _ => 0) overwriteOps index_overwrite
  obtain ⟨outs', s', hrun', hwrapped⟩ := overwrite_run
  obtain ⟨rfl, rfl⟩ := Prod.mk.inj (Except.ok.inj (hrun'.symm.trans hrun))
  exact ⟨outs', s', hrun, hwrapped, hall⟩

end MemSmr
