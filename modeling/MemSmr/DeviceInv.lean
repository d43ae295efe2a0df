import MemSmr.Buffer
import MemSmr.Device
import MemSmr.ArrayDisk

/-!
# The operations of the layer

The store, the trim and the read of `smrLayer` and the initialisation: each keeps `DevInv`, and
each changes the contents of the device as a plain array of blocks would be changed.
-/

namespace MemSmr

namespace SmrDev

/-! ## Store and trim -/

theorem devInv_invalidate {d : SmrDev} {l : ℕ} (h : DevInv d) (hl : l < totalSmrBlocksCnt)
    (hf : (d.smr.mappingTable l).mappingFlag = .inSmrDisk) : DevInv (d.invalidateMappingEntry l) where
  stl := by
    rw [invalidate_curPaddr hf]
    exact stlInv_invalidate h.stl hl hf
  buf := by
    rw [invalidate_buf hf]
    have hforget := forgets_invalidate hf
    exact h.buf.touches hforget.toTouches (invalidate_buf hf) (by rw [hf]; decide)
      (by rw [hforget.here]; decide)
  free := by
    rw [invalidate_buf hf]
    exact h.free
  log := h.log.congr (invalidate_curPaddr hf) (invalidate_log hf)

/-- A block that leaves the SMR area is not in the buffer yet. -/
theorem inHddBuf_invalidate {d : SmrDev} {l : ℕ}
    (hf : (d.smr.mappingTable l).mappingFlag = .inSmrDisk) :
    (d.invalidateMappingEntry l).inHddBuf l = false :=
  inHddBuf_eq_false (by rw [(forgets_invalidate hf).here]; decide)

theorem isHddBufFull_invalidate {d : SmrDev} {l : ℕ}
    (hf : (d.smr.mappingTable l).mappingFlag = .inSmrDisk) :
    (d.invalidateMappingEntry l).isHddBufFull = d.isHddBufFull := by
  rw [isHddBufFull, invalidate_buf hf, isHddBufFull]

/-- **The three ways of a store**: the block is in the buffer, or it leaves the SMR area for the buffer,
or it is appended. -/
theorem storeBlock_cases {env : Env} {d d' : SmrDev} {l : ℕ} {blk : Block}
    (hok : d.storeBlock env l blk = .ok d') :
    (d.inHddBuf l = true ∧ d.writeBlockIntoHddBuf env l blk = .ok d') ∨
    (d.inHddBuf l = false ∧ d.inSmrDisk l = true ∧
      (d.invalidateMappingEntry l).writeBlockIntoHddBuf env l blk = .ok d') ∨
    (d.inHddBuf l = false ∧ d.inSmrDisk l = false ∧
      d.appendSmrBlocks env (fun _ => blk) l 1 = .ok d') := by
  rw [storeBlock] at hok
  split_ifs at hok with hb hs
  · exact Or.inl ⟨hb, hok⟩
  · exact Or.inr (Or.inl ⟨Bool.eq_false_iff.mpr hb, hs, hok⟩)
  · exact Or.inr (Or.inr ⟨Bool.eq_false_iff.mpr hb, Bool.eq_false_iff.mpr hs, hok⟩)

/-- **A store** of one block. -/
theorem storeBlock_spec (env : Env) {d : SmrDev} {l : ℕ} (blk : Block) (h : DevInv d)
    (hl : l < totalSmrBlocksCnt) :
    Outcome.Meets (PastEndFault env) (fun d' => Stored d d' l blk) (d.storeBlock env l blk) := by
  rw [storeBlock]
  by_cases hb : (d.smr.mappingTable l).mappingFlag = .inHddBuf
  · rw [if_pos (inHddBuf_iff.mpr hb)]
    exact writeBlockIntoHddBuf_spec env blk h hl (by rw [hb]; decide)
  · rw [if_neg fun h' => hb (inHddBuf_iff.mp h')]
    by_cases hs : (d.smr.mappingTable l).mappingFlag = .inSmrDisk
    · rw [if_pos (inSmrDisk_iff.mpr hs)]
      have hforget := forgets_invalidate hs
      have hinv := devInv_invalidate h hl hs
      refine (writeBlockIntoHddBuf_spec env blk hinv hl (by rw [hforget.here]; decide)).mono
        fun d' hd' => ⟨hd'.inv, fun l' => (hd'.metaFlag l').trans (hforget.metaFlag l'), hd'.here,
          fun l' hl' hne => (hd'.others l' hl' hne).trans (hforget.contents l' hl' hne)⟩
    · rw [if_neg fun h' => hs (inSmrDisk_iff.mp h')]
      refine (appendSmrBlocks_spec env _ h.stl h.log hl hs).mono fun d' ⟨h1, h2, ha⟩ =>
        ⟨⟨h1, ?_, ?_, h2⟩, ha.metaFlag, ha.stored, ha.contents⟩
      · rw [ha.buf]
        exact h.buf.touches ha.toTouches ha.buf hb (by rw [ha.here]; decide)
      · rw [ha.buf]
        exact h.free

/-- **A trim** of one block: afterwards it has no contents. -/
theorem trimBlock_spec {d : SmrDev} {l : ℕ} (h : DevInv d) (hl : l < totalSmrBlocksCnt) :
    DevInv (d.trimBlock l) ∧
      (∀ l', ((d.trimBlock l).smr.mappingTable l').metaFlag = (d.smr.mappingTable l').metaFlag) ∧
      (d.trimBlock l).contents l = none ∧
      ∀ l' < totalSmrBlocksCnt, l' ≠ l → (d.trimBlock l).contents l' = d.contents l' := by
  rw [trimBlock]
  by_cases hb : (d.smr.mappingTable l).mappingFlag = .inHddBuf
  · rw [if_pos (inHddBuf_iff.mpr hb)]
    obtain ⟨h1, h2⟩ := reclaimFreeHddBuf_spec h hl hb
    exact ⟨h1, h2.metaFlag, h2.contents_self, h2.contents⟩
  · rw [if_neg fun h' => hb (inHddBuf_iff.mp h')]
    by_cases hs : (d.smr.mappingTable l).mappingFlag = .inSmrDisk
    · rw [if_pos (inSmrDisk_iff.mpr hs)]
      have h2 := forgets_invalidate hs
      exact ⟨devInv_invalidate h hl hs, h2.metaFlag, h2.contents_self, h2.contents⟩
    · rw [if_neg fun h' => hs (inSmrDisk_iff.mp h')]
      exact ⟨h, fun _ => rfl, contents_of_unmapped hb hs, fun _ _ _ => rfl⟩

/-- A meta flag may be set at any time. -/
theorem devInv_setupMetaFlag {d : SmrDev} (h : DevInv d) (l flag : ℕ) :
    DevInv (d.setupMetaFlag l flag) ∧
      ∀ l', (d.setupMetaFlag l flag).contents l' = d.contents l' := by
  have hmap : ∀ l', ((d.setupMetaFlag l flag).smr.mappingTable l').mappingFlag =
        (d.smr.mappingTable l').mappingFlag ∧
      ((d.setupMetaFlag l flag).smr.mappingTable l').paddr = (d.smr.mappingTable l').paddr := by
    intro l'
    simp only [setupMetaFlag]
    by_cases hne : l' = l
    · rw [hne, Function.update_self]
      exact ⟨rfl, rfl⟩
    · rw [Function.update_of_ne hne]
      exact ⟨rfl, rfl⟩
  have hrev : (d.setupMetaFlag l flag).smr.smrReverseTable = d.smr.smrReverseTable := rfl
  have hbuf : (d.setupMetaFlag l flag).buf = d.buf := rfl
  have hdata : (d.setupMetaFlag l flag).data = d.data := rfl
  refine ⟨⟨⟨?_, ?_, h.stl.known, h.stl.counts, h.stl.queue, h.stl.frontier⟩, ⟨?_, ?_⟩, h.free,
    h.log.congr rfl rfl⟩, fun l' => contents_congr (hmap l').1 (fun _ => ?_) fun _ => ?_⟩
  · intro l' hl'
    rw [(hmap l').1, (hmap l').2, hrev]
    exact h.stl.fwd l' hl'
  · intro p hp l' hr
    rw [(hmap l').1, (hmap l').2]
    exact h.stl.rev p hp l' hr
  · intro l' hl'
    rw [(hmap l').1, (hmap l').2, hbuf]
    exact h.buf.fwd l' hl'
  · intro q hq hfree
    rw [hbuf, (hmap _).1, (hmap _).2]
    exact h.buf.rev q hq hfree
  · rw [hbuf, (hmap l').2]
  · rw [hdata, (hmap l').2]

/-! ## Read -/

/-- The invariant of the loop of `read_smr_blocks`, before round `i`. -/
structure ReadLoop (d : SmrDev) (buf : ℕ → Block) (blkNo i : ℕ)
    (st : (ℕ → Block) × ℕ × SmrDev) : Prop where
  inv : DevInv st.2.2
  view : SameView d st.2.2
  read : st.1 = ArrayDisk.readOver d.contents buf blkNo i

theorem ReadLoop.step (env : Env) {d : SmrDev} {buf : ℕ → Block} {blkNo i : ℕ}
    {st : (ℕ → Block) × ℕ × SmrDev} (hi : blkNo + i < totalSmrBlocksCnt)
    (h : ReadLoop d buf blkNo i st) : ReadLoop d buf blkNo (i + 1) (readRound env blkNo st i) := by
  have hview := h.view.contents _ hi
  rw [readRound]
  by_cases hb : (st.2.2.smr.mappingTable (blkNo + i)).mappingFlag = .inHddBuf
  · obtain ⟨h1, h2, h3⟩ := readBlockFromHddBuf_spec env h.inv hb
    simp only [if_pos (inHddBuf_iff.mpr hb)]
    refine ⟨h1, h.view.trans h2, ?_⟩
    rw [h.read]
    exact ArrayDisk.readOver_succ (by rw [← hview, h3]; rfl)
  · by_cases hs : (st.2.2.smr.mappingTable (blkNo + i)).mappingFlag = .inSmrDisk
    · obtain ⟨h1, h2, h3⟩ := readHddBlock_spec h.inv hs
      simp only [if_neg fun h' => hb (inHddBuf_iff.mp h'), if_pos (inSmrDisk_iff.mpr hs)]
      refine ⟨h1, h.view.trans h2, ?_⟩
      rw [h.read]
      exact ArrayDisk.readOver_succ (by rw [← hview, h3]; rfl)
    · simp only [if_neg fun h' => hb (inHddBuf_iff.mp h'),
        if_neg fun h' => hs (inSmrDisk_iff.mp h')]
      refine ⟨h.inv, h.view, ?_⟩
      rw [ArrayDisk.readOver_self (by rw [← hview, contents_of_unmapped hb hs])]
      exact h.read

/-- **A read** of `num` blocks. -/
theorem readSmrBlocks_spec (env : Env) {d : SmrDev} (buf : ℕ → Block) {blkNo num : ℕ}
    (h : DevInv d) (hnum : blkNo + num ≤ totalSmrBlocksCnt) :
    DevInv (d.readSmrBlocks env buf blkNo num).2 ∧
      SameView d (d.readSmrBlocks env buf blkNo num).2 ∧
      (d.readSmrBlocks env buf blkNo num).1 = ArrayDisk.readOver d.contents buf blkNo num := by
  have hloop := Outcome.foldl_range (ReadLoop d buf blkNo) (f := readRound env blkNo) (n := num)
    (a := (buf, 0, d)) ⟨h, SameView.refl d, rfl⟩ fun i hi st hst => hst.step env (by omega)
  rw [readSmrBlocks]
  generalize (List.range num).foldl (readRound env blkNo) (buf, 0, d) = st at hloop ⊢
  exact ⟨⟨hloop.inv.stl.congr rfl rfl rfl rfl, hloop.inv.buf.congr rfl fun _ => rfl,
    hloop.inv.free, hloop.inv.log.congr rfl rfl⟩, ⟨hloop.view.metaFlag, hloop.view.contents⟩,
    hloop.read⟩

/-- **The rule for reads.**  They keep what the read of a buffered block keeps, if it does not depend on
the read counter of the disk. -/
theorem readSmrBlocks_keeps {env : Env} {P : SmrDev → Prop} {l n : ℕ}
    (hbuf : ∀ d i, i < n → d.inHddBuf (l + i) = true → P d → P (d.readBlockFromHddBuf env (l + i)).2)
    (hcount : ∀ (d : SmrDev) r, P d →
      P { d with smr := { d.smr with hddCnt := { d.smr.hddCnt with readCount := r } } })
    {d : SmrDev} (buf : ℕ → Block) (h : P d) : P (d.readSmrBlocks env buf l n).2 := by
  have hsmr : ∀ (d : SmrDev) p, P d → P (d.readHddBlock p).2 := fun d p hd => by
    rw [readHddBlock, DsCounter.addRead]
    split_ifs
    · exact hcount d _ hd
    · exact hd
  have hloop := Outcome.foldl_range (n := n) (a := ((buf, 0, d) : (ℕ → Block) × ℕ × SmrDev))
    (f := readRound env l) (fun _ st => P st.2.2) h fun i hi st hst => by
      rw [readRound]
      split_ifs with hb
      · exact hbuf _ i hi hb hst
      · exact hsmr _ (st.2.2.smr.mappingTable (l + i)).paddr hst
      · exact hst
  exact hcount _ _ hloop

/-! ## Initialisation -/

/-- What the loop of `init_smr_reverse_table` has done before round `n`. -/
structure BandsFreed (d : SmrDev) (n : ℕ) (d' : SmrDev) : Prop where
  slots : ∀ p < n * blocksPerBand, d'.smr.smrReverseTable p = ⟨0, .freePhyBlock⟩
  bands : ∀ b < n, d'.smr.phyBands b = ⟨0, blocksPerBand, 0⟩
  rest : ∃ table bands, d' =
    { d with smr := { d.smr with smrReverseTable := table, phyBands := bands } }

theorem initSmrReverseTable_spec (d : SmrDev) :
    BandsFreed d totalSmrBandsCnt d.initSmrReverseTable := by
  refine Outcome.foldl_range (BandsFreed d) ⟨fun p hp => ?_, fun b hb => absurd hb (by omega),
    _, _, rfl⟩ fun b _ d' hd' => ⟨fun p hp => ?_, fun a ha => ?_, ?_⟩
  · exact absurd hp (by omega)
  · by_cases hlt : p < b * blocksPerBand
    · exact (Slots.fillRange_of_notMem (by omega)).trans (hd'.slots p hlt)
    · rw [Nat.succ_mul] at hp
      exact Slots.fillRange_of_mem (by omega)
  · by_cases hab : a = b
    · rw [hab]
      exact Function.update_self _ _ _
    · exact (Function.update_of_ne hab _ _).trans (hd'.bands a (by omega))
  · obtain ⟨table, bands, rfl⟩ := hd'.rest
    exact ⟨_, _, rfl⟩

/-- The list of free buffers after `init_hdd_buf`. -/
theorem mem_allBufs (q : ℕ) :
    q ∈ (List.range blocksOfHddBuf).foldl SortedVector.insert .create ↔ q < blocksOfHddBuf := by
  have h := Outcome.foldl_range (f := SortedVector.insert) (n := blocksOfHddBuf)
    (a := SortedVector.create) (fun n v => ∀ q, q ∈ v ↔ q < n)
    (fun q => by simp) fun n _ v hv q => by
      rw [SortedVector.mem_insert, hv]
      omega
  exact h q

/-- What `init_smr_disk` sets up: nothing is mapped, every slot and every buffer is free. -/
theorem initTables_eq (d : SmrDev) : ∃ table bands bufs,
    (∀ p < totalSmrBlocksCnt, table p = ⟨0, .freePhyBlock⟩) ∧
    (∀ b < totalSmrBandsCnt, bands b = ⟨0, blocksPerBand, 0⟩) ∧
    (∀ q, q ∈ bufs ↔ q < blocksOfHddBuf) ∧
    d.initTables =
      { d with
        smr := { d.smr with
          mappingTable := fun i =>
            if i < totalSmrBlocksCnt then ⟨.invalidMapping, (d.smr.mappingTable i).metaFlag, 0⟩
            else d.smr.mappingTable i
          smrReverseTable := table
          phyBands := bands
          fullyInvalidBands := .create
          smrCnt := { d.smr.smrCnt with enable := 1 }
          hddCnt := { d.smr.hddCnt with enable := 1 } }
        buf := { d.buf with
          freeHddBufs := bufs
          rwCounter := { d.buf.rwCounter with enable := 1 } } } := by
  obtain ⟨hslots, hbands, table, bands, heq⟩ :=
    initSmrReverseTable_spec (d.setFullyInvalidBands .create).initGlobalMappingTable
  rw [heq] at hslots hbands
  rw [bands_mul_blocks] at hslots
  refine ⟨table, bands, _, hslots, hbands, mem_allBufs, ?_⟩
  simp only [initTables, initHddBuf, setFreeHddBufs, heq]
  rfl

/-- Right after the initialisation no block has contents. -/
theorem contents_initTables (d : SmrDev) {l : ℕ} (hl : l < totalSmrBlocksCnt) :
    d.initTables.contents l = none := by
  obtain ⟨table, bands, bufs, -, -, -, heq⟩ := initTables_eq d
  have hflag : (d.initTables.smr.mappingTable l).mappingFlag = .invalidMapping := by
    rw [heq]
    simp only [if_pos hl]
  exact contents_of_unmapped (by rw [hflag]; decide) (by rw [hflag]; decide)

/-- **The initialisation establishes the invariant**, if `cur_paddr` is 0. -/
theorem devInv_initTables {d : SmrDev} (hcur : d.smr.curPaddr = 0) (hlog : d.log = []) :
    DevInv d.initTables := by
  obtain ⟨table, bands, bufs, hslot, hband, hbuf, heq⟩ := initTables_eq d
  have hmap : ∀ l < totalSmrBlocksCnt,
      (d.initTables.smr.mappingTable l).mappingFlag = .invalidMapping := fun l hl => by
    rw [heq]
    simp only [if_pos hl]
  have hrev : d.initTables.smr.smrReverseTable = table := by rw [heq]
  have hbands : d.initTables.smr.phyBands = bands := by rw [heq]
  have hqueue : d.initTables.smr.fullyInvalidBands = .create := by rw [heq]
  have hbufs : d.initTables.buf.freeHddBufs = bufs := by rw [heq]
  have hcur' : d.initTables.smr.curPaddr = 0 := by rw [heq, ← hcur]
  have hlog' : d.initTables.log = [] := by rw [heq, ← hlog]
  have hstatus : ∀ b < totalSmrBandsCnt, ∀ i < blocksPerBand,
      (table (b * blocksPerBand + i)).phyStatus = .freePhyBlock :=
    fun b hb i hi => by rw [hslot _ (band_add_lt hb hi)]
  have hfree : ∀ b < totalSmrBandsCnt, slotCount table .freePhyBlock b = blocksPerBand :=
    fun b hb => Nat.count_of_forall (hstatus b hb)
  have hzero : ∀ b < totalSmrBandsCnt, ∀ st : PhyStatus, st ≠ .freePhyBlock →
      slotCount table st b = 0 := fun b hb st hst =>
    slotCount_eq_zero fun i hi => by
      rw [hstatus b hb i hi]
      exact hst.symm
  refine
    { stl :=
        { fwd := fun l hl hf => absurd ((hmap l hl).symm.trans hf) (by decide)
          rev := fun p hp l hr => ?_
          known := fun p hp => Or.inl (by rw [hrev, hslot p hp])
          counts := fun b hb => ?_
          queue := fun b => ?_
          frontier := ⟨totalSmrBlocksCnt, ?_, Nat.le_refl _, ?_, fun p hp => ?_⟩ }
      buf := ⟨fun l hl hf => absurd ((hmap l hl).symm.trans hf) (by decide), fun q hq hq' => ?_⟩
      free := fun q hq => (hbuf q).mp (hbufs ▸ hq)
      log := ⟨by rw [hlog']; trivial, by rw [hcur', hlog']; rfl⟩ }
  · rw [hrev, hslot p hp] at hr
    cases congrArg ReverseMappingEntry.phyStatus hr
  · rw [hbands, hrev, hband b hb, hfree b hb, hzero b hb _ (by decide), hzero b hb _ (by decide)]
    rfl
  · rw [hqueue, hrev]
    refine ⟨fun h => absurd h (SortedVector.not_mem_create b), fun ⟨hb, h⟩ => ?_⟩
    rw [hzero b hb _ (by decide)] at h
    exact absurd h (Nat.ne_of_lt blocksPerBand_pos)
  · rw [hcur']
    exact Nat.zero_le _
  · rw [← bands_mul_blocks]
    exact Nat.mul_mod_left _ _
  · rw [hrev, hslot p hp, hcur']
    exact ⟨fun _ => ⟨Nat.zero_le p, hp⟩, fun _ => rfl⟩
  · rw [hbufs] at hq'
    exact absurd ((hbuf q).mpr hq) hq'

/-! ## A device whose buffer is full -/

/-- Every buffer holds the block with its own number, and the SMR area is empty. -/
def fullDev : SmrDev :=
  { (freshModule fun _ => 0).dev.initTables with
    smr := { (freshModule fun _ => 0).dev.initTables.smr with
      mappingTable := fun l =>
        if l < blocksOfHddBuf then ⟨.inHddBuf, 0, l⟩ else ⟨.invalidMapping, 0, 0⟩ }
    buf := { zeroBufCtr with reverseTable := fun q => ⟨q, 0, 0⟩ } }

theorem fullDev_mappingTable {l : ℕ} (hl : l < blocksOfHddBuf) :
    fullDev.smr.mappingTable l = ⟨.inHddBuf, 0, l⟩ := if_pos hl

theorem fullDev_flag (l : ℕ) : (fullDev.smr.mappingTable l).mappingFlag ≠ .inSmrDisk := by
  rw [fullDev]
  dsimp only
  split_ifs
  · exact fun h => by cases h
  · exact fun h => by cases h

theorem devInv_fullDev : DevInv fullDev := by
  have h := devInv_initTables (d := (freshModule fun _ => 0).dev) rfl rfl
  refine
    { stl :=
        { fwd := fun l _ hf => absurd hf (fullDev_flag l)
          rev := fun p hp l hr => ?_
          known := h.stl.known
          counts := h.stl.counts
          queue := h.stl.queue
          frontier := h.stl.frontier }
      buf := ⟨fun l _ hf => ?_, fun q hq _ => ?_⟩
      free := fun q hq => absurd hq (SortedVector.not_mem_create q)
      log := h.log.congr rfl rfl }
  · obtain ⟨hl, hf, -⟩ := h.stl.rev p hp l hr
    exact absurd hf (contents_eq_none_iff.mp (contents_initTables _ hl)).2
  · have hl : l < blocksOfHddBuf := by
      by_contra hge
      have he : fullDev.smr.mappingTable l = ⟨.invalidMapping, 0, 0⟩ := if_neg hge
      rw [he] at hf
      cases hf
    rw [fullDev_mappingTable hl]
    exact ⟨hl, SortedVector.not_mem_create l, rfl⟩
  · have hblk : (fullDev.buf.reverseTable q).blkNo = q := rfl
    rw [hblk, fullDev_mappingTable hq]
    refine ⟨?_, rfl, rfl⟩
    rw [blocksOfHddBuf_eq] at hq
    rw [totalSmrBlocksCnt_eq]
    omega

end SmrDev

end MemSmr
