import MemSmr.Collect

/-!
# Appending to the SMR area and invalidating in it

* `Touches d d' l`: a step that concerns block `l` alone, as far as anybody can see.
* `checkFrontier_spec`: the slot that `get_free_smr_block` is about to hand out is free.
* `StlInv.placeBlock`, `StlInv.invalidate`: the two changes of a slot keep the invariant.
* `appendSmrBlocks_spec`: the append of one block that is not in the SMR area.

The only fault here is `PastEndFault`: the frontier is at the end of the device and the memory
behind the reverse table reads as a free slot.
-/

namespace MemSmr

/-- The fault of a run in which the memory behind the reverse table reads as a free slot. -/
def PastEndFault (env : Env) (e : Fault) : Prop :=
  e = .pastDevice totalSmrBlocksCnt ∧ ∃ s, env.pastEnd s = .freePhyBlock

theorem not_pastEndFault {env : Env} (h : env.PastEndNotFree) (e : Fault) : ¬ PastEndFault env e :=
  fun ⟨_, s, hs⟩ => h s hs

namespace SmrDev

/-- A step after which the other blocks are where they were, or have moved out of sight. -/
structure Touches (d d' : SmrDev) (l : ℕ) : Prop where
  flag : ∀ l', l' ≠ l →
    (d'.smr.mappingTable l').mappingFlag = (d.smr.mappingTable l').mappingFlag
  metaFlag : ∀ l', (d'.smr.mappingTable l').metaFlag = (d.smr.mappingTable l').metaFlag
  paddr : ∀ l' < totalSmrBlocksCnt, l' ≠ l →
    (d.smr.mappingTable l').mappingFlag ≠ .inSmrDisk →
    (d'.smr.mappingTable l').paddr = (d.smr.mappingTable l').paddr
  contents : ∀ l' < totalSmrBlocksCnt, l' ≠ l → d'.contents l' = d.contents l'

theorem Moves.trans_touches {d d' d'' : SmrDev} {l : ℕ} (h : Moves d d') (h' : Touches d' d'' l) :
    Touches d d'' l where
  flag l' hl := (h'.flag l' hl).trans (h.flag l')
  metaFlag l' := (h'.metaFlag l').trans (h.metaFlag l')
  paddr l' hl hne hf := (h'.paddr l' hl hne (by rwa [h.flag l'])).trans (h.paddr l' hl hf)
  contents l' hl hne := (h'.contents l' hl hne).trans (h.contents l' hl)

/-- A step that changes the entry of `l` in the mapping table and nothing that the other blocks
show. -/
theorem Touches.of_update {d d' : SmrDev} {l : ℕ} {e : MappingEntry}
    (hmap : d'.smr.mappingTable = Function.update d.smr.mappingTable l e)
    (hmeta : e.metaFlag = (d.smr.mappingTable l).metaFlag)
    (hbuf : ∀ l' < totalSmrBlocksCnt, l' ≠ l → (d.smr.mappingTable l').mappingFlag = .inHddBuf →
      d'.buf.hddBuf (d.smr.mappingTable l').paddr = d.buf.hddBuf (d.smr.mappingTable l').paddr)
    (hdata : ∀ l' < totalSmrBlocksCnt, l' ≠ l → (d.smr.mappingTable l').mappingFlag = .inSmrDisk →
      d'.data (d.smr.mappingTable l').paddr = d.data (d.smr.mappingTable l').paddr) :
    Touches d d' l where
  flag l' hne := by rw [hmap, Function.update_of_ne hne]
  metaFlag l' := by
    by_cases hne : l' = l
    · rw [hne, hmap, Function.update_self, hmeta]
    · rw [hmap, Function.update_of_ne hne]
  paddr l' _ hne _ := by rw [hmap, Function.update_of_ne hne]
  contents l' hl hne := by
    have heq : d'.smr.mappingTable l' = d.smr.mappingTable l' := by
      rw [hmap, Function.update_of_ne hne]
    refine contents_congr (by rw [heq]) (fun hf => ?_) fun hf => ?_
    · rw [heq]
      exact hbuf l' hl hne hf
    · rw [heq]
      exact hdata l' hl hne hf

/-! ## The frontier check -/

/-- The slot at the frontier after the check. -/
theorem checkFrontier_spec (env : Env) {d : SmrDev} {l : ℕ} (hs : StlInv d.smr d.smr.curPaddr)
    (hlog : LogInv d) (hl : l < totalSmrBlocksCnt)
    (hflag : (d.smr.mappingTable l).mappingFlag ≠ .inSmrDisk) :
    StlInv (d.checkFrontier env).smr (d.checkFrontier env).smr.curPaddr ∧
      Moves d (d.checkFrontier env) ∧ LogOk (d.checkFrontier env).log ∧
      ((d.checkFrontier env).smr.curPaddr < totalSmrBlocksCnt ∧
          ((d.checkFrontier env).smr.smrReverseTable
            (d.checkFrontier env).smr.curPaddr).phyStatus = .freePhyBlock ∨
        (d.checkFrontier env).smr.curPaddr = totalSmrBlocksCnt ∧
          ∃ s, env.pastEnd s = .freePhyBlock) := by
  rw [checkFrontier]
  split_ifs with hmod
  · have hok : LogOk (d.emit (.frontierCheck d.smr.curPaddr)).log :=
      ⟨⟨hlog.cur, hs.lo_le⟩, hlog.ok⟩
    have hmoves := Moves.emit d (.frontierCheck d.smr.curPaddr)
    simp only
    split_ifs with hst
    · -- The slot is not free, or the check reads past the table: no slot is free.
      have hfull := hs.none_free fun hlt => by
        have hlt' : (d.emit (.frontierCheck d.smr.curPaddr)).smr.curPaddr < totalSmrBlocksCnt := hlt
        rwa [phyStatusAt, if_pos hlt'] at hst
      obtain ⟨p, hp, hinv⟩ := hs.exists_invalid hl hflag hfull
      obtain ⟨h1, h2, h3, h4, h5⟩ := garbageCollecting_spec
        (d := d.emit (.frontierCheck d.smr.curPaddr)) hs hfull hp hinv
      refine ⟨h1, hmoves.trans h2, ?_, Or.inl ⟨h3, h4⟩⟩
      rw [h5]
      exact ⟨⟨h3, h4⟩, hok⟩
    · refine ⟨hs, hmoves, hok, ?_⟩
      rw [ne_eq, not_not, phyStatusAt] at hst
      split_ifs at hst with hlt
      · exact Or.inl ⟨hlt, hst⟩
      · exact Or.inr ⟨Nat.le_antisymm hs.lo_le (Nat.not_lt.mp hlt), _, hst⟩
  · exact ⟨hs, Moves.refl d, hlog.ok, Or.inl (hs.free_lo hmod)⟩

/-! ## Filling a slot -/

/-- The invariant after `placeBlock` has filled the slot at the frontier. -/
theorem stlInv_placeBlock {d : SmrDev} {blk : Block} {l p : ℕ} (hs : StlInv d.smr p)
    (hp : p < totalSmrBlocksCnt) (hfree : (d.smr.smrReverseTable p).phyStatus = .freePhyBlock)
    (hl : l < totalSmrBlocksCnt) (hflag : (d.smr.mappingTable l).mappingFlag ≠ .inSmrDisk) :
    StlInv (d.placeBlock blk l p).smr (p + 1) := by
  have hvalid : (d.smr.smrReverseTable p).phyStatus ≠ .validPhyBlock := by
    rw [hfree]
    decide
  have hnew : (ReverseMappingEntry.mk l .validPhyBlock).phyStatus ≠ .freePhyBlock := fun h => by cases h
  have hinvalid : (d.smr.smrReverseTable p).phyStatus = .invalidPhyBlock ↔
      (ReverseMappingEntry.mk l .validPhyBlock).phyStatus = .invalidPhyBlock := by
    rw [hfree]
    exact iff_of_false (fun h => by cases h) fun h => by cases h
  constructor
  all_goals
    simp only [placeBlock, writeHddBlocks, setPhyBand, setupSmrReverseMapping,
      setupGlobalMappingEntry]
  case fwd =>
    intro l' hl' hf
    by_cases hne : l' = l
    · subst hne
      rw [Function.update_self, Function.update_self]
      exact ⟨hp, rfl⟩
    · rw [Function.update_of_ne hne] at hf ⊢
      obtain ⟨h1, h2⟩ := hs.fwd l' hl' hf
      refine ⟨h1, ?_⟩
      rw [Function.update_of_ne, h2]
      rintro heq
      rw [← heq, h2] at hfree
      cases hfree
  case rev =>
    intro p' hp' l' hr
    by_cases hne : p' = p
    · subst hne
      rw [Function.update_self] at hr
      obtain rfl : l = l' := congrArg ReverseMappingEntry.blkNo hr
      rw [Function.update_self]
      exact ⟨hl, rfl, rfl⟩
    · rw [Function.update_of_ne hne] at hr
      obtain ⟨h1, h2, h3⟩ := hs.rev p' hp' l' hr
      have hne' : l' ≠ l := fun heq => hflag (heq ▸ h2)
      rw [Function.update_of_ne hne']
      exact ⟨h1, h2, h3⟩
  case known =>
    intro p' hp'
    by_cases hne : p' = p
    · rw [hne, Function.update_self]
      exact Or.inr (Or.inl rfl)
    · rw [Function.update_of_ne hne]
      exact hs.known p' hp'
  case counts =>
    intro b hb
    by_cases hne : b = p / blocksPerBand
    · rw [hne, Function.update_self, hs.counts _ (band_lt hp), slotCount_update_gain hvalid rfl,
        slotCount_update_loss hfree hnew, slotCount_update_same hinvalid]
      refine congrArg₂ (BandInfo.mk _) ?_ ?_
      · dsimp only
        omega
      · dsimp only
        omega
    · rw [Function.update_of_ne hne, hs.counts b hb, slotCount_update_of_ne hne,
        slotCount_update_of_ne hne, slotCount_update_of_ne hne]
  case queue =>
    intro b
    rw [hs.queue, slotCount_update_same hinvalid]
  case frontier =>
    obtain ⟨hi, -, h2, h3, h4⟩ := hs.frontier
    refine ⟨hi, ((h4 p hp).mp hfree).2, h2, h3, fun q hq => ?_⟩
    by_cases hne : q = p
    · rw [hne, Function.update_self]
      exact ⟨fun h => absurd h hnew, fun h => absurd h.1 (Nat.not_succ_le_self p)⟩
    · rw [Function.update_of_ne hne, h4 q hq]
      omega

/-- What `placeBlock` shows. -/
theorem touches_placeBlock {d : SmrDev} {p : ℕ} (blk : Block) (l : ℕ) (hs : StlInv d.smr p)
    (hfree : (d.smr.smrReverseTable p).phyStatus = .freePhyBlock) :
    Touches d (d.placeBlock blk l p) l ∧ (d.placeBlock blk l p).contents l = some blk := by
  have hmap : (d.placeBlock blk l p).smr.mappingTable = Function.update d.smr.mappingTable l
      ⟨.inSmrDisk, (d.smr.mappingTable l).metaFlag, p⟩ := by
    simp only [placeBlock, writeHddBlocks, setPhyBand, setupSmrReverseMapping,
      setupGlobalMappingEntry]
  have hdata : ∀ q, (d.placeBlock blk l p).data q = if q = p then blk else d.data q := fun q => by
    simp only [placeBlock, writeHddBlocks, setPhyBand, setupSmrReverseMapping,
      setupGlobalMappingEntry]
    exact if_congr (by omega) rfl rfl
  refine ⟨Touches.of_update hmap rfl (fun _ _ _ _ => rfl) fun l' hl' hne hf => ?_, ?_⟩
  · rw [hdata, if_neg]
    intro heq
    rw [← heq, (hs.fwd l' hl' hf).2] at hfree
    cases hfree
  · rw [contents_of_inSmrDisk (by rw [hmap, Function.update_self]), hdata, hmap,
      Function.update_self, if_pos rfl]

/-! ## The append -/

/-- What the append of one block to the SMR area does. -/
structure Appended (d d' : SmrDev) (l : ℕ) (blk : Block) : Prop extends Touches d d' l where
  here : (d'.smr.mappingTable l).mappingFlag = .inSmrDisk
  stored : d'.contents l = some blk
  buf : d'.buf = d.buf

theorem appendSmrBlocks_one (env : Env) (d : SmrDev) (buf : ℕ → Block) (l : ℕ) :
    d.appendSmrBlocks env buf l 1 =
      if (d.checkFrontier env).smr.curPaddr < totalSmrBlocksCnt then
        .ok ((d.getFreeSmrBlock env).2.placeBlock (buf 0) l (d.checkFrontier env).smr.curPaddr)
      else .error (.pastDevice (d.checkFrontier env).smr.curPaddr) := by
  rw [appendSmrBlocks, List.range_one, List.foldlM_cons]
  simp only [List.foldlM_nil, bind_pure, Nat.zero_add]
  rfl

/-- **An append finds room.**  Appending a block that is not in the SMR area fills a free slot and
keeps the invariants; it fails only if the memory behind the reverse table reads as a free slot. -/
theorem appendSmrBlocks_spec (env : Env) {d : SmrDev} {l : ℕ} (buf : ℕ → Block)
    (hs : StlInv d.smr d.smr.curPaddr) (hlog : LogInv d) (hl : l < totalSmrBlocksCnt)
    (hflag : (d.smr.mappingTable l).mappingFlag ≠ .inSmrDisk) :
    Outcome.Meets (PastEndFault env)
      (fun d' => StlInv d'.smr d'.smr.curPaddr ∧ LogInv d' ∧ Appended d d' l (buf 0))
      (d.appendSmrBlocks env buf l 1) := by
  obtain ⟨h1, h2, h3, h4⟩ := checkFrontier_spec env hs hlog hl hflag
  rw [appendSmrBlocks_one, getFreeSmrBlock]
  generalize d.checkFrontier env = d₁ at *
  rcases h4 with ⟨hlt, hfree⟩ | ⟨heq, hpast⟩
  · have hflag₁ : (d₁.smr.mappingTable l).mappingFlag ≠ .inSmrDisk := by rwa [h2.flag l]
    rw [if_pos hlt]
    -- The slot is handed out before it is filled.
    have hfront : StlInv ((d₁.emit (.handed d₁.smr.curPaddr d₁.smr.smrReverseTable)).setCurPaddr
        (d₁.smr.curPaddr + 1)).smr d₁.smr.curPaddr := h1.congr rfl rfl rfl rfl
    have hmoves : Moves d₁ ((d₁.emit (.handed d₁.smr.curPaddr d₁.smr.smrReverseTable)).setCurPaddr
        (d₁.smr.curPaddr + 1)) :=
      ⟨⟨fun _ => rfl, fun _ => rfl, fun _ _ _ => rfl⟩, rfl, fun _ _ => rfl⟩
    obtain ⟨ht, hstored⟩ := touches_placeBlock (buf 0) l hfront hfree
    refine ⟨stlInv_placeBlock hfront hlt hfree hl hflag₁, ⟨⟨⟨hlt, hfree, ?_, ?_⟩, h3⟩, rfl⟩,
      (h2.trans hmoves).trans_touches ht, ?_, hstored, h2.buf⟩
    · exact fun q hq hlt' => h1.free_above hfree hlt hlt' hq
    · exact fun q _ hlt' => h1.notFree_below hlt hlt'
    · simp only [placeBlock, writeHddBlocks, setPhyBand, setupSmrReverseMapping,
        setupGlobalMappingEntry, Function.update_self]
  · rw [if_neg (Nat.not_lt.mpr heq.ge), heq]
    exact ⟨rfl, hpast⟩

/-- The slot that an append has used is the one handed out last. -/
theorem appendSmrBlocks_handed {env : Env} {d d' : SmrDev} {buf : ℕ → Block} {l : ℕ}
    (h : d.appendSmrBlocks env buf l 1 = .ok d') :
    ∃ table past, d'.log = .handed (d'.smr.mappingTable l).paddr table :: past := by
  rw [appendSmrBlocks_one] at h
  split_ifs at h
  obtain rfl := Except.ok.inj h
  refine ⟨(d.checkFrontier env).smr.smrReverseTable, (d.checkFrontier env).log, ?_⟩
  simp only [placeBlock, writeHddBlocks, setPhyBand, setupSmrReverseMapping,
    setupGlobalMappingEntry, Function.update_self]
  rfl

/-! ## Invalidating a block -/

/-- What `invalidate_mapping_entry` and `reclaim_free_hdd_buf` do to the contents. -/
structure Forgets (d d' : SmrDev) (l : ℕ) : Prop extends Touches d d' l where
  here : (d'.smr.mappingTable l).mappingFlag = .invalidMapping

theorem Forgets.contents_self {d d' : SmrDev} {l : ℕ} (h : Forgets d d' l) :
    d'.contents l = none :=
  contents_of_unmapped (by rw [h.here]; decide) (by rw [h.here]; decide)

/-- `invalidate_mapping_entry` as one chain of assignments. -/
theorem invalidateMappingEntry_eq {d : SmrDev} {l : ℕ}
    (hf : (d.smr.mappingTable l).mappingFlag = .inSmrDisk) :
    d.invalidateMappingEntry l =
      (((d.setPhyBand ((d.smr.mappingTable l).paddr / blocksPerBand)
        { d.smr.phyBands ((d.smr.mappingTable l).paddr / blocksPerBand) with
          invalidCnt :=
            (d.smr.phyBands ((d.smr.mappingTable l).paddr / blocksPerBand)).invalidCnt + 1
          validCnt :=
            (d.smr.phyBands ((d.smr.mappingTable l).paddr / blocksPerBand)).validCnt - 1
        }).setupSmrReverseMapping
          (d.smr.mappingTable l).paddr 0 .invalidPhyBlock).setupGlobalMappingEntry
          l 0 .invalidMapping).setFullyInvalidBands
        (if (d.smr.phyBands ((d.smr.mappingTable l).paddr / blocksPerBand)).invalidCnt + 1 =
            blocksPerBand then
          d.smr.fullyInvalidBands.insert ((d.smr.mappingTable l).paddr / blocksPerBand)
        else d.smr.fullyInvalidBands) := by
  rw [invalidateMappingEntry, if_pos (inSmrDisk_iff.mpr hf)]
  simp only [setupGlobalMappingEntry, setupSmrReverseMapping, setPhyBand, setFullyInvalidBands,
    Function.update_self]
  split_ifs
  · rfl
  · rfl

/-- The invariant after a block of the SMR area has been invalidated. -/
theorem stlInv_invalidate {d : SmrDev} {lo l : ℕ} (hs : StlInv d.smr lo)
    (hl : l < totalSmrBlocksCnt) (hf : (d.smr.mappingTable l).mappingFlag = .inSmrDisk) :
    StlInv (d.invalidateMappingEntry l).smr lo := by
  obtain ⟨hp, hrev⟩ := hs.fwd l hl hf
  rw [invalidateMappingEntry_eq hf]
  generalize (d.smr.mappingTable l).paddr = p at hp hrev ⊢
  have hvalid : (d.smr.smrReverseTable p).phyStatus = .validPhyBlock := by rw [hrev]
  have hinvalid : (d.smr.smrReverseTable p).phyStatus ≠ .invalidPhyBlock := by
    rw [hvalid]
    decide
  have hnew : (ReverseMappingEntry.mk 0 .invalidPhyBlock).phyStatus ≠ .validPhyBlock :=
    fun h => by cases h
  have hfree : (d.smr.smrReverseTable p).phyStatus = .freePhyBlock ↔
      (ReverseMappingEntry.mk 0 .invalidPhyBlock).phyStatus = .freePhyBlock := by
    rw [hvalid]
    exact iff_of_false (fun h => by cases h) fun h => by cases h
  have hgain := slotCount_update_gain hinvalid
    (rfl : (ReverseMappingEntry.mk 0 .invalidPhyBlock).phyStatus = .invalidPhyBlock)
  constructor
  all_goals
    simp only [setupGlobalMappingEntry, setupSmrReverseMapping, setPhyBand, setFullyInvalidBands]
  case fwd =>
    intro l' hl' hf'
    by_cases hne : l' = l
    · rw [hne, Function.update_self] at hf'
      cases hf'
    · rw [Function.update_of_ne hne] at hf' ⊢
      obtain ⟨h1, h2⟩ := hs.fwd l' hl' hf'
      refine ⟨h1, ?_⟩
      rw [Function.update_of_ne, h2]
      rintro heq
      rw [heq, hrev] at h2
      exact hne (congrArg ReverseMappingEntry.blkNo h2).symm
  case rev =>
    intro p' hp' l' hr
    by_cases hne : p' = p
    · rw [hne, Function.update_self] at hr
      cases congrArg ReverseMappingEntry.phyStatus hr
    · rw [Function.update_of_ne hne] at hr
      obtain ⟨h1, h2, h3⟩ := hs.rev p' hp' l' hr
      have hne' : l' ≠ l := by
        rintro rfl
        exact hne (h3.symm.trans (hs.rev p hp l' hrev).2.2)
      rw [Function.update_of_ne hne']
      exact ⟨h1, h2, h3⟩
  case known =>
    intro p' hp'
    by_cases hne : p' = p
    · rw [hne, Function.update_self]
      exact Or.inr (Or.inr rfl)
    · rw [Function.update_of_ne hne]
      exact hs.known p' hp'
  case counts =>
    intro b hb
    by_cases hne : b = p / blocksPerBand
    · rw [hne, Function.update_self, hs.counts _ (band_lt hp), hgain,
        slotCount_update_loss hvalid hnew, slotCount_update_same hfree]
      refine congrArg₂ (fun i v => BandInfo.mk i _ v) ?_ ?_
      · dsimp only
        omega
      · dsimp only
        omega
    · rw [Function.update_of_ne hne, hs.counts b hb, slotCount_update_of_ne hne,
        slotCount_update_of_ne hne, slotCount_update_of_ne hne]
  case queue =>
    intro b
    rw [hs.invalidCnt_eq (band_lt hp)]
    by_cases hne : b = p / blocksPerBand
    · rw [hne, hgain]
      split_ifs with hfull
      · rw [SortedVector.mem_insert]
        exact ⟨fun _ => ⟨band_lt hp, by omega⟩, fun _ => Or.inl rfl⟩
      · rw [hs.queue]
        refine ⟨fun h => absurd h.2 ?_, fun h => absurd h.2 (by omega)⟩
        have := forall_status_of_slotCount_eq h.2 (slot_lt p)
        rw [band_add_slot] at this
        exact absurd this hinvalid
    · rw [slotCount_update_of_ne hne, ← hs.queue]
      split_ifs
      · rw [SortedVector.mem_insert]
        exact ⟨fun h => h.resolve_left hne, Or.inr⟩
      · rfl
  case frontier =>
    obtain ⟨hi, h1, h2, h3, h4⟩ := hs.frontier
    refine ⟨hi, h1, h2, h3, fun q hq => ?_⟩
    by_cases hne : q = p
    · rw [hne, Function.update_self, ← h4 p hp]
      exact hfree.symm
    · rw [Function.update_of_ne hne, h4 q hq]

theorem forgets_invalidate {d : SmrDev} {l : ℕ}
    (hf : (d.smr.mappingTable l).mappingFlag = .inSmrDisk) :
    Forgets d (d.invalidateMappingEntry l) l := by
  have hmap : (d.invalidateMappingEntry l).smr.mappingTable = Function.update d.smr.mappingTable l
      ⟨.invalidMapping, (d.smr.mappingTable l).metaFlag, 0⟩ := by
    rw [invalidateMappingEntry_eq hf]
    simp only [setupGlobalMappingEntry, setupSmrReverseMapping, setPhyBand, setFullyInvalidBands]
  refine ⟨Touches.of_update hmap rfl (fun l' _ _ _ => ?_) fun l' _ _ _ => ?_, ?_⟩
  · rw [invalidateMappingEntry_eq hf]
    rfl
  · rw [invalidateMappingEntry_eq hf]
    rfl
  · rw [hmap, Function.update_self]

theorem invalidate_buf {d : SmrDev} {l : ℕ}
    (hf : (d.smr.mappingTable l).mappingFlag = .inSmrDisk) :
    (d.invalidateMappingEntry l).buf = d.buf := by
  rw [invalidateMappingEntry_eq hf]
  rfl

theorem invalidate_curPaddr {d : SmrDev} {l : ℕ}
    (hf : (d.smr.mappingTable l).mappingFlag = .inSmrDisk) :
    (d.invalidateMappingEntry l).smr.curPaddr = d.smr.curPaddr := by
  rw [invalidateMappingEntry_eq hf]
  rfl

theorem invalidate_log {d : SmrDev} {l : ℕ}
    (hf : (d.smr.mappingTable l).mappingFlag = .inSmrDisk) :
    (d.invalidateMappingEntry l).log = d.log := by
  rw [invalidateMappingEntry_eq hf]
  rfl

end SmrDev

end MemSmr
