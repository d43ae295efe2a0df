import MemSmr.Runs

/-!
# A plain array of blocks with meta flags

The meta flags of `mapping_table` are not part of the plain array, because nobody reads them but
the buffer.  Here they are added to it, so that what the detector marks can be followed.

* `flagLayer`: a plain array of blocks and a meta flag for each of them.
* `smrLayer_flag_sim`: the module shows it.
* `CtrStep`: what a stage of the detector may change in `meta_ctr`.
* `Marked`: what a stage of the detector does to the meta flags.
-/

namespace MemSmr

open Outcome Ext2MetaCtr

/-- The contents and the meta flag of every block. -/
structure FlagDisk where
  blocks : ArrayDisk
  flags : ℕ → ℕ

/-- The plain array with meta flags as a layer. -/
def flagLayer : BlockLayer FlagDisk where
  hasMapping d l := (d.blocks l).isSome
  readSmrBlocks d buf blkNo num := (d.blocks.readOver buf blkNo num, d)
  setupMetaFlag d l flag := { d with flags := Function.update d.flags l flag }
  trimBlock d l := { d with blocks := Function.update d.blocks l none }
  storeBlock d l blk := .ok { d with blocks := Function.update d.blocks l (some blk) }

/-- The device shows the contents and has the meta flags. -/
structure ShowsFlags (d : SmrDev) (a : FlagDisk) : Prop extends Shows d a.blocks where
  flags : ∀ l, (d.smr.mappingTable l).metaFlag = a.flags l

/-- **The translation layer simulates the array with meta flags**: it never changes a meta flag of
its own accord. -/
theorem smrLayer_flag_sim (env : Env) :
    LayerSim (smrLayer env) flagLayer (PastEndFault env) ShowsFlags where
  hasMapping h hl := (smrLayer_sim env).hasMapping h.toShows hl
  read {d a} buf {l n} h hln := by
    obtain ⟨h1, h2⟩ := (smrLayer_sim env).read buf h.toShows hln
    obtain ⟨-, hview, -⟩ := SmrDev.readSmrBlocks_spec env buf h.inv hln
    exact ⟨h1, h2, fun l' => (hview.metaFlag l').trans (h.flags l')⟩
  setupMetaFlag {d a} l flag h := by
    refine ⟨(smrLayer_sim env).setupMetaFlag l flag h.toShows, fun l' => ?_⟩
    change (Function.update d.smr.mappingTable l _ l').metaFlag = Function.update a.flags l flag l'
    by_cases hne : l' = l
    · rw [hne, Function.update_self, Function.update_self]
    · rw [Function.update_of_ne hne, Function.update_of_ne hne, h.flags]
  trim {d a l} h hl := by
    refine ⟨(smrLayer_sim env).trim h.toShows hl, fun l' => ?_⟩
    exact ((SmrDev.trimBlock_spec h.inv hl).2.1 l').trans (h.flags l')
  store {d a l} blk h hl := by
    have hsim := (smrLayer_sim env).store blk h.toShows hl
    have hstore := SmrDev.storeBlock_spec env blk h.inv hl
    change Refines _ ShowsFlags (d.storeBlock env l blk)
      (.ok { a with blocks := Function.update a.blocks l (some blk) })
    change Refines _ Shows (d.storeBlock env l blk) (.ok (Function.update a.blocks l (some blk)))
      at hsim
    cases hres : d.storeBlock env l blk with
    | error e =>
      rw [hres] at hstore
      exact hstore
    | ok d' =>
      rw [hres] at hstore hsim
      exact ⟨hsim, fun l' => (hstore.metaFlag l').trans (h.flags l')⟩

/-- The module over the array with meta flags, before the first call. -/
def freshFlags : Ext2Sys FlagDisk :=
  { freshArray with dev := ⟨freshArray.dev, fun _ => 0⟩ }

theorem showsFlags_init (data : ℕ → Block) :
    SysRel ShowsFlags (initSmrDisk (freshModule data)) freshFlags := by
  have h := shows_init data
  refine ⟨⟨h.dev, fun l => ?_⟩, h.metaCtr, h.sbsBuf, h.bgDescsBuf, h.blkBmp⟩
  obtain ⟨table, bands, bufs, -, -, -, heq⟩ := SmrDev.initTables_eq (freshModule data).dev
  change ((freshModule data).dev.initTables.smr.mappingTable l).metaFlag = 0
  rw [heq]
  dsimp only
  split_ifs
  · rfl
  · rfl

/-- **Every run of the module is a run over the array with meta flags.** -/
theorem runModule_flags (env : Env) (data : ℕ → Block) (ops : List HostOp) :
    Refines (PastEndFault env) (fun x y => x.1 = y.1 ∧ SysRel ShowsFlags x.2 y.2)
      (runModule env data ops) (runOps flagLayer env.aware freshFlags ops) :=
  (smrLayer_flag_sim env).runOps_refines env.aware (showsFlags_init data) ops

/-! ## What a stage changes in the control struct -/

/-- The status and the vectors have changed at most. -/
def CtrStep (m m' : Ext2MetaCtr) : Prop :=
  m' = { m with status := m'.status, metaBlks := m'.metaBlks }

theorem CtrStep.refl (m : Ext2MetaCtr) : CtrStep m m := rfl

theorem CtrStep.trans {m m' m'' : Ext2MetaCtr} (h : CtrStep m m') (h' : CtrStep m' m'') :
    CtrStep m m'' := by
  rw [CtrStep] at *
  rw [h', h]

theorem CtrStep.of_onlyVects {m m' : Ext2MetaCtr} (h : OnlyVects m m') : CtrStep m m' := by
  rw [CtrStep, h]

theorem CtrStep.sb0 {m m' : Ext2MetaCtr} (h : CtrStep m m') : m'.sb0 = m.sb0 := by rw [h]

theorem CtrStep.metaRwCnt {m m' : Ext2MetaCtr} (h : CtrStep m m') :
    m'.metaRwCnt = m.metaRwCnt := by rw [h]

/-! ## What a stage does to the meta flags -/

/-- The flag of block `b` after `mark_meta_blks`: that of the last class whose vector contains it,
and its old one if there is none. -/
def markedFlag (m : Ext2MetaCtr) (action : MarkAction) (b old : ℕ) : ℕ :=
  idx2Flag.foldl (fun flag entry =>
    if (m.metaBlks entry.1).isExisting b then
      (if action = .cleanMetaFlag then 0 else entry.2) else flag) old

section Pieces

variable (s : Ext2Sys FlagDisk)

/-- The inner loop of `mark_meta_blks`. -/
theorem markList_flags (flag : ℕ) (l : List ℕ) :
    Meets TableFault (fun s' => s' = { s with dev := { s.dev with
        flags := fun b => if b ∈ l then flag else s.dev.flags b } })
      (l.foldlM (fun (s : Ext2Sys FlagDisk) blkNo => do
        checkIndex blkNo
        return { s with dev := flagLayer.setupMetaFlag s.dev blkNo flag }) s) := by
  induction l generalizing s with
  | nil => exact rfl
  | cons x l ih =>
    rw [List.foldlM_cons]
    refine Meets.bind ((checkIndex_spec x).bind fun _ _ => meets_pure.mpr rfl)
      (P := (· = { s with dev := flagLayer.setupMetaFlag s.dev x flag })) ?_
    rintro - rfl
    refine (ih _).mono fun s' hs' => hs'.trans ?_
    have hflags : (fun b => if b ∈ l then flag else Function.update s.dev.flags x flag b) =
        fun b => if b ∈ x :: l then flag else s.dev.flags b := by
      funext b
      by_cases hbx : b = x
      · rw [hbx, Function.update_self, if_pos List.mem_cons_self, ite_self]
      · rw [Function.update_of_ne hbx]
        exact if_congr (by rw [List.mem_cons, or_iff_right hbx]) rfl rfl
    exact congrArg (fun f => { s with dev := { s.dev with flags := f } }) hflags

theorem markMetaBlks_flags (action : MarkAction) :
    Meets TableFault (fun s' => s' = { s with dev := { s.dev with
        flags := fun b => markedFlag s.metaCtr action b (s.dev.flags b) } })
      (s.markMetaBlks flagLayer action) := by
  rw [Ext2Sys.markMetaBlks]
  simp only [markedFlag]
  generalize idx2Flag = entries
  induction entries generalizing s with
  | nil => exact rfl
  | cons entry entries ih =>
    rw [List.foldlM_cons]
    refine (markList_flags s _ _).bind ?_
    rintro - rfl
    refine (ih _).mono fun s' hs' => hs'.trans ?_
    refine congrArg (fun f => { s with dev := { s.dev with flags := f } }) (funext fun b => ?_)
    rw [List.foldl_cons]
    refine congrArg (fun old => entries.foldl _ old) (if_congr ?_ rfl rfl)
    rw [SortedVector.mem_toList, SortedVector.isExisting_iff]

theorem readOne_flags (d : FlagDisk) (buf : Block) (blkNo : ℕ) :
    Meets TableFault (fun r => r.2 = d) (Ext2Sys.readOne flagLayer d buf blkNo) := by
  rw [Ext2Sys.readOne]
  exact (checkIndex_spec blkNo).bind fun _ _ => rfl

theorem markOneBlkBmp_flags (status : MetaStatus) (d : FlagDisk) (bmp : Block) (start : ℕ) :
    Meets TableFault (fun r => r.2.flags = d.flags)
      (Ext2Sys.markOneBlkBmp flagLayer status d bmp start) := by
  by_cases hs : status = .ext2Detected
  · rw [hs]
    exact (markOneBlkBmp_rule flagLayer (I := fun _ d' => d'.flags = d.flags) bmp start rfl
      (fun _ _ _ _ h => h) (fun _ _ _ _ _ h => h) fun _ _ _ _ => ⟨_, rfl⟩).mono fun r hr => hr.2
  · rw [Ext2Sys.markOneBlkBmp, if_neg hs]
    exact meets_pure.mpr rfl

/-- Trimming leaves the control struct and the meta flags alone. -/
theorem markAllFreeBlks_flags :
    Meets TableFault (fun r => r.2.metaCtr = s.metaCtr ∧ r.2.dev.flags = s.dev.flags)
      (s.markAllFreeBlks flagLayer) := by
  refine meets_foldlM (fun r : ℕ × Ext2Sys FlagDisk => r.2.metaCtr = s.metaCtr ∧
    r.2.dev.flags = s.dev.flags) ⟨rfl, rfl⟩ fun pos _ st hst => ?_
  rw [Ext2Sys.markGroup]
  refine (readOne_flags _ _ _).bind ?_
  rintro ⟨bmp, dev⟩ hdev
  refine (markOneBlkBmp_flags _ _ _ _).bind fun r hr => meets_pure.mpr ⟨hst.1, ?_⟩
  exact hr.trans ((congrArg FlagDisk.flags hdev).trans hst.2)

theorem checkSuperBlks_flags (l : List ℕ) :
    Meets TableFault (fun r => r.2.metaCtr = s.metaCtr ∧ r.2.dev.flags = s.dev.flags)
      (s.checkSuperBlks flagLayer l) := by
  induction l generalizing s with
  | nil => exact ⟨rfl, rfl⟩
  | cons blkNo l ih =>
    rw [Ext2Sys.checkSuperBlks]
    refine (readOne_flags _ _ _).bind ?_
    rintro ⟨buf, dev⟩ hdev
    dsimp only at hdev ⊢
    subst hdev
    split_ifs
    · exact ih _
    · exact ⟨rfl, rfl⟩

end Pieces

/-- A stage has ended: the meta flags are set if the detection has gone through, and left alone
if not. -/
structure Marked (s s' : Ext2Sys FlagDisk) : Prop where
  ctr : CtrStep s.metaCtr s'.metaCtr
  set : s'.metaCtr.status = .ext2Detected →
    ∀ b, s'.dev.flags b = markedFlag s'.metaCtr .setMetaFlag b (s.dev.flags b)
  keep : s'.metaCtr.status ≠ .ext2Detected → s'.dev.flags = s.dev.flags

namespace Marked

variable {s s' : Ext2Sys FlagDisk}

/-- A stage that waits. -/
theorem refl (h : s.metaCtr.status ≠ .ext2Detected) : Marked s s :=
  ⟨.refl _, fun h' => absurd h' h, fun _ => rfl⟩

/-- A stage that has changed the control struct and goes on. -/
theorem of_ctr {s₁ : Ext2Sys FlagDisk} (h : Marked s₁ s') (hctr : CtrStep s.metaCtr s₁.metaCtr)
    (hflags : s₁.dev.flags = s.dev.flags) : Marked s s' :=
  ⟨hctr.trans h.ctr, fun hs b => by rw [h.set hs, hflags], fun hs => (h.keep hs).trans hflags⟩

end Marked

section Stages

variable {s : Ext2Sys FlagDisk}

/-- A stage that looks at `TMP_IDX` first, and does nothing if a block of it is missing. -/
theorem Marked.stage {f : Except Fault (Ext2Sys FlagDisk)} (hs : s.metaCtr.status ≠ .ext2Detected)
    (hf : Meets (fun _ => True) (Marked s) f) (l : List ℕ) :
    Meets (fun _ => True) (Marked s) (do
      if ← s.allElementsMapped flagLayer l then f else return s) := by
  refine Meets.bind (P := fun _ => True) ?_ fun c _ => ?_
  · cases s.allElementsMapped flagLayer l with
    | ok c => exact trivial
    | error e => exact trivial
  · split_ifs
    · exact hf
    · exact meets_pure.mpr (.refl hs)

theorem detectInoTableIfInoBmp_marked (hs : s.metaCtr.status ≠ .ext2Detected) :
    Meets (fun _ => True) (Marked s) (s.detectInoTableIfInoBmp flagLayer) := by
  refine Marked.stage hs (((markMetaBlks_flags _ _).weaken fun _ _ => trivial).bind ?_) _
  rintro - rfl
  refine ((markAllFreeBlks_flags _).weaken fun _ _ => trivial).bind fun r hr =>
    meets_pure.mpr ⟨?_, fun _ b => ?_, fun h => ?_⟩
  · rw [hr.1]
    rfl
  · rw [hr.1, hr.2]
  · rw [hr.1] at h
    exact absurd rfl h

theorem detectInoBmpIfBlkBmp_marked (hs : s.metaCtr.status ≠ .ext2Detected) :
    Meets (fun _ => True) (Marked s) (s.detectInoBmpIfBlkBmp flagLayer) :=
  Marked.stage hs (by
    refine (detectInoTableIfInoBmp_marked ?_).mono fun _ h => h.of_ctr rfl rfl
    exact fun h => MetaStatus.noConfusion h) _

theorem detectBlkBmpIfBgDescs_marked (hs : s.metaCtr.status ≠ .ext2Detected) :
    Meets (fun _ => True) (Marked s) (s.detectBlkBmpIfBgDescs flagLayer) :=
  Marked.stage hs (by
    refine (detectInoBmpIfBlkBmp_marked ?_).mono fun _ h => h.of_ctr rfl rfl
    exact fun h => MetaStatus.noConfusion h) _

theorem readBgDescBlk_flags (s : Ext2Sys FlagDisk) (blk : ℕ) :
    Meets (fun _ => True) (fun s' => OnlyVects s.metaCtr s'.metaCtr ∧ s'.dev.flags = s.dev.flags)
      (s.readBgDescBlk flagLayer blk) := by
  rw [Ext2Sys.readBgDescBlk]
  refine ((readOne_flags _ _ _).weaken fun _ _ => trivial).bind ?_
  rintro ⟨buf, dev⟩ hdev
  dsimp only at hdev
  subst hdev
  cases s.metaCtr.getNumberOfBgDescs blk with
  | ok n => exact ⟨(mem_doGroupDescriptors _ _ _).1, rfl⟩
  | error e => exact trivial

theorem detectBgDescsIfSBs_marked (hs : s.metaCtr.status ≠ .ext2Detected) :
    Meets (fun _ => True) (Marked s) (s.detectBgDescsIfSBs flagLayer) := by
  refine Marked.stage hs ?_ _
  refine Meets.bind (meets_foldlM (fun s' : Ext2Sys FlagDisk => OnlyVects s.metaCtr s'.metaCtr ∧
    s'.dev.flags = s.dev.flags) ⟨.refl _, rfl⟩ fun blk _ s' hs' => ?_) fun s' hs' => ?_
  · exact (readBgDescBlk_flags s' blk).mono fun s'' h => ⟨hs'.1.trans h.1, h.2.trans hs'.2⟩
  · refine (detectBlkBmpIfBgDescs_marked ?_).mono fun _ h => h.of_ctr ?_ hs'.2
    · exact fun h => MetaStatus.noConfusion h
    · exact (CtrStep.of_onlyVects hs'.1).trans rfl

theorem detectSBsIfSB0_marked (hs : s.metaCtr.status ≠ .ext2Detected) :
    Meets (fun _ => True) (Marked s) (s.detectSBsIfSB0 flagLayer) := by
  refine Marked.stage hs ?_ _
  refine ((checkSuperBlks_flags s _).weaken fun _ _ => trivial).bind ?_
  rintro ⟨legal, s'⟩ ⟨hctr, hflags⟩
  dsimp only at hctr hflags ⊢
  split_ifs
  · rw [hctr]
    refine (detectBgDescsIfSBs_marked fun h => ?_).mono fun _ h => h.of_ctr ?_ hflags
    · rw [mem_foldl_recordBgDescs.1.status] at h
      cases h
    · have hclear : CtrStep s.metaCtr ((s.metaCtr.clearBlks .tmpIdx).setStatus .sbsDetected) := rfl
      exact hclear.trans (.of_onlyVects mem_foldl_recordBgDescs.1)
  · refine meets_pure.mpr ⟨by rw [hctr]; rfl, fun h => ?_, fun _ => hflags⟩
    cases h

end Stages

end MemSmr
