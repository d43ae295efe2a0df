import MemSmr.Requests
import MemSmr.DetectedLayout

/-!
# The vectors are sets

A vector that has been filled in another order, or that has grown and shrunk before, lies in memory in
another way.  `load_sorted_vector` builds its vectors anew.

## 1.  The relation

`SameSets` compares two control structs with their vectors taken as sets, and `SameSys` two modules over
the same layer.

## 2.  The detector

There is one lemma for each function of `ext2_meta.c`: from two such modules it does the same and leaves
two such modules.

## 3.  Runs

`detector_sees_sets` says so of every run.  What the host reads does not depend on how the vectors lie in
memory.
-/

namespace MemSmr

open Outcome Ext2MetaCtr

/-! ## 1.  The relation -/

/-- The control structs agree in what is read from them, the vectors being sets. -/
structure SameSets (m m' : Ext2MetaCtr) : Prop where
  status : m.status = m'.status
  sb0 : m.sb0 = m'.sb0
  mem : ∀ idx x, x ∈ m.metaBlks idx ↔ x ∈ m'.metaBlks idx

namespace SameSets

variable {m m' m'' : Ext2MetaCtr}

theorem refl (m : Ext2MetaCtr) : SameSets m m := ⟨rfl, rfl, fun _ _ => Iff.rfl⟩

theorem symm (h : SameSets m m') : SameSets m' m :=
  ⟨h.status.symm, h.sb0.symm, fun idx x => (h.mem idx x).symm⟩

theorem trans (h : SameSets m m') (h' : SameSets m' m'') : SameSets m m'' :=
  ⟨h.status.trans h'.status, h.sb0.trans h'.sb0, fun idx x => (h.mem idx x).trans (h'.mem idx x)⟩

theorem toList (h : SameSets m m') (idx : MetaVectIndex) :
    (m.metaBlks idx).toList = (m'.metaBlks idx).toList :=
  SortedVector.toList_eq_of_mem_iff (h.mem idx)

theorem size (h : SameSets m m') (idx : MetaVectIndex) :
    (m.metaBlks idx).size = (m'.metaBlks idx).size := by
  rw [← SortedVector.length_toList, ← SortedVector.length_toList, h.toList]

theorem get (h : SameSets m m') (idx : MetaVectIndex) {pos : ℕ}
    (hpos : pos < (m.metaBlks idx).size) :
    (m.metaBlks idx).get pos = (m'.metaBlks idx).get pos := by
  have hmap : (List.range (m.metaBlks idx).size).map (m.metaBlks idx).get =
      (List.range (m.metaBlks idx).size).map (m'.metaBlks idx).get := by
    have hlist := h.toList idx
    unfold SortedVector.toList at hlist
    rwa [← h.size idx] at hlist
  exact List.map_inj_left.mp hmap pos (List.mem_range.mpr hpos)

theorem isExisting (h : SameSets m m') (idx : MetaVectIndex) (x : ℕ) :
    (m.metaBlks idx).isExisting x = (m'.metaBlks idx).isExisting x := by
  rw [Bool.eq_iff_iff, SortedVector.isExisting_iff, SortedVector.isExisting_iff]
  exact h.mem idx x

/-! Assignments. -/

theorem setStatus (h : SameSets m m') (status : MetaStatus) :
    SameSets (m.setStatus status) (m'.setStatus status) := ⟨rfl, h.sb0, h.mem⟩

theorem setSb0 (h : SameSets m m') (sbp : Ext2SuperBlock) :
    SameSets { m with sb0 := sbp } { m' with sb0 := sbp } := ⟨h.status, rfl, h.mem⟩

theorem setVect (m : Ext2MetaCtr) (idx : MetaVectIndex) {v w : SortedVector}
    (h : ∀ x, x ∈ v ↔ x ∈ w) : SameSets (m.setVect idx v) (m.setVect idx w) := by
  refine ⟨rfl, rfl, fun idx' x => ?_⟩
  simp only [Ext2MetaCtr.setVect]
  by_cases hidx : idx' = idx
  · subst hidx
    rw [Function.update_self, Function.update_self]
    exact h x
  · rw [Function.update_of_ne hidx, Function.update_of_ne hidx]

theorem insertBlk (h : SameSets m m') (idx : MetaVectIndex) (blkNo : ℕ) :
    SameSets (m.insertBlk idx blkNo) (m'.insertBlk idx blkNo) :=
  ⟨h.status, h.sb0, fun idx' x => by rw [mem_insertBlk, mem_insertBlk, h.mem idx' x]⟩

theorem clearBlks (h : SameSets m m') (idx : MetaVectIndex) :
    SameSets (m.clearBlks idx) (m'.clearBlks idx) :=
  ⟨h.status, h.sb0, fun idx' x => by rw [mem_clearBlks, mem_clearBlks, h.mem idx' x]⟩

theorem refillTmp (h : SameSets m m') (idx : MetaVectIndex) :
    SameSets (m.refillTmp idx) (m'.refillTmp idx) :=
  ⟨h.status, h.sb0, fun idx' x => by
    rw [mem_refillTmp, mem_refillTmp]
    exact h.mem _ x⟩

/-! The positions of super blocks and descriptors. -/

theorem insertSuperBlk (h : SameSets m m') (sbp : Ext2SuperBlock) (g : ℕ) :
    SameSets (m.insertSuperBlk sbp g) (m'.insertSuperBlk sbp g) :=
  (h.insertBlk .tmpIdx _).insertBlk .sbIdx _

theorem recordBgDescs (h : SameSets m m') (n sb : ℕ) :
    SameSets (m.recordBgDescs n sb) (m'.recordBgDescs n sb) := by
  unfold Ext2MetaCtr.recordBgDescs
  refine List.foldl_rel h fun i _ m m' hm => ?_
  dsimp only
  split_ifs with h0
  · exact (hm.insertBlk _ _).insertBlk _ _
  · exact hm.insertBlk _ _

theorem doGroupDescriptor (h : SameSets m m') (gdp : Ext2GroupDesc) :
    SameSets (m.doGroupDescriptor gdp) (m'.doGroupDescriptor gdp) := by
  unfold Ext2MetaCtr.doGroupDescriptor
  have hbmp := (h.insertBlk .blkBmpIdx gdp.bgBlockBitmap).insertBlk .inoBmpIdx gdp.bgInodeBitmap
  dsimp only
  rw [hbmp.sb0]
  exact List.foldl_rel hbmp fun i _ m m' hm => hm.insertBlk _ _

theorem precedingSb (h : SameSets m m') (blkNo : ℕ) (fuel offset : ℕ) :
    Ext2MetaCtr.precedingSb (m.metaBlks .sbIdx) blkNo fuel offset =
      Ext2MetaCtr.precedingSb (m'.metaBlks .sbIdx) blkNo fuel offset := by
  induction fuel generalizing offset with
  | zero => rfl
  | succ fuel ih =>
    rw [Ext2MetaCtr.precedingSb, Ext2MetaCtr.precedingSb, h.isExisting, ih]

theorem getNumberOfBgDescs (h : SameSets m m') (blkNo : ℕ) :
    m.getNumberOfBgDescs blkNo = m'.getNumberOfBgDescs blkNo := by
  rw [Ext2MetaCtr.getNumberOfBgDescs, Ext2MetaCtr.getNumberOfBgDescs, h.sb0, h.precedingSb]

end SameSets

/-- The scans for super blocks agree. -/
structure SameScan (st st' : SbScan) : Prop where
  tmp : st.tmp = st'.tmp
  overflow : st.overflow = st'.overflow
  ctr : SameSets st.ctr st'.ctr

theorem SameScan.start {m m' : Ext2MetaCtr} (h : SameSets m m') :
    SameScan ⟨bgNo, false, m⟩ ⟨bgNo, false, m'⟩ := ⟨rfl, rfl, h⟩

theorem SameScan.round {st st' : SbScan} (h : SameScan st st') (sbp : Ext2SuperBlock) (i : Fin 3) :
    SameScan (sbScanRound sbp st i) (sbScanRound sbp st' i) := by
  obtain ⟨tmp, overflow, ctr⟩ := st
  obtain ⟨tmp', overflow', ctr'⟩ := st'
  obtain ⟨rfl, rfl, hctr⟩ := h
  unfold sbScanRound
  dsimp only
  split_ifs with hover hcnt
  · exact ⟨rfl, rfl, hctr⟩
  · exact ⟨rfl, rfl, hctr⟩
  · exact ⟨rfl, rfl, SameSets.insertSuperBlk hctr sbp _⟩

theorem SameScan.loop {allowed : Fault → Prop} {st st' : SbScan} (h : SameScan st st')
    (sbp : Ext2SuperBlock) (fuel : ℕ) :
    Refines allowed SameScan (sbScanLoop sbp fuel st) (sbScanLoop sbp fuel st') := by
  induction fuel generalizing st st' with
  | zero => exact refines_error
  | succ fuel ih =>
    rw [sbScanLoop, sbScanLoop, h.overflow]
    split_ifs with hover
    · exact h
    · exact ih (List.foldl_rel h fun i _ st st' hst => hst.round sbp i)

theorem SameSets.recordSuperBlks {allowed : Fault → Prop} {m m' : Ext2MetaCtr} (h : SameSets m m')
    (sbp : Ext2SuperBlock) :
    Refines allowed SameSets (m.recordSuperBlks sbp) (m'.recordSuperBlks sbp) := by
  have hclear : SameSets (MetaVectIndex.all.foldl Ext2MetaCtr.clearBlks m)
      (MetaVectIndex.all.foldl Ext2MetaCtr.clearBlks m') :=
    List.foldl_rel h fun idx _ m m' hm => hm.clearBlks idx
  unfold Ext2MetaCtr.recordSuperBlks
  dsimp only
  split_ifs with hcnt
  · have hstart := (hclear.insertBlk .sbIdx sb0BlockNo).insertSuperBlk sbp 1
    exact ((SameScan.start hstart).loop sbp _).bind fun st st' hst => hst.ctr
  · exact hclear.insertBlk .sbIdx sb0BlockNo

/-- The modules agree, the vectors of the detector being sets. -/
structure SameSys {σ : Type} (s t : Ext2Sys σ) : Prop where
  dev : s.dev = t.dev
  ctr : SameSets s.metaCtr t.metaCtr
  sbsBuf : s.sbsBuf = t.sbsBuf
  bgDescsBuf : s.bgDescsBuf = t.bgDescsBuf
  blkBmp : s.blkBmp = t.blkBmp

/-! ## 2.  The detector -/

namespace SameSys

variable {σ : Type} {L : BlockLayer σ} {allowed : Fault → Prop} {s t : Ext2Sys σ}

theorem refl (s : Ext2Sys σ) : SameSys s s := ⟨rfl, .refl _, rfl, rfl, rfl⟩

theorem setCtr (h : SameSys s t) {m m' : Ext2MetaCtr} (hm : SameSets m m') :
    SameSys { s with metaCtr := m } { t with metaCtr := m' } :=
  ⟨h.dev, hm, h.sbsBuf, h.bgDescsBuf, h.blkBmp⟩

/-- Nothing but the layer is looked at. -/
theorem allElementsMapped_eq (h : SameSys s t) (l : List ℕ) :
    s.allElementsMapped L l = t.allElementsMapped L l := by
  induction l with
  | nil => rfl
  | cons b l ih => rw [Ext2Sys.allElementsMapped, Ext2Sys.allElementsMapped, h.dev, ih]

theorem vectMapped_refines (h : SameSys s t) (idx : MetaVectIndex) :
    Refines allowed Eq (s.allElementsMapped L (s.metaCtr.metaBlks idx).toList)
      (t.allElementsMapped L (t.metaCtr.metaBlks idx).toList) := by
  rw [h.ctr.toList, h.allElementsMapped_eq]
  cases t.allElementsMapped L (t.metaCtr.metaBlks idx).toList with
  | ok c => exact rfl
  | error e => exact refines_error

theorem markMetaBlks (h : SameSys s t) (action : MarkAction) :
    Refines allowed SameSys (s.markMetaBlks L action) (t.markMetaBlks L action) := by
  unfold Ext2Sys.markMetaBlks
  refine Refines.foldlM h fun entry _ s t hst => ?_
  rw [hst.ctr.toList]
  refine Refines.foldlM hst fun blkNo _ s t hst => ?_
  refine (checkIndex_refines blkNo).bind fun _ _ _ => ?_
  refine ⟨?_, hst.ctr, hst.sbsBuf, hst.bgDescsBuf, hst.blkBmp⟩
  show L.setupMetaFlag s.dev blkNo _ = L.setupMetaFlag t.dev blkNo _
  rw [hst.dev]

/-- Two outcomes that are the same. -/
theorem refines_self {α : Type} (x : Except Fault α) : Refines allowed Eq x x := by
  cases x with
  | ok a => exact rfl
  | error e => exact refines_error

theorem markAllFreeBlks (h : SameSys s t) :
    Refines allowed (fun x y => x.1 = y.1 ∧ SameSys x.2 y.2) (s.markAllFreeBlks L)
      (t.markAllFreeBlks L) := by
  unfold Ext2Sys.markAllFreeBlks
  rw [h.ctr.size]
  -- The positions are below the size of the vector, which no round changes.
  obtain ⟨n, hn⟩ : ∃ n, (t.metaCtr.metaBlks .blkBmpIdx).size = n := ⟨_, rfl⟩
  rw [hn]
  refine Refines.mono (R := fun x y : ℕ × Ext2Sys σ => x.1 = y.1 ∧ SameSys x.2 y.2 ∧
    (y.2.metaCtr.metaBlks .blkBmpIdx).size = n) (Refines.foldlM ⟨rfl, h, hn⟩ ?_)
      fun x y hxy => ⟨hxy.1, hxy.2.1⟩
  rintro pos hpos ⟨c, s⟩ ⟨c', t⟩ ⟨rfl, hst, hsize⟩
  replace hst : SameSys s t := hst
  replace hsize : (t.metaCtr.metaBlks .blkBmpIdx).size = n := hsize
  have hget : (s.metaCtr.metaBlks .blkBmpIdx).get pos = (t.metaCtr.metaBlks .blkBmpIdx).get pos := by
    refine hst.ctr.get .blkBmpIdx ?_
    rw [hst.ctr.size, hsize]
    exact List.mem_range.mp hpos
  rw [Ext2Sys.markGroup, Ext2Sys.markGroup]
  dsimp only
  rw [hst.dev, hst.blkBmp, hget, hst.ctr.sb0, hst.ctr.status]
  refine (refines_self _).bind ?_
  rintro r - rfl
  refine (refines_self _).bind ?_
  rintro r' - rfl
  exact ⟨rfl, ⟨rfl, hst.ctr, hst.sbsBuf, hst.bgDescsBuf, rfl⟩, hsize⟩

/-! The stages. -/

theorem detectInoTableIfInoBmp (h : SameSys s t) :
    Refines allowed SameSys (s.detectInoTableIfInoBmp L) (t.detectInoTableIfInoBmp L) := by
  unfold Ext2Sys.detectInoTableIfInoBmp
  refine (h.vectMapped_refines .tmpIdx).bind ?_
  rintro c - rfl
  split_ifs with hc
  · have hstart := h.setCtr ((h.ctr.clearBlks .tmpIdx).setStatus .ext2Detected)
    exact (hstart.markMetaBlks .setMetaFlag).bind fun s t hst =>
      hst.markAllFreeBlks.bind fun x y hxy => hxy.2
  · exact h

theorem detectInoBmpIfBlkBmp (h : SameSys s t) :
    Refines allowed SameSys (s.detectInoBmpIfBlkBmp L) (t.detectInoBmpIfBlkBmp L) := by
  unfold Ext2Sys.detectInoBmpIfBlkBmp
  refine (h.vectMapped_refines .tmpIdx).bind ?_
  rintro c - rfl
  split_ifs with hc
  · exact (h.setCtr ((h.ctr.setStatus _).refillTmp _)).detectInoTableIfInoBmp
  · exact h

theorem detectBlkBmpIfBgDescs (h : SameSys s t) :
    Refines allowed SameSys (s.detectBlkBmpIfBgDescs L) (t.detectBlkBmpIfBgDescs L) := by
  unfold Ext2Sys.detectBlkBmpIfBgDescs
  refine (h.vectMapped_refines .tmpIdx).bind ?_
  rintro c - rfl
  split_ifs with hc
  · exact (h.setCtr ((h.ctr.setStatus _).refillTmp _)).detectInoBmpIfBlkBmp
  · exact h

theorem readBgDescBlk (h : SameSys s t) (blk : ℕ) :
    Refines allowed SameSys (s.readBgDescBlk L blk) (t.readBgDescBlk L blk) := by
  unfold Ext2Sys.readBgDescBlk
  rw [h.dev, h.bgDescsBuf, h.ctr.getNumberOfBgDescs]
  refine (refines_self _).bind ?_
  rintro r - rfl
  refine (refines_self _).bind ?_
  rintro n - rfl
  refine ⟨rfl, ?_, h.sbsBuf, rfl, h.blkBmp⟩
  exact List.foldl_rel h.ctr fun k _ m m' hm => hm.doGroupDescriptor _

theorem detectBgDescsIfSBs (h : SameSys s t) :
    Refines allowed SameSys (s.detectBgDescsIfSBs L) (t.detectBgDescsIfSBs L) := by
  unfold Ext2Sys.detectBgDescsIfSBs
  refine (h.vectMapped_refines .tmpIdx).bind ?_
  rintro c - rfl
  split_ifs with hc
  · rw [h.ctr.toList]
    refine (Refines.foldlM h fun blk _ s t hst => hst.readBgDescBlk blk).bind fun s t hst => ?_
    exact (hst.setCtr ((hst.ctr.setStatus _).refillTmp _)).detectBlkBmpIfBgDescs
  · exact h

theorem checkSuperBlks (h : SameSys s t) (l : List ℕ) :
    Refines allowed (fun x y => x.1 = y.1 ∧ SameSys x.2 y.2) (s.checkSuperBlks L l)
      (t.checkSuperBlks L l) := by
  induction l generalizing s t with
  | nil => exact ⟨rfl, h⟩
  | cons blkNo l ih =>
    unfold Ext2Sys.checkSuperBlks
    rw [h.dev, h.sbsBuf]
    refine (refines_self _).bind ?_
    rintro r - rfl
    have hread : SameSys { s with dev := r.2, sbsBuf := r.1 } { t with dev := r.2, sbsBuf := r.1 } :=
      ⟨rfl, h.ctr, rfl, h.bgDescsBuf, h.blkBmp⟩
    dsimp only
    split_ifs with hlegal
    · exact ih hread
    · exact ⟨rfl, hread⟩

theorem detectSBsIfSB0 (h : SameSys s t) :
    Refines allowed SameSys (s.detectSBsIfSB0 L) (t.detectSBsIfSB0 L) := by
  unfold Ext2Sys.detectSBsIfSB0
  refine (h.vectMapped_refines .tmpIdx).bind ?_
  rintro c - rfl
  split_ifs with hc
  · rw [h.ctr.toList]
    refine (h.checkSuperBlks _).bind ?_
    rintro ⟨legal, s⟩ ⟨legal', t⟩ ⟨rfl, hst⟩
    replace hst : SameSys s t := hst
    dsimp only
    split_ifs with hlegal
    · have hclear := (hst.ctr.clearBlks .tmpIdx).setStatus .sbsDetected
      rw [hclear.sb0, hclear.toList]
      refine (hst.setCtr ?_).detectBgDescsIfSBs
      exact List.foldl_rel hclear fun sb _ m m' hm => hm.recordBgDescs _ sb
    · exact hst.setCtr (hst.ctr.setStatus .noSb0)
  · exact h

theorem detectSB0IfNoSB0 (h : SameSys s t) (buf : Block) (blkNo : ℕ) :
    Refines allowed SameSys (s.detectSB0IfNoSB0 L buf blkNo) (t.detectSB0IfNoSB0 L buf blkNo) := by
  unfold Ext2Sys.detectSB0IfNoSB0
  dsimp only
  split_ifs with hlegal
  · refine Refines.bind (((h.ctr.setStatus .sb0Detected).setSb0 _).recordSuperBlks _) ?_
    exact fun m m' hm => (h.setCtr hm).detectSBsIfSB0
  · exact h

theorem recheckSB0 (h : SameSys s t) (buf : Block) :
    Refines allowed SameSys (s.recheckSB0 L buf) (t.recheckSB0 L buf) := by
  unfold Ext2Sys.recheckSB0
  dsimp only
  rw [h.ctr.sb0]
  split_ifs with hlegal
  · exact h.setCtr (h.ctr.setSb0 _)
  · exact (h.setCtr (h.ctr.setStatus .noSb0)).markMetaBlks .cleanMetaFlag

/-- **A call of the detector.** -/
theorem detectExt2Fs (h : SameSys s t) (buf : Block) (blkNo : ℕ) :
    Refines allowed SameSys (s.detectExt2Fs L buf blkNo) (t.detectExt2Fs L buf blkNo) := by
  unfold Ext2Sys.detectExt2Fs
  rw [h.ctr.status]
  cases t.metaCtr.status with
  | ext2Detected =>
    dsimp only
    split_ifs with h0
    · exact h.recheckSB0 buf
    · exact h
  | noSb0 => exact h.detectSB0IfNoSB0 buf blkNo
  | sb0Detected => exact h.detectSBsIfSB0
  | sbsDetected => exact h.detectBgDescsIfSBs
  | bgDescsDetected => exact h.detectBlkBmpIfBgDescs
  | blkBitmapDetected => exact h.detectInoBmpIfBlkBmp
  | inoBitmapDetected => exact h.detectInoTableIfInoBmp
  | inodeTableDetected => exact refines_error
  | undefined code => exact refines_error

/-! ## 3.  Runs -/

theorem writeOne (h : SameSys s t) (aware : Bool) (buf : Block) (blkNo : ℕ) :
    Refines allowed SameSys (s.writeOne L aware buf blkNo) (t.writeOne L aware buf blkNo) := by
  have hstore : ∀ {s t : Ext2Sys σ}, SameSys s t → Refines allowed SameSys
      (do checkIndex blkNo
          let dev ← L.storeBlock s.dev blkNo buf
          return { s with dev := dev })
      (do checkIndex blkNo
          let dev ← L.storeBlock t.dev blkNo buf
          return { t with dev := dev }) := by
    intro s t hst
    refine (checkIndex_refines blkNo).bind fun _ _ _ => ?_
    rw [hst.dev]
    refine (refines_self _).bind ?_
    rintro dev - rfl
    exact ⟨rfl, hst.ctr, hst.sbsBuf, hst.bgDescsBuf, hst.blkBmp⟩
  unfold Ext2Sys.writeOne
  dsimp only
  split_ifs with haware
  · exact (h.detectExt2Fs buf blkNo).bind fun s t hst => hstore hst
  · exact hstore h

theorem writeSmrBlocks (h : SameSys s t) (aware : Bool) (bufs : List Block) (blkNo : ℕ) :
    Refines allowed SameSys (s.writeSmrBlocks L aware bufs blkNo)
      (t.writeSmrBlocks L aware bufs blkNo) := by
  induction bufs generalizing s t blkNo with
  | nil => exact h
  | cons buf bufs ih =>
    rw [Ext2Sys.writeSmrBlocks, Ext2Sys.writeSmrBlocks]
    exact (h.writeOne aware buf blkNo).bind fun s t hst => ih hst (blkNo + 1)

theorem readSmrBlocks (h : SameSys s t) (bufs : List Block) (blkNo : ℕ) :
    Refines allowed (fun x y => x.1 = y.1 ∧ SameSys x.2 y.2) (s.readSmrBlocks L bufs blkNo)
      (t.readSmrBlocks L bufs blkNo) := by
  unfold Ext2Sys.readSmrBlocks
  rw [h.dev]
  split_ifs with hlt
  · exact ⟨rfl, rfl, h.ctr, h.sbsBuf, h.bgDescsBuf, h.blkBmp⟩
  · exact refines_error

theorem runOp (h : SameSys s t) (aware : Bool) (op : HostOp) :
    Refines allowed (fun x y => x.1 = y.1 ∧ SameSys x.2 y.2) (MemSmr.runOp L aware s op)
      (MemSmr.runOp L aware t op) := by
  cases op with
  | write blkNo bufs => exact (h.writeSmrBlocks aware bufs blkNo).bind fun s t hst => ⟨rfl, hst⟩
  | read blkNo bufs => exact h.readSmrBlocks bufs blkNo

theorem runOps (h : SameSys s t) (aware : Bool) (ops : List HostOp) :
    Refines allowed (fun x y => x.1 = y.1 ∧ SameSys x.2 y.2) (MemSmr.runOps L aware s ops)
      (MemSmr.runOps L aware t ops) := by
  induction ops generalizing s t with
  | nil => exact ⟨rfl, h⟩
  | cons op ops ih =>
    rw [MemSmr.runOps, MemSmr.runOps]
    refine (h.runOp aware op).bind ?_
    rintro ⟨out, s⟩ ⟨out', t⟩ ⟨rfl, hst⟩
    refine (ih hst).bind ?_
    rintro ⟨outs, s⟩ ⟨outs', t⟩ ⟨rfl, hst⟩
    exact ⟨rfl, hst⟩

end SameSys

/-- **The detector sees sets.**  Over any layer, and so both on the device and on the plain array, two
modules whose vectors hold the same numbers, in whatever order these have come in and whatever has been
there before, stop at the same requests with the same fault, give the host the same data, and are such
modules again afterwards. -/
theorem detector_sees_sets {σ : Type} (L : BlockLayer σ) (aware : Bool) (s t : Ext2Sys σ)
    (h : SameSys s t) (ops : List HostOp) :
    Refines (fun _ => False) (fun x y => x.1 = y.1 ∧ SameSys x.2 y.2) (runOps L aware s ops)
      (runOps L aware t ops) :=
  h.runOps aware ops

/-- In the middle of a detection, when the block bitmap is waited for.  The second vector has held
another number before, which is still behind its end; the writes that follow test the vectors, and the
last of them ends the detection. -/
theorem detector_sees_sets_removed :
    ∃ (s : Ext2Sys SmrDev) (outs : List (List Block)) (s' : Ext2Sys SmrDev),
    let L := smrLayer awareEnv
    let v := ((s.metaCtr.metaBlks .tmpIdx).insert 9).remove 9
    let ops := blockWrites (smallWrites.drop 4) ++ [.read 2 [0]]
    s.metaCtr.status = .bgDescsDetected ∧ (s.metaCtr.metaBlks .tmpIdx).toList = [2] ∧
      runOps L true s ops = .ok (outs, s') ∧ s'.metaCtr.status = .ext2Detected ∧
      Refines (fun _ => False) (fun x y => x.1 = y.1 ∧ SameSys x.2 y.2) (runOps L true s ops)
        (runOps L true { s with metaCtr := s.metaCtr.setVect .tmpIdx v } ops) := by
  obtain ⟨_, s, t, -, hst, ht⟩ := aware_state_of_array (blockWrites (smallWrites.take 4))
    (fun t : Ext2Sys ArrayDisk => decide (t.metaCtr.status = .bgDescsDetected ∧
        (t.metaCtr.metaBlks .tmpIdx).toList = [2]) &&
      (runOps arrayLayer true t
        (blockWrites (smallWrites.drop 4) ++ [HostOp.read 2 [0]])).toOption.any
          fun r : List (List Block) × Ext2Sys ArrayDisk =>
            decide (r.2.metaCtr.status = .ext2Detected)) (by decide +kernel)
  simp only [Bool.and_eq_true, decide_eq_true_eq] at ht
  obtain ⟨⟨hstatus, htmp⟩, hrest⟩ := ht
  obtain ⟨⟨outs', t'⟩, hrun, hend⟩ := ok_of_any hrest
  obtain ⟨⟨outs'', s'⟩, hrun', -, hst'⟩ := ((smrLayer_sim awareEnv).runOps_refines true hst
    _).ok_of_ok_right (not_pastEndFault awareEnv_pastEndNotFree) hrun
  rw [← hst.metaCtr] at hstatus htmp
  have hmem : ∀ x, x ∈ s.metaCtr.metaBlks .tmpIdx ↔
      x ∈ ((s.metaCtr.metaBlks .tmpIdx).insert 9).remove 9 := fun x => by
    rw [SortedVector.mem_remove, SortedVector.mem_insert, ← SortedVector.mem_toList, htmp,
      List.mem_singleton]
    omega
  have hsets : SameSets s.metaCtr (s.metaCtr.setVect .tmpIdx
      (((s.metaCtr.metaBlks .tmpIdx).insert 9).remove 9)) := by
    have hset := SameSets.setVect s.metaCtr .tmpIdx hmem
    rwa [Ext2MetaCtr.setVect, Function.update_eq_self] at hset
  exact ⟨s, outs'', s', hstatus, htmp, hrun', by
    rw [hst'.metaCtr]
    exact of_decide_eq_true hend,
    detector_sees_sets (smrLayer awareEnv) true _ _ ((SameSys.refl s).setCtr hsets) _⟩

end MemSmr
