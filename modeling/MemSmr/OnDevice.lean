import MemSmr.Positions

/-!
# Calls of the detector that stay on the device

What the detector takes from the group descriptors and from the block bitmaps is not checked before
it is used as an index into `mapping_table`.

* `StopsInTime`: `all_elements_mapped` meets no number past the end of the device.
* `ArrayDisk.bitmapRead`: the bitmap that `mark_all_free_blks` reads for a group.
* `TestsOnDevice`: what is asked of the numbers that the descriptors and the bitmaps give.
* `detectExt2Fs_ok`: then a call of the detector returns.
* `table_indices_on_device`: so does every run.
-/

namespace MemSmr

open Outcome Ext2MetaCtr

/-! ## Programs that return -/

/-- No fault at all. -/
def NoFault : Fault → Prop := fun _ => False

theorem meets_of_ok {α : Type} {allowed : Fault → Prop} {Q : α → Prop} {x : Except Fault α}
    (h : Meets allowed Q x) (hok : ∃ r, x = .ok r) : Meets NoFault Q x := by
  obtain ⟨r, rfl⟩ := hok
  exact h

theorem exists_of_meets {α : Type} {Q : α → Prop} {x : Except Fault α} (h : Meets NoFault Q x) :
    ∃ r, x = .ok r := by
  cases x with
  | ok r => exact ⟨r, rfl⟩
  | error e => exact absurd h id

theorem checkIndex_ok {l : ℕ} (h : l < totalSmrBlocksCnt) : checkIndex l = .ok () := if_pos h

/-- Of the blocks in `P`, none is past the end of the device, or one on the device has no contents. -/
def StopsInTime (a : ArrayDisk) (P : ℕ → Prop) : Prop :=
  (∀ x, P x → x < totalSmrBlocksCnt) ∨ ∃ x, P x ∧ x < totalSmrBlocksCnt ∧ a x = none

section Pieces

variable {s : Ext2Sys ArrayDisk}

/-- `all_elements_mapped` looks at the blocks in ascending order. -/
theorem allElementsMapped_ok {l : List ℕ} (hl : l.Pairwise (· < ·))
    (h : StopsInTime s.dev (· ∈ l)) : ∃ c, s.allElementsMapped arrayLayer l = .ok c := by
  induction l with
  | nil => exact ⟨true, rfl⟩
  | cons b l ih =>
    obtain ⟨hb, hl⟩ := List.pairwise_cons.mp hl
    have hlt : b < totalSmrBlocksCnt := by
      rcases h with h | ⟨x, hx, hlt, -⟩
      · exact h b List.mem_cons_self
      · rcases List.mem_cons.mp hx with rfl | hx
        · exact hlt
        · exact (hb x hx).trans hlt
    rw [Ext2Sys.allElementsMapped, checkIndex_ok hlt]
    change ∃ c, (if (s.dev b).isSome = true then _ else _) = Except.ok c
    split_ifs with hmap
    · refine ih hl ?_
      rcases h with h | ⟨x, hx, hlt, hnone⟩
      · exact Or.inl fun x hx => h x (List.mem_cons_of_mem b hx)
      · refine Or.inr ⟨x, (List.mem_cons.mp hx).resolve_left ?_, hlt, hnone⟩
        rintro rfl
        rw [hnone] at hmap
        cases hmap
    · exact ⟨false, rfl⟩

theorem vectMapped_ok {v : SortedVector} (h : StopsInTime s.dev (· ∈ v)) :
    Meets NoFault (fun c => c = true ↔ Mapped s.dev v)
      (s.allElementsMapped arrayLayer v.toList) := by
  refine meets_of_ok (vectMapped_spec s v) (allElementsMapped_ok v.pairwise_toList ?_)
  simp only [StopsInTime, SortedVector.mem_toList]
  exact h

theorem readOne_ok (a : ArrayDisk) (buf : Block) {blkNo : ℕ} (h : blkNo < totalSmrBlocksCnt) :
    Ext2Sys.readOne arrayLayer a buf blkNo = .ok ((a blkNo).getD buf, a) := by
  rw [Ext2Sys.readOne, checkIndex_ok h]
  rfl

theorem markMetaBlks_ok (action : MarkAction)
    (h : ∀ idx, idx ≠ .tmpIdx → ∀ x ∈ s.metaCtr.metaBlks idx, x < totalSmrBlocksCnt) :
    s.markMetaBlks arrayLayer action = .ok s := by
  have hclasses : ∀ entry ∈ idx2Flag, entry.1 ≠ .tmpIdx := by decide
  have hmeets : Meets NoFault (· = s) (s.markMetaBlks arrayLayer action) := by
    refine meets_foldlM (· = s) rfl fun entry hentry s' hs' => ?_
    subst hs'
    refine meets_foldlM (· = s') rfl fun blkNo hblk s hs => ?_
    subst hs
    rw [checkIndex_ok (h entry.1 (hclasses entry hentry) blkNo (SortedVector.mem_toList.mp hblk))]
    rfl
  obtain ⟨r, hr⟩ := exists_of_meets hmeets
  rw [hr]
  rw [hr] at hmeets
  exact congrArg Except.ok hmeets

/-- `mark_one_blk_bmp` uses the numbers of the blocks whose bits are clear. -/
theorem markOneBlkBmp_ok (a : ArrayDisk) (bmp : Block) (start : ℕ)
    (h : ∀ k < 32768, getBit bmp k = false → start + k < totalSmrBlocksCnt) :
    ∃ r, Ext2Sys.markOneBlkBmp arrayLayer .ext2Detected a bmp start = .ok r := by
  have hrule : Meets NoFault _ (Ext2Sys.markOneBlkBmp arrayLayer .ext2Detected a bmp start) :=
    markOneBlkBmp_rule arrayLayer (I := fun _ _ => True) bmp start trivial
      (fun _ _ _ _ _ => trivial) (fun _ _ _ _ _ _ => trivial)
      fun n hn hbit hout => absurd (h n hn hbit) (Nat.not_lt.mpr hout)
  exact exists_of_meets hrule

end Pieces

/-! ## Trimming -/

/-- The array and the static buffer when `mark_all_free_blks` comes to group `n`; the bitmap of group
`g` is in block `blk g`. -/
def ArrayDisk.trimGroups (a : ArrayDisk) (sb : Ext2SuperBlock) (blk : ℕ → ℕ) (b : Block) :
    ℕ → ArrayDisk × Block
  | 0 => (a, b)
  | n + 1 =>
    let st := a.trimGroups sb blk b n
    let bmp := (st.1 (blk n)).getD st.2
    (st.1.trimFree bmp (sb.groupStart n) 32768, bmp)

/-- The bitmap that it reads for group `n`. -/
def ArrayDisk.bitmapRead (a : ArrayDisk) (sb : Ext2SuperBlock) (blk : ℕ → ℕ) (b : Block) (n : ℕ) :
    Block :=
  ((a.trimGroups sb blk b n).1 (blk n)).getD (a.trimGroups sb blk b n).2

/-- A clear bit in the bitmap of a group is the bit of a block on the device. -/
def BitsOnDevice (a : ArrayDisk) (sb : Ext2SuperBlock) (v : SortedVector) (b : Block) : Prop :=
  ∀ n < v.size, ∀ k < 32768, getBit (a.bitmapRead sb v.get b n) k = false →
    sb.groupStart n + k < totalSmrBlocksCnt

theorem markAllFreeBlks_ok {s : Ext2Sys ArrayDisk} (hs : s.metaCtr.status = .ext2Detected)
    (hmapped : ∀ x ∈ s.metaCtr.metaBlks .blkBmpIdx, x < totalSmrBlocksCnt)
    (hbits : BitsOnDevice s.dev s.metaCtr.sb0 (s.metaCtr.metaBlks .blkBmpIdx) s.blkBmp) :
    ∃ r, s.markAllFreeBlks arrayLayer = .ok r := by
  let v := s.metaCtr.metaBlks .blkBmpIdx
  let st := s.dev.trimGroups s.metaCtr.sb0 v.get s.blkBmp
  refine exists_of_meets (Q := fun r => r.2 = { s with dev := (st v.size).1, blkBmp := (st v.size).2 })
    (meets_foldlM_range
      (fun n (r : ℕ × Ext2Sys ArrayDisk) =>
        r.2 = { s with dev := (st n).1, blkBmp := (st n).2 }) rfl ?_)
  rintro n hn ⟨c, s'⟩ hs'
  dsimp only at hs'
  subst hs'
  have hstart : (n * s.metaCtr.sb0.sBlocksPerGroup + s.metaCtr.sb0.sFirstDataBlock) % 2 ^ 32 =
      s.metaCtr.sb0.groupStart n := by rw [Ext2SuperBlock.groupStart, Nat.add_comm]
  obtain ⟨r, hr⟩ := markOneBlkBmp_ok (st n).1 _ (s.metaCtr.sb0.groupStart n) (hbits n hn)
  have htrim := (markOneBlkBmp_spec (st n).1 (s.dev.bitmapRead s.metaCtr.sb0 v.get s.blkBmp n)
    (s.metaCtr.sb0.groupStart n)).of_ok hr
  rw [Ext2Sys.markGroup]
  dsimp only
  rw [readOne_ok _ _ (hmapped _ (SortedVector.get_mem hn)), hstart, hs]
  change Meets NoFault _ (do
    let r ← Ext2Sys.markOneBlkBmp arrayLayer .ext2Detected (st n).1
      (s.dev.bitmapRead s.metaCtr.sb0 v.get s.blkBmp n) (s.metaCtr.sb0.groupStart n)
    _)
  rw [hr]
  change Ext2Sys.mk _ _ _ _ _ = _
  rw [htrim]
  rfl

/-! ## The stages -/

/-- Of the numbers that the descriptors have given, those that the tests of one call come to are on the
device, and so are the blocks whose bits are clear if the call ends the detection.  `b` is the static
buffer for bitmaps. -/
structure TestsOnDevice (a : ArrayDisk) (b : Block) (m : Ext2MetaCtr) : Prop where
  blkBmp : StopsInTime a (· ∈ m.metaBlks .blkBmpIdx)
  inoBmp : Mapped a (m.metaBlks .blkBmpIdx) → StopsInTime a (· ∈ m.metaBlks .inoBmpIdx)
  inoTable : Mapped a (m.metaBlks .blkBmpIdx) → Mapped a (m.metaBlks .inoBmpIdx) →
    StopsInTime a (· ∈ m.metaBlks .inoTableIdx)
  bits : AllMapped a m → BitsOnDevice a m.sb0 (m.metaBlks .blkBmpIdx) b

/-- The vectors of a control struct are what the descriptors in `desc` say. -/
structure VectorsAre (m : Ext2MetaCtr) (sb : Ext2SuperBlock) (desc : Block) : Prop where
  sb0 : m.sb0 = sb
  blkBmp : ∀ x, x ∈ m.metaBlks .blkBmpIdx ↔ sb.IsBlkBmpPos (fun _ => desc) x
  inoBmp : ∀ x, x ∈ m.metaBlks .inoBmpIdx ↔ sb.IsInoBmpPos (fun _ => desc) x
  inoTable : ∀ x, x ∈ m.metaBlks .inoTableIdx ↔ sb.IsInoTablePos (fun _ => desc) x

/-- The same of the numbers that the descriptors in `desc` give. -/
def DescsOnDevice (a : ArrayDisk) (b : Block) (sb : Ext2SuperBlock) (desc : Block) : Prop :=
  ∀ m, VectorsAre m sb desc → TestsOnDevice a b m

theorem Decoded.vectorsAre {a : ArrayDisk} {desc : Block} {m : Ext2MetaCtr} (h : Decoded a desc m) :
    VectorsAre m m.sb0 desc := ⟨rfl, h.blkBmp, h.inoBmp, h.inoTable⟩

theorem TestsOnDevice.congr {a : ArrayDisk} {b : Block} {m m' : Ext2MetaCtr}
    (h : TestsOnDevice a b m) (hsb : m'.sb0 = m.sb0)
    (hv : ∀ idx, idx ≠ .tmpIdx → m'.metaBlks idx = m.metaBlks idx) : TestsOnDevice a b m' := by
  have hblk := hv .blkBmpIdx (by decide)
  have hino := hv .inoBmpIdx (by decide)
  have htable := hv .inoTableIdx (by decide)
  refine ⟨?_, ?_, ?_, fun hall => ?_⟩
  · rw [hblk]
    exact h.blkBmp
  · rw [hblk, hino]
    exact h.inoBmp
  · rw [hblk, hino, htable]
    exact h.inoTable
  · rw [hblk, hsb]
    exact h.bits ⟨hblk ▸ hall.blkBmp, hino ▸ hall.inoBmp, htable ▸ hall.inoTable⟩

theorem metaBlks_refillTmp (m : Ext2MetaCtr) (status : MetaStatus) (idx idx' : MetaVectIndex)
    (h : idx' ≠ .tmpIdx) : ((m.setStatus status).refillTmp idx).metaBlks idx' = m.metaBlks idx' :=
  Function.update_of_ne h _ _

theorem metaBlks_clearTmp (m : Ext2MetaCtr) (status : MetaStatus) (idx : MetaVectIndex)
    (h : idx ≠ .tmpIdx) : ((m.clearBlks .tmpIdx).setStatus status).metaBlks idx = m.metaBlks idx :=
  Function.update_of_ne h _ _

/-- What `TMP_IDX` is a copy of stops the test as well. -/
theorem StopsInTime.tmp {a : ArrayDisk} {m : Ext2MetaCtr} {idx : MetaVectIndex}
    (h : StopsInTime a (· ∈ m.metaBlks idx)) (htmp : m.TmpIs idx) :
    StopsInTime a (· ∈ m.metaBlks .tmpIdx) := by
  rw [StopsInTime]
  simp only [htmp _]
  exact h

/-- All the metadata is on the device. -/
def Ext2MetaCtr.AllOnDevice (m : Ext2MetaCtr) : Prop :=
  ∀ idx, idx ≠ .tmpIdx → ∀ x ∈ m.metaBlks idx, x < totalSmrBlocksCnt

theorem Decoded.allOnDevice {a : ArrayDisk} {desc : Block} {m : Ext2MetaCtr} (h : Decoded a desc m)
    (hsb : m.sb0.OnDevice) (hall : AllMapped a m) : m.AllOnDevice := by
  intro idx hidx x hx
  cases idx with
  | sbIdx => exact hsb.super x ((h.super x).mp hx)
  | bgDescIdx => exact hsb.bgDesc x ((h.bgDesc x).mp hx)
  | blkBmpIdx => exact (hall.blkBmp x hx).1
  | inoBmpIdx => exact (hall.inoBmp x hx).1
  | inoTableIdx => exact (hall.inoTable x hx).1
  | tmpIdx => exact absurd rfl hidx

section Stages

variable {s : Ext2Sys ArrayDisk} {desc : Block}

theorem detectInoTableIfInoBmp_ok (h : Decoded s.dev desc s.metaCtr) (hsb : s.metaCtr.sb0.OnDevice)
    (htmp : s.metaCtr.TmpIs .inoTableIdx) (hblk : Mapped s.dev (s.metaCtr.metaBlks .blkBmpIdx))
    (hino : Mapped s.dev (s.metaCtr.metaBlks .inoBmpIdx))
    (ht : TestsOnDevice s.dev s.blkBmp s.metaCtr) :
    ∃ s', s.detectInoTableIfInoBmp arrayLayer = .ok s' := by
  refine exists_of_meets (Q := fun _ => True) ?_
  rw [Ext2Sys.detectInoTableIfInoBmp]
  refine (vectMapped_ok ((ht.inoTable hblk hino).tmp htmp)).bind fun c hc => ?_
  split_ifs with hmapped
  · have hall : AllMapped s.dev s.metaCtr :=
      ⟨hblk, hino, (hc.mp hmapped).congr fun x => (htmp x).symm⟩
    have hkeep := metaBlks_clearTmp s.metaCtr .ext2Detected
    have hon := h.allOnDevice hsb hall
    dsimp only
    rw [markMetaBlks_ok]
    · obtain ⟨r, hr⟩ := markAllFreeBlks_ok (s := { s with
        metaCtr := (s.metaCtr.clearBlks .tmpIdx).setStatus .ext2Detected }) rfl
        (fun x hx => hon .blkBmpIdx (by decide) x ((hkeep .blkBmpIdx (by decide)) ▸ hx))
        ((hkeep .blkBmpIdx (by decide)) ▸ ht.bits hall)
      change Meets NoFault _ (do
        let r ← Ext2Sys.markAllFreeBlks arrayLayer _
        _)
      rw [hr]
      trivial
    · intro idx hidx x hx
      dsimp only at hx
      rw [hkeep idx hidx] at hx
      exact hon idx hidx x hx
  · trivial

theorem detectInoBmpIfBlkBmp_ok (h : Decoded s.dev desc s.metaCtr) (hsb : s.metaCtr.sb0.OnDevice)
    (htmp : s.metaCtr.TmpIs .inoBmpIdx) (hblk : Mapped s.dev (s.metaCtr.metaBlks .blkBmpIdx))
    (ht : TestsOnDevice s.dev s.blkBmp s.metaCtr) :
    ∃ s', s.detectInoBmpIfBlkBmp arrayLayer = .ok s' := by
  refine exists_of_meets (Q := fun _ => True) ?_
  rw [Ext2Sys.detectInoBmpIfBlkBmp]
  refine (vectMapped_ok ((ht.inoBmp hblk).tmp htmp)).bind fun c hc => ?_
  split_ifs with hmapped
  · have hsame := sameLayout_refillTmp s.metaCtr .inoBitmapDetected .inoTableIdx
    obtain ⟨s', hs'⟩ := detectInoTableIfInoBmp_ok (s := { s with
      metaCtr := (s.metaCtr.setStatus .inoBitmapDetected).refillTmp .inoTableIdx })
      (h.congr hsame) hsb (tmpIs_refillTmp _ (by decide)) (hblk.congr (hsame.mem _ (by decide)))
      (((hc.mp hmapped).congr fun x => (htmp x).symm).congr (hsame.mem _ (by decide)))
      (ht.congr rfl (metaBlks_refillTmp _ _ _))
    rw [hs']
    trivial
  · trivial

theorem detectBlkBmpIfBgDescs_ok (h : Decoded s.dev desc s.metaCtr) (hsb : s.metaCtr.sb0.OnDevice)
    (htmp : s.metaCtr.TmpIs .blkBmpIdx) (ht : TestsOnDevice s.dev s.blkBmp s.metaCtr) :
    ∃ s', s.detectBlkBmpIfBgDescs arrayLayer = .ok s' := by
  refine exists_of_meets (Q := fun _ => True) ?_
  rw [Ext2Sys.detectBlkBmpIfBgDescs]
  refine (vectMapped_ok (ht.blkBmp.tmp htmp)).bind fun c hc => ?_
  split_ifs with hmapped
  · have hsame := sameLayout_refillTmp s.metaCtr .blkBitmapDetected .inoBmpIdx
    obtain ⟨s', hs'⟩ := detectInoBmpIfBlkBmp_ok (s := { s with
      metaCtr := (s.metaCtr.setStatus .blkBitmapDetected).refillTmp .inoBmpIdx })
      (h.congr hsame) hsb (tmpIs_refillTmp _ (by decide))
      (((hc.mp hmapped).congr fun x => (htmp x).symm).congr (hsame.mem _ (by decide)))
      (ht.congr rfl (metaBlks_refillTmp _ _ _))
    rw [hs']
    trivial
  · trivial

theorem readBgDescBlk_ok (h : SbsPhase s.dev s.metaCtr) (hdesc : s.dev (sb0BlockNo + 1) = some desc) :
    s.readBgDescBlk arrayLayer (sb0BlockNo + 1) = .ok { s with
      metaCtr := (List.range s.metaCtr.sb0.gdCnt).foldl
        (fun m k => m.doGroupDescriptor (Ext2GroupDesc.ofBlock desc k)) s.metaCtr
      bgDescsBuf := desc } := by
  rw [Ext2Sys.readBgDescBlk, readOne_ok _ _ descBlk_lt, hdesc,
    getNumberOfBgDescs_eq (Ext2SuperBlock.gdBlks_eq_one h.small).le]
  rfl

/-- The stage that follows once the descriptors are decoded. -/
theorem detectBlkBmp_refill_ok {m : Ext2MetaCtr} (h : Decoded s.dev desc m) (hsb : m.sb0.OnDevice)
    (ht : TestsOnDevice s.dev s.blkBmp m) :
    ∃ s', Ext2Sys.detectBlkBmpIfBgDescs arrayLayer { s with
      metaCtr := (m.setStatus .bgDescsDetected).refillTmp .blkBmpIdx
      bgDescsBuf := desc } = .ok s' :=
  detectBlkBmpIfBgDescs_ok (h.congr (sameLayout_refillTmp m .bgDescsDetected .blkBmpIdx)) hsb
    (tmpIs_refillTmp _ (by decide)) (ht.congr rfl (metaBlks_refillTmp _ _ _))

theorem detectBgDescsIfSBs_ok (h : SbsPhase s.dev s.metaCtr) (hsb : s.metaCtr.sb0.OnDevice)
    (hd : ∀ desc, s.dev (sb0BlockNo + 1) = some desc →
      DescsOnDevice s.dev s.blkBmp s.metaCtr.sb0 desc) :
    ∃ s', s.detectBgDescsIfSBs arrayLayer = .ok s' := by
  have hlist : (s.metaCtr.metaBlks .tmpIdx).toList = [sb0BlockNo + 1] :=
    SortedVector.toList_eq (List.pairwise_singleton _ _) fun b => by
      rw [h.tmp, List.mem_singleton]
  have htest : StopsInTime s.dev (· ∈ [sb0BlockNo + 1]) := Or.inl fun x hx => by
    rw [List.mem_singleton.mp hx]
    exact descBlk_lt
  obtain ⟨c, hc⟩ := allElementsMapped_ok (List.pairwise_singleton _ _) htest
  have hc' := (allElementsMapped_spec s _).of_ok hc
  rw [Ext2Sys.detectBgDescsIfSBs, hlist, hc]
  change ∃ s', (if c = true then _ else _) = Except.ok s'
  split_ifs with hmapped
  · have hsome := hc'.mp hmapped _ (List.mem_singleton_self _)
    obtain ⟨desc, hdesc⟩ := Option.isSome_iff_exists.mp hsome.2
    have hdecoded := decoded_doGroupDescriptors desc h hsome
    have hsb0 := (mem_doGroupDescriptors s.metaCtr s.metaCtr.sb0.gdCnt
      (Ext2GroupDesc.ofBlock desc)).1.sb0
    have hvects := hdecoded.vectorsAre
    have hread : [sb0BlockNo + 1].foldlM (Ext2Sys.readBgDescBlk arrayLayer) s = .ok { s with
        metaCtr := (List.range s.metaCtr.sb0.gdCnt).foldl
          (fun m k => m.doGroupDescriptor (Ext2GroupDesc.ofBlock desc k)) s.metaCtr
        bgDescsBuf := desc } := by
      rw [List.foldlM_cons, readBgDescBlk_ok h hdesc]
      rfl
    rw [hread, ok_bind]
    dsimp only
    revert hdecoded hsb0 hvects
    generalize (List.range s.metaCtr.sb0.gdCnt).foldl
      (fun m k => m.doGroupDescriptor (Ext2GroupDesc.ofBlock desc k)) s.metaCtr = m
    intro hdecoded hsb0 hvects
    rw [hsb0] at hvects
    rw [← hsb0] at hsb
    exact detectBlkBmp_refill_ok hdecoded hsb (hd desc hdesc m hvects)
  · exact ⟨_, rfl⟩

theorem checkSuperBlks_ok (s : Ext2Sys ArrayDisk) {l : List ℕ}
    (hl : ∀ x ∈ l, x < totalSmrBlocksCnt) :
    ∃ c b, s.checkSuperBlks arrayLayer l = .ok (c, { s with sbsBuf := b }) := by
  induction l generalizing s with
  | nil => exact ⟨true, s.sbsBuf, rfl⟩
  | cons blkNo l ih =>
    obtain ⟨hb, hl⟩ := List.forall_mem_cons.mp hl
    rw [Ext2Sys.checkSuperBlks, readOne_ok _ _ hb]
    change ∃ c b, (if Ext2SuperBlock.isLegal _ = true then _ else _) = _
    split_ifs
    · exact ih { s with dev := s.dev, sbsBuf := (s.dev blkNo).getD s.sbsBuf } hl
    · exact ⟨false, _, rfl⟩

theorem detectSBsIfSB0_ok (h : Sb0Phase s.metaCtr) (hsb : s.metaCtr.sb0.OnDevice)
    (hd : Mapped s.dev (s.metaCtr.metaBlks .tmpIdx) → OthersLegal s.dev s.metaCtr →
      ∀ desc, s.dev (sb0BlockNo + 1) = some desc →
        DescsOnDevice s.dev s.blkBmp s.metaCtr.sb0 desc) :
    ∃ s', s.detectSBsIfSB0 arrayLayer = .ok s' := by
  have htmp : ∀ x ∈ s.metaCtr.metaBlks .tmpIdx, x < totalSmrBlocksCnt := fun x hx =>
    hsb.super x ((h.super_iff hsb.small x).mp ((h.super x).mpr (Or.inr hx)))
  refine exists_of_meets (Q := fun _ => True) ?_
  rw [Ext2Sys.detectSBsIfSB0]
  refine (vectMapped_ok (Or.inl htmp)).bind fun c hc => ?_
  split_ifs with htrue
  · have hmapped := hc.mp htrue
    obtain ⟨legal, b, hcheck⟩ := checkSuperBlks_ok s fun x hx =>
      htmp x (SortedVector.mem_toList.mp hx)
    have hlegal := ((checkSuperBlks_spec s fun x hx =>
      hmapped x (SortedVector.mem_toList.mp hx)).of_ok hcheck).2.2
    simp only [SortedVector.mem_toList] at hlegal
    rw [hcheck]
    change Meets NoFault _ (if legal = true then _ else _)
    split_ifs with hl
    · obtain ⟨h1, h2⟩ := sbsPhase_recordBgDescs h hsb.small hmapped rfl
      obtain ⟨s', hs'⟩ := detectBgDescsIfSBs_ok (s := { s with sbsBuf := b, metaCtr := _ }) h1
        (by rw [h2]; exact hsb) fun desc hdesc => by
          rw [h2]
          exact hd hmapped (hlegal.mp hl) desc hdesc
      rw [hs']
      trivial
    · trivial
  · trivial

end Stages

/-! ## One call -/

/-- The call decodes the descriptors in `desc` for the super block `sb`: it has them before it, and it
gets as far as that. -/
inductive Decodes (a : ArrayDisk) (m : Ext2MetaCtr) (blkNo : ℕ) (buf : Block) (sb : Ext2SuperBlock)
    (desc : Block) : Prop
  | start (hs : m.status = .noSb0) (hblk : blkNo = sb0BlockNo)
      (hsb : sb = Ext2SuperBlock.ofBlock buf firstSuperBlockOffset) (hlegal : sb.isLegal = true)
      (hmapped : ∀ x, sb.IsSuperPos x → x ≠ sb0BlockNo → HasBlock a x)
      (hothers : SupersLegal a sb) (hdesc : a (sb0BlockNo + 1) = some desc)
  | supers (hs : m.status = .sb0Detected) (hsb : sb = m.sb0)
      (hmapped : Mapped a (m.metaBlks .tmpIdx)) (hothers : OthersLegal a m)
      (hdesc : a (sb0BlockNo + 1) = some desc)
  | descs (hs : m.status = .sbsDetected) (hsb : sb = m.sb0) (hdesc : a (sb0BlockNo + 1) = some desc)

/-- A legal super block that arrives in status `NO_SB0` has its copies and descriptors on the device. -/
def SuperOnDevice (m : Ext2MetaCtr) (blkNo : ℕ) (buf : Block) : Prop :=
  m.status = .noSb0 → blkNo = sb0BlockNo →
    (Ext2SuperBlock.ofBlock buf firstSuperBlockOffset).isLegal = true →
      (Ext2SuperBlock.ofBlock buf firstSuperBlockOffset).OnDevice

/-- The numbers that the descriptors and the bitmaps give to one call are on the device, as far as the
call comes to them. -/
structure CallOnDevice (a : ArrayDisk) (b : Block) (m : Ext2MetaCtr) (blkNo : ℕ) (buf : Block) :
    Prop where
  decoded : ∀ sb desc, Decodes a m blkNo buf sb desc → DescsOnDevice a b sb desc
  waiting : m.HasDescs → TestsOnDevice a b m

/-- What is on the device between two calls. -/
structure KnownOnDevice (m : Ext2MetaCtr) : Prop where
  super : m.InDetection → m.sb0.OnDevice
  all : m.status = .ext2Detected → m.AllOnDevice

section Call

variable {s s' : Ext2Sys ArrayDisk} {desc buf : Block} {blkNo : ℕ}

theorem detectSB0IfNoSB0_ok (hs : s.metaCtr.status = .noSb0)
    (hsuper : SuperOnDevice s.metaCtr blkNo buf)
    (hcall : CallOnDevice s.dev s.blkBmp s.metaCtr blkNo buf) :
    ∃ s', s.detectSB0IfNoSB0 arrayLayer buf blkNo = .ok s' := by
  rw [Ext2Sys.detectSB0IfNoSB0]
  dsimp only
  split_ifs with hcond
  · obtain ⟨hblk, hlegal⟩ := hcond
    have hon := hsuper hs hblk hlegal
    obtain ⟨m, hm, hsb0, hrec⟩ := recordSuperBlks_start s.metaCtr
      (Ext2SuperBlock.ofBlock buf firstSuperBlockOffset)
    have hphase := hrec.sb0Phase hlegal
    rw [hm]
    refine detectSBsIfSB0_ok (s := { s with metaCtr := m }) hphase (by rw [hsb0]; exact hon)
      fun hmapped hothers desc hdesc => ?_
    rw [hsb0]
    -- The blocks that the detector waits for are the copies of the super block.
    have htmp : ∀ x, (Ext2SuperBlock.ofBlock buf firstSuperBlockOffset).IsSuperPos x →
        x ≠ sb0BlockNo → x ∈ m.metaBlks .tmpIdx := fun x hx hne => by
      rw [← hsb0, ← hphase.super_iff (by rw [hsb0]; exact hon.small), hphase.super] at hx
      exact hx.resolve_left hne
    exact hcall.decoded _ desc (.start hs hblk rfl hlegal
      (fun x hx hne => hmapped x (htmp x hx hne))
      (fun x hx hne b hb => hothers x (htmp x hx hne) b hb) hdesc)
  · exact ⟨s, rfl⟩

theorem recheckSB0_ok (hall : s.metaCtr.AllOnDevice) :
    ∃ s', s.recheckSB0 arrayLayer buf = .ok s' := by
  rw [Ext2Sys.recheckSB0]
  dsimp only
  split_ifs
  · exact ⟨_, rfl⟩
  · rw [markMetaBlks_ok]
    · exact ⟨_, rfl⟩
    · exact hall

/-- **A call of the detector returns** if the numbers that it comes to are on the device. -/
theorem detectExt2Fs_ok (h : Phase s.dev desc s.metaCtr) (hknown : KnownOnDevice s.metaCtr)
    (hsuper : SuperOnDevice s.metaCtr blkNo buf)
    (hcall : CallOnDevice s.dev s.blkBmp s.metaCtr blkNo buf) :
    ∃ s', s.detectExt2Fs arrayLayer buf blkNo = .ok s' := by
  rw [Ext2Sys.detectExt2Fs]
  cases h with
  | noSb0 hs =>
    rw [hs]
    exact detectSB0IfNoSB0_ok hs hsuper hcall
  | sb0 hphase =>
    rw [hphase.status]
    refine detectSBsIfSB0_ok hphase (hknown.super ?_) fun hmapped hothers desc hdesc =>
      hcall.decoded _ desc (.supers hphase.status rfl hmapped hothers hdesc)
    exact ⟨by rw [hphase.status]; decide, by rw [hphase.status]; decide⟩
  | sbs hphase =>
    rw [hphase.status]
    refine detectBgDescsIfSBs_ok hphase (hknown.super ?_) fun desc hdesc =>
      hcall.decoded _ desc (.descs hphase.status rfl hdesc)
    exact ⟨by rw [hphase.status]; decide, by rw [hphase.status]; decide⟩
  | descs hphase =>
    have hsb := hknown.super hphase.hasDescs.inDetection
    have htests := hcall.waiting hphase.hasDescs
    cases hphase with
    | bgDescs hs hdec htmp =>
      rw [hs]
      exact detectBlkBmpIfBgDescs_ok hdec hsb htmp htests
    | blkBitmap hs hdec htmp hblk =>
      rw [hs]
      exact detectInoBmpIfBlkBmp_ok hdec hsb htmp hblk htests
    | inoBitmap hs hdec htmp hblk hino =>
      rw [hs]
      exact detectInoTableIfInoBmp_ok hdec hsb htmp hblk hino htests
  | ext2 hs _ =>
    rw [hs]
    dsimp only
    split_ifs
    · exact recheckSB0_ok (hknown.all hs)
    · exact ⟨s, rfl⟩

theorem knownOnDevice_noSb0 {m : Ext2MetaCtr} (hs : m.status = .noSb0) : KnownOnDevice m :=
  ⟨fun hin => absurd hs hin.1, fun h => absurd (hs.symm.trans h) (by decide)⟩

theorem Finished.knownOnDevice {a : ArrayDisk} (h : Finished a desc s) (hsb : s.metaCtr.sb0.OnDevice) :
    KnownOnDevice s.metaCtr :=
  ⟨fun _ => hsb, fun _ => h.decoded.allOnDevice hsb h.mapped⟩

theorem AfterSBs.knownOnDevice {a : ArrayDisk} {sb0 : Ext2SuperBlock} (h : AfterSBs a sb0 s)
    (hsb : sb0.OnDevice) : KnownOnDevice s.metaCtr := by
  obtain ⟨-, rfl, hphase, -⟩ | ⟨desc, -, rfl, ⟨-, hphase, -⟩ | hfin⟩ := h
  · exact ⟨fun _ => hsb, fun h => absurd (hphase.status.symm.trans h) (by decide)⟩
  · exact ⟨fun _ => hsb, fun h => absurd h hphase.hasDescs.inDetection.2⟩
  · exact hfin.knownOnDevice hsb

/-- What is known stays on the device. -/
theorem Detects.knownOnDevice (h : Detects s desc buf blkNo s') (hknown : KnownOnDevice s.metaCtr)
    (hsuper : SuperOnDevice s.metaCtr blkNo buf) : KnownOnDevice s'.metaCtr := by
  cases h with
  | idle _ h =>
    rw [h]
    exact hknown
  | recheck hs _ hs' hblks =>
    refine ⟨fun hin => absurd hs' hin.2, fun _ idx hidx x hx => ?_⟩
    rw [hblks] at hx
    exact hknown.all hs idx hidx x hx
  | back _ _ hs' => exact knownOnDevice_noSb0 hs'
  | start hs hblk hlegal _ hsb0 hphase _ =>
    refine ⟨fun _ => ?_, fun h => absurd (hphase.status.symm.trans h) (by decide)⟩
    rw [hsb0]
    exact hsuper hs hblk hlegal
  | startOn hs hblk hlegal _ h => exact h.knownOnDevice (hsuper hs hblk hlegal)
  | supers hphase _ _ h =>
    exact h.knownOnDevice (hknown.super ⟨by rw [hphase.status]; decide,
      by rw [hphase.status]; decide⟩)
  | descs hphase h =>
    exact h.knownOnDevice (hknown.super ⟨by rw [hphase.status]; decide,
      by rw [hphase.status]; decide⟩)
  | rest hphase h =>
    have hsb := hknown.super hphase.hasDescs.inDetection
    obtain ⟨hsb0, ⟨-, hphase', -⟩ | hfin⟩ := h
    · exact ⟨fun _ => by rw [hsb0]; exact hsb, fun h => absurd h hphase'.hasDescs.inDetection.2⟩
    · exact hfin.knownOnDevice (by rw [hsb0]; exact hsb)

end Call

/-! ## The module -/

section Congr

variable {a a' : ArrayDisk} {m : Ext2MetaCtr} {b : Block}

/-! The conditions depend on what the blocks of the device hold only. -/

theorem Mapped.congrArray {v : SortedVector} (h : Mapped a v)
    (ha : ∀ l < totalSmrBlocksCnt, a l = a' l) : Mapped a' v := fun x hx => (h x hx).congr ha

theorem StopsInTime.congrArray {P : ℕ → Prop} (h : StopsInTime a P)
    (ha : ∀ l < totalSmrBlocksCnt, a l = a' l) : StopsInTime a' P :=
  h.imp_right fun ⟨x, hx, hlt, hnone⟩ => ⟨x, hx, hlt, (ha x hlt).symm.trans hnone⟩

theorem trimGroups_congr (sb : Ext2SuperBlock) {blk : ℕ → ℕ} {n : ℕ}
    (hblk : ∀ g < n, blk g < totalSmrBlocksCnt) (ha : ∀ l < totalSmrBlocksCnt, a l = a' l) :
    (∀ l < totalSmrBlocksCnt, (a.trimGroups sb blk b n).1 l = (a'.trimGroups sb blk b n).1 l) ∧
      (a.trimGroups sb blk b n).2 = (a'.trimGroups sb blk b n).2 := by
  induction n with
  | zero => exact ⟨ha, rfl⟩
  | succ n ih =>
    obtain ⟨h1, h2⟩ := ih fun g hg => hblk g (by omega)
    have hbmp : ((a.trimGroups sb blk b n).1 (blk n)).getD (a.trimGroups sb blk b n).2 =
        ((a'.trimGroups sb blk b n).1 (blk n)).getD (a'.trimGroups sb blk b n).2 := by
      rw [h1 _ (hblk n (Nat.lt_succ_self n)), h2]
    refine ⟨fun l hl => ?_, hbmp⟩
    rw [ArrayDisk.trimGroups, ArrayDisk.trimGroups]
    dsimp only
    rw [hbmp, ArrayDisk.trimFree, ArrayDisk.trimFree, h1 l hl]

theorem BitsOnDevice.congrArray {sb : Ext2SuperBlock} {v : SortedVector}
    (h : BitsOnDevice a sb v b) (hv : ∀ x ∈ v, x < totalSmrBlocksCnt)
    (ha : ∀ l < totalSmrBlocksCnt, a l = a' l) : BitsOnDevice a' sb v b := by
  intro n hn k hk hclear
  have hlt : ∀ g, g < v.size → v.get g < totalSmrBlocksCnt := fun g hg =>
    hv _ (SortedVector.get_mem hg)
  obtain ⟨h1, h2⟩ := trimGroups_congr sb (b := b) (fun g hg => hlt g (hg.trans hn)) ha
  refine h n hn k hk ?_
  rw [ArrayDisk.bitmapRead, h1 _ (hlt n hn), h2]
  exact hclear

theorem TestsOnDevice.congrArray (h : TestsOnDevice a b m)
    (ha : ∀ l < totalSmrBlocksCnt, a l = a' l) : TestsOnDevice a' b m := by
  have hback : ∀ l < totalSmrBlocksCnt, a' l = a l := fun l hl => (ha l hl).symm
  refine ⟨h.blkBmp.congrArray ha, fun h1 => (h.inoBmp (h1.congrArray hback)).congrArray ha,
    fun h1 h2 => (h.inoTable (h1.congrArray hback) (h2.congrArray hback)).congrArray ha,
    fun hall => ?_⟩
  exact (h.bits ⟨hall.blkBmp.congrArray hback, hall.inoBmp.congrArray hback,
    hall.inoTable.congrArray hback⟩).congrArray (fun x hx => (hall.blkBmp x hx).1) ha

theorem Decodes.congrArray {blkNo : ℕ} {buf desc : Block} {sb : Ext2SuperBlock}
    (h : Decodes a m blkNo buf sb desc) (ha : ∀ l < totalSmrBlocksCnt, a l = a' l) :
    Decodes a' m blkNo buf sb desc := by
  cases h with
  | start hs hblk hsb hlegal hmapped hothers hdesc =>
    refine .start hs hblk hsb hlegal (fun x hx hne => (hmapped x hx hne).congr ha)
      (fun x hx hne b hb => hothers x hx hne b ?_) ((ha _ descBlk_lt).symm.trans hdesc)
    rw [ha x (hmapped x hx hne).1]
    exact hb
  | supers hs hsb hmapped hothers hdesc =>
    refine .supers hs hsb (hmapped.congrArray ha) (fun x hx b hb => hothers x hx b ?_)
      ((ha _ descBlk_lt).symm.trans hdesc)
    rw [ha x (hmapped x hx).1]
    exact hb
  | descs hs hsb hdesc => exact .descs hs hsb ((ha _ descBlk_lt).symm.trans hdesc)

theorem CallOnDevice.congrArray {blkNo : ℕ} {buf : Block} (h : CallOnDevice a b m blkNo buf)
    (ha : ∀ l < totalSmrBlocksCnt, a l = a' l) : CallOnDevice a' b m blkNo buf where
  decoded sb desc hdec m' hm' :=
    (h.decoded sb desc (hdec.congrArray fun l hl => (ha l hl).symm) m' hm').congrArray ha
  waiting hs := (h.waiting hs).congrArray ha

end Congr

/-- The detector is between two calls, and what it knows is on the device. -/
def Known (t : Ext2Sys ArrayDisk) : Prop := InPhase t ∧ KnownOnDevice t.metaCtr

theorem known_freshArray : Known freshArray := ⟨inPhase_freshArray, knownOnDevice_noSb0 rfl⟩

/-- **A write returns** if the numbers that the detector comes to are on the device. -/
theorem writeOne_ok_of_onDevice {t : Ext2Sys ArrayDisk} (ht : Known t) {buf : Block} {blkNo : ℕ}
    (hlt : blkNo < totalSmrBlocksCnt) (hsuper : SuperOnDevice t.metaCtr blkNo buf)
    (hcall : CallOnDevice t.dev t.blkBmp t.metaCtr blkNo buf) :
    ∃ t₁, t.detectExt2Fs arrayLayer buf blkNo = .ok t₁ ∧
      t.writeOne arrayLayer true buf blkNo =
        .ok { t₁ with dev := Function.update t₁.dev blkNo (some buf) } ∧
      Known { t₁ with dev := Function.update t₁.dev blkNo (some buf) } := by
  obtain ⟨⟨desc, hphase⟩, hknown⟩ := ht
  obtain ⟨t₁, ht₁⟩ := detectExt2Fs_ok hphase hknown hsuper hcall
  have hdet := (detectExt2Fs_spec hphase buf blkNo).of_ok ht₁
  obtain ⟨desc', hphase'⟩ := hdet.phase hphase
  refine ⟨t₁, ht₁, ?_, ⟨desc', hphase'.store blkNo buf⟩, hdet.knownOnDevice hknown hsuper⟩
  rw [Ext2Sys.writeOne, if_pos rfl, ht₁]
  change (do
    checkIndex blkNo
    let dev ← arrayLayer.storeBlock t₁.dev blkNo buf
    return { t₁ with dev := dev }) = _
  rw [checkIndex_ok hlt]
  rfl

/-- **Indices into the table.**  The writes are on the device, the super blocks that start a detection
lead to numbers on the device, and so do, at every write, the descriptors and the bitmaps as far as
the write comes to what they say: then no index is past the end of `mapping_table`. -/
theorem table_indices_on_device (env : Env) (haware : env.aware = true) (data : ℕ → Block)
    (ws : List (ℕ × Block)) (hws : ∀ w ∈ ws, w.1 < totalSmrBlocksCnt)
    (hsuper : ∀ pre w post outs s, ws = pre ++ w :: post →
      runModule env data (blockWrites pre) = .ok (outs, s) → SuperOnDevice s.metaCtr w.1 w.2)
    (hcall : ∀ pre w post outs s, ws = pre ++ w :: post →
      runModule env data (blockWrites pre) = .ok (outs, s) →
        CallOnDevice s.dev.contents s.blkBmp s.metaCtr w.1 w.2) (i : ℕ) :
    runModule env data (blockWrites ws) ≠ .error (.tableIndex i) := by
  have hrule : Meets (PastEndFault env) (fun _ => True) (runModule env data (blockWrites ws)) := by
    refine Meets.mono (meets_blockWrites
      (P := fun _ s => ∃ t, SysRel Shows s t ∧ Known t)
      ⟨freshArray, shows_init data, known_freshArray⟩ ?_) fun _ _ => trivial
    rintro pre w post outs s hpre hrun ⟨t, hst, ht⟩
    have hcall' := (hcall pre w post outs s hpre hrun).congrArray hst.dev.contents
    have hsuper' := hsuper pre w post outs s hpre hrun
    rw [hst.metaCtr] at hcall' hsuper'
    rw [hst.blkBmp] at hcall'
    have hlt := hws w (by rw [hpre]; exact List.mem_append_right _ List.mem_cons_self)
    obtain ⟨t₁, -, hone, hknown⟩ := writeOne_ok_of_onDevice ht hlt hsuper' hcall'
    have hrefines := (smrLayer_sim env).writeOne_refines true hst w.2 w.1
    rw [haware]
    rw [hone] at hrefines
    cases hres : s.writeOne (smrLayer env) true w.2 w.1 with
    | ok s' =>
      rw [hres] at hrefines
      exact ⟨_, hrefines, hknown⟩
    | error e =>
      rw [hres] at hrefines
      exact hrefines
  intro hres
  obtain ⟨he, -⟩ := hrule.of_error hres
  cases he

/-- The super block of the small file system leads to numbers on the device. -/
theorem smallSuperBlk_onDevice :
    (Ext2SuperBlock.ofBlock (smallSuperBlk 0) firstSuperBlockOffset).isLegal = true ∧
      (Ext2SuperBlock.ofBlock (smallSuperBlk 0) firstSuperBlockOffset).OnDevice := by
  have hlegal : (Ext2SuperBlock.ofBlock (smallSuperBlk 0) firstSuperBlockOffset).isLegal = true := by
    decide +kernel
  have hcnt : (Ext2SuperBlock.ofBlock (smallSuperBlk 0) firstSuperBlockOffset).gdCnt = 1 := by
    decide +kernel
  have hfirst :
      (Ext2SuperBlock.ofBlock (smallSuperBlk 0) firstSuperBlockOffset).sFirstDataBlock = 0 := by
    decide +kernel
  refine ⟨hlegal, (Ext2SuperBlock.onDevice_iff hlegal).mpr ⟨by decide +kernel, fun g hg _ => ?_⟩⟩
  rw [hcnt] at hg
  obtain rfl : g = 0 := by omega
  rw [hfirst, zero_mul, totalSmrBlocksCnt_eq]
  decide

/-- A super block of one group with one block of inodes. -/
def IsSmallSuper (sb : Ext2SuperBlock) : Prop :=
  sb.gdCnt = 1 ∧ sb.tableBlks = 1 ∧ sb.sFirstDataBlock = 0

/-- A descriptor of that group: its bitmaps are blocks 2 and 3, its inodes are in block 4. -/
def IsSmallDesc (desc : Block) : Prop :=
  (groupDesc (fun _ => desc) 0).bgBlockBitmap = 2 ∧ (groupDesc (fun _ => desc) 0).bgInodeBitmap = 3 ∧
    (groupDesc (fun _ => desc) 0).bgInodeTable = 4

/-- What such a descriptor gives. -/
def SmallVects (m : Ext2MetaCtr) : Prop :=
  (∀ x ∈ (m.metaBlks .blkBmpIdx).toList, x = 2) ∧ (∀ x ∈ (m.metaBlks .inoBmpIdx).toList, x = 3) ∧
    (∀ x ∈ (m.metaBlks .inoTableIdx).toList, x = 4) ∧ m.sb0.sFirstDataBlock = 0

instance (sb : Ext2SuperBlock) : Decidable (IsSmallSuper sb) :=
  inferInstanceAs (Decidable (_ ∧ _ ∧ _))

instance (desc : Block) : Decidable (IsSmallDesc desc) := inferInstanceAs (Decidable (_ ∧ _ ∧ _))

instance (m : Ext2MetaCtr) : Decidable (SmallVects m) :=
  inferInstanceAs (Decidable (_ ∧ _ ∧ _ ∧ _))

theorem SmallVects.testsOnDevice {m : Ext2MetaCtr} (h : SmallVects m) (a : ArrayDisk) (b : Block) :
    TestsOnDevice a b m := by
  obtain ⟨hblk, hino, htable, hfirst⟩ := h
  simp only [SortedVector.mem_toList] at hblk hino htable
  refine ⟨Or.inl fun x hx => ?_, fun _ => Or.inl fun x hx => ?_, fun _ _ => Or.inl fun x hx => ?_,
    fun _ n hn k hk _ => ?_⟩
  · rw [hblk x hx, totalSmrBlocksCnt_eq]
    decide
  · rw [hino x hx, totalSmrBlocksCnt_eq]
    decide
  · rw [htable x hx, totalSmrBlocksCnt_eq]
    decide
  · -- The vector has one element.
    have hn0 : n = 0 := by
      by_contra hne
      have hlt := SortedVector.get_lt_get (Nat.pos_of_ne_zero hne) hn
      rw [hblk _ (SortedVector.get_mem hn), hblk _ (SortedVector.get_mem (Nat.zero_lt_of_lt hn))] at hlt
      exact Nat.lt_irrefl 2 hlt
    rw [hn0, Ext2SuperBlock.groupStart, hfirst, totalSmrBlocksCnt_eq]
    omega

theorem descsOnDevice_small {sb : Ext2SuperBlock} {desc : Block} (hsb : IsSmallSuper sb)
    (hdesc : IsSmallDesc desc) (a : ArrayDisk) (b : Block) : DescsOnDevice a b sb desc := by
  intro m hm
  obtain ⟨hcnt, htbl, hfirst⟩ := hsb
  refine SmallVects.testsOnDevice ⟨fun x hx => ?_, fun x hx => ?_, fun x hx => ?_, ?_⟩ a b
  · obtain ⟨g, hg, rfl⟩ := (hm.blkBmp x).mp (SortedVector.mem_toList.mp hx)
    obtain rfl : g = 0 := by omega
    exact hdesc.1
  · obtain ⟨g, hg, rfl⟩ := (hm.inoBmp x).mp (SortedVector.mem_toList.mp hx)
    obtain rfl : g = 0 := by omega
    exact hdesc.2.1
  · obtain ⟨g, hg, i, hi, rfl⟩ := (hm.inoTable x).mp (SortedVector.mem_toList.mp hx)
    obtain rfl : g = 0 := by omega
    obtain rfl : i = 0 := by omega
    rw [hdesc.2.2]
    rfl
  · rw [hm.sb0, hfirst]

/-! The writes of the small file system. -/

theorem smallWrites_lt {w : ℕ × Block} (hw : w ∈ smallWrites) : w.1 < totalSmrBlocksCnt := by
  rw [totalSmrBlocksCnt_eq]
  simp only [smallWrites, List.mem_cons, List.not_mem_nil, or_false] at hw
  rcases hw with rfl | rfl | rfl | rfl | rfl | rfl | rfl
  all_goals decide

theorem smallWrites_superBlk {w : ℕ × Block} (hw : w ∈ smallWrites) (h0 : w.1 = sb0BlockNo) :
    w.2 = smallSuperBlk 0 := by
  simp only [smallWrites, List.mem_cons, List.not_mem_nil, or_false] at hw
  rcases hw with rfl | rfl | rfl | rfl | rfl | rfl | rfl
  case inr.inl => rfl
  all_goals cases h0

/-- Before each of them the state is one of this detection. -/
theorem smallWrites_before {pre post : List (ℕ × Block)} {w : ℕ × Block}
    (hpre : smallWrites = pre ++ w :: post) {outs : List (List Block)} {s : Ext2Sys SmrDev}
    (hrun : runModule awareEnv (fun _ => 0) (blockWrites pre) = .ok (outs, s)) :
    (s.metaCtr.status = .noSb0 ∨ IsSmallSuper s.metaCtr.sb0) ∧
      (∀ desc, s.dev.contents (sb0BlockNo + 1) = some desc → IsSmallDesc desc) ∧
        SmallVects s.metaCtr := by
  have harr : ∀ n < 7, (runOps arrayLayer true freshArray
      (blockWrites (smallWrites.take n))).toOption.any (fun r =>
        decide (r.2.metaCtr.status = .noSb0 ∨ IsSmallSuper r.2.metaCtr.sb0) &&
          (r.2.dev 1).all (fun desc => decide (IsSmallDesc desc)) &&
          decide (SmallVects r.2.metaCtr)) = true := by decide +kernel
  have hlt : pre.length < 7 := by
    have hlen : smallWrites.length = 7 := rfl
    rw [hpre, List.length_append, List.length_cons] at hlen
    omega
  have hn := harr pre.length hlt
  rw [hpre, List.take_left] at hn
  obtain ⟨⟨outs', t⟩, ht, -, hst⟩ := (runModule_refines awareEnv (fun _ => 0) _).ok_of_ok hrun
  change runOps arrayLayer true freshArray _ = _ at ht
  rw [ht] at hn
  simp only [Except.toOption, Option.any_some, Bool.and_eq_true, decide_eq_true_eq,
    Option.all_eq_true] at hn
  obtain ⟨⟨hsb, hdesc⟩, hvects⟩ := hn
  rw [← hst.metaCtr] at hsb hvects
  exact ⟨hsb, fun desc h => hdesc desc ((hst.dev.contents _ descBlk_lt).symm.trans h), hvects⟩

/-- So all that these writes come to is on the device. -/
theorem smallWrites_callOnDevice {pre post : List (ℕ × Block)} {w : ℕ × Block}
    (hpre : smallWrites = pre ++ w :: post) {outs : List (List Block)} {s : Ext2Sys SmrDev}
    (hrun : runModule awareEnv (fun _ => 0) (blockWrites pre) = .ok (outs, s)) :
    CallOnDevice s.dev.contents s.blkBmp s.metaCtr w.1 w.2 := by
  obtain ⟨hsb, hdesc, hvects⟩ := smallWrites_before hpre hrun
  have hmem : w ∈ smallWrites := by
    rw [hpre]
    exact List.mem_append_right _ List.mem_cons_self
  refine ⟨fun sb desc hdec => ?_, fun _ => hvects.testsOnDevice _ _⟩
  cases hdec with
  | start hs hblk hsb' _ _ _ hd =>
    refine descsOnDevice_small ?_ (hdesc desc hd) _ _
    rw [hsb', smallWrites_superBlk hmem hblk]
    decide +kernel
  | supers hs hsb' _ _ hd =>
    refine descsOnDevice_small ?_ (hdesc desc hd) _ _
    rw [hsb']
    exact hsb.resolve_left (by rw [hs]; decide)
  | descs hs hsb' hd =>
    refine descsOnDevice_small ?_ (hdesc desc hd) _ _
    rw [hsb']
    exact hsb.resolve_left (by rw [hs]; decide)

/-- A whole detection: the descriptor is decoded at the write of block 2, the vectors are tested at each
write from there on, and the write of block 9 reads the bitmap, in which block 10 is free. -/
theorem table_indices_on_device_small :
    (∃ outs s, runModule awareEnv (fun _ => 0) (blockWrites smallWrites) = .ok (outs, s) ∧
      s.metaCtr.status = .ext2Detected ∧ s.dev.contents 10 = none) ∧
      runModule awareEnv (fun _ => 0) (blockWrites smallWrites) ≠
        .error (.tableIndex totalSmrBlocksCnt) := by
  have hlt10 : 10 < totalSmrBlocksCnt := by
    rw [totalSmrBlocksCnt_eq]
    decide
  constructor
  · obtain ⟨outs, s, t, hrun, hst, ht⟩ := aware_state_of_array (blockWrites smallWrites)
      (fun t => decide (t.metaCtr.status = .ext2Detected) && (t.dev 10).isNone) (by decide +kernel)
    simp only [Bool.and_eq_true, decide_eq_true_eq] at ht
    refine ⟨outs, s, hrun, by rw [hst.metaCtr]; exact ht.1, ?_⟩
    rw [hst.dev.contents 10 hlt10]
    exact Option.isNone_iff_eq_none.mp ht.2
  · refine table_indices_on_device awareEnv rfl _ _ (fun w hw => smallWrites_lt hw)
      (fun pre w post outs s hpre _ _ h0 _ => ?_)
      (fun pre w post outs s hpre hrun => smallWrites_callOnDevice hpre hrun) totalSmrBlocksCnt
    have hmem : w ∈ smallWrites := by
      rw [hpre]
      exact List.mem_append_right _ List.mem_cons_self
    rw [smallWrites_superBlk hmem h0]
    exact smallSuperBlk_onDevice.2

/-- A descriptor whose block bitmap is past the end of the device. -/
def strayDescBlk : Block := Block.ofBytes [(2, 4), (4, 3), (8, 4)]

/-- **A descriptor that leads off the device.**  The super block is legal and its positions are on the
device; the third write looks at `mapping_table[262144]`. -/
theorem table_index_past_end :
    (Ext2SuperBlock.ofBlock (smallSuperBlk 0) firstSuperBlockOffset).isLegal = true ∧
      (Ext2SuperBlock.ofBlock (smallSuperBlk 0) firstSuperBlockOffset).OnDevice ∧
      runModule awareEnv (fun _ => 0)
        (blockWrites [(0, smallSuperBlk 0), (1, strayDescBlk), (2, 0)]) =
          .error (.tableIndex totalSmrBlocksCnt) := by
  refine ⟨smallSuperBlk_onDevice.1, smallSuperBlk_onDevice.2, ?_⟩
  have harr : runOps arrayLayer true freshArray
      (blockWrites [(0, smallSuperBlk 0), (1, strayDescBlk), (2, 0)]) =
        .error (.tableIndex totalSmrBlocksCnt) := by
    have h : (match runOps arrayLayer true freshArray
        (blockWrites [(0, smallSuperBlk 0), (1, strayDescBlk), (2, 0)]) with
      | .ok _ => false
      | .error e => decide (e = .tableIndex totalSmrBlocksCnt)) = true := by decide +kernel
    cases hres : runOps arrayLayer true freshArray
        (blockWrites [(0, smallSuperBlk 0), (1, strayDescBlk), (2, 0)]) with
    | ok r =>
      rw [hres] at h
      cases h
    | error e =>
      rw [hres] at h
      rw [of_decide_eq_true h]
  have hrefines := runModule_refines awareEnv (fun _ => 0)
    (blockWrites [(0, smallSuperBlk 0), (1, strayDescBlk), (2, 0)])
  change Refines _ _ _ (runOps arrayLayer true freshArray _) at hrefines
  rw [harr] at hrefines
  cases hres : runModule awareEnv (fun _ => 0)
      (blockWrites [(0, smallSuperBlk 0), (1, strayDescBlk), (2, 0)]) with
  | ok r =>
    rw [hres] at hrefines
    exact absurd hrefines id
  | error e =>
    rw [hres] at hrefines
    rcases hrefines with rfl | h
    · rfl
    · exact absurd h (not_pastEndFault awareEnv_pastEndNotFree e)

end MemSmr
