import MemSmr.OnDevice

/-!
# Detection in any order

The blocks of a file system are written to a fresh device, those with metadata once each, in any order
and among other writes.

* `Ext2Image`: a file system, as far as its detection is concerned.
* `Underway`: what the detector knows while the blocks are being written.
* `Detects.called`: one call leaves it so, and there is a block missing, or it ends the detection.
* `detected_in_any_order`: the write after the last one finds the file system.
-/

namespace MemSmr

open Outcome Ext2MetaCtr

/-! ## File systems -/

/-- The super block of a file system. -/
def superBlkOf (disk : ℕ → Block) : Ext2SuperBlock :=
  Ext2SuperBlock.ofBlock (disk sb0BlockNo) firstSuperBlockOffset

/-- Block `x` of a file system holds metadata of one class. -/
def IsMetaPos (disk : ℕ → Block) (x : ℕ) : MetaVectIndex → Prop
  | .sbIdx => (superBlkOf disk).IsSuperPos x
  | .bgDescIdx => (superBlkOf disk).IsDescPos x
  | .blkBmpIdx => (superBlkOf disk).IsBlkBmpPos disk x
  | .inoBmpIdx => (superBlkOf disk).IsInoBmpPos disk x
  | .inoTableIdx => ∃ g < (superBlkOf disk).gdCnt, ∃ i < (superBlkOf disk).tableBlks,
      x = (groupDesc disk g).bgInodeTable + i
  | .tmpIdx => False

/-- A well-formed file system.  That its metadata blocks are apart from each other and marked as used
makes no difference to the detection. -/
structure Ext2Image where
  disk : ℕ → Block
  legal : (superBlkOf disk).isLegal = true
  first : (superBlkOf disk).sFirstDataBlock = 0
  blocks : 0 < (superBlkOf disk).sBlocksCount
  backups : ∀ x, (superBlkOf disk).IsSuperPos x → x ≠ sb0BlockNo →
    (Ext2SuperBlock.ofBlock (disk x) 0).isLegal = true
  inside : ∀ x idx, IsMetaPos disk x idx → x < totalSmrBlocksCnt

/-- As many blocks as numbers that they come from, at most. -/
theorem SortedVector.size_le {v : SortedVector} {n : ℕ} {f : ℕ → ℕ}
    (h : ∀ x ∈ v, ∃ g < n, x = f g) : v.size ≤ n := by
  have hnodup : v.toList.Nodup := v.pairwise_toList.imp fun hlt => hlt.ne
  have hsub : v.toList ⊆ (List.range n).map f := fun x hx => by
    obtain ⟨g, hg, rfl⟩ := h x (SortedVector.mem_toList.mp hx)
    exact List.mem_map.mpr ⟨g, List.mem_range.mpr hg, rfl⟩
  have hle := (hnodup.subperm hsub).length_le
  rwa [SortedVector.length_toList, List.length_map, List.length_range] at hle

namespace Ext2Image

variable (I : Ext2Image)

abbrev superBlk : Ext2SuperBlock := superBlkOf I.disk

/-- Block `x` holds metadata. -/
def IsMeta (x : ℕ) : Prop := ∃ idx, IsMetaPos I.disk x idx

/-- The vectors of the control struct are the positions of the file system. -/
structure Found (m : Ext2MetaCtr) : Prop where
  status : m.status = .ext2Detected
  vects : ∀ idx x, x ∈ m.metaBlks idx ↔ IsMetaPos I.disk x idx

theorem small : I.superBlk.gdCnt ≤ 8 := by
  have hlt : I.superBlk.sFirstDataBlock < I.superBlk.sBlocksCount := by
    rw [I.first]
    exact I.blocks
  obtain ⟨-, -, -, -, htotal⟩ := Ext2SuperBlock.isLegal_iff.mp I.legal
  rw [Ext2SuperBlock.gdCnt_eq I.legal hlt]
  rw [totalSmrBlocksCnt_eq] at htotal
  omega

theorem isMeta_sb0 : I.IsMeta sb0BlockNo := ⟨.sbIdx, Or.inl rfl⟩

theorem isMeta_desc : I.IsMeta (sb0BlockNo + 1) := by
  have hblks := Ext2SuperBlock.gdBlks_eq_one I.small
  exact ⟨.bgDescIdx, sb0BlockNo, Or.inl rfl, 0, by rw [hblks]; exact Nat.one_pos, rfl⟩

theorem lt_of_isMeta {x : ℕ} (h : I.IsMeta x) : x < totalSmrBlocksCnt := by
  obtain ⟨idx, h⟩ := h
  exact I.inside x idx h

theorem onDevice : I.superBlk.OnDevice :=
  ⟨I.small, fun x hx => I.inside x .sbIdx hx, fun x hx => I.inside x .bgDescIdx hx⟩

/-- On the device a position in an inode table is not affected by the width of the numbers. -/
theorem isInoTablePos_iff (x : ℕ) :
    I.superBlk.IsInoTablePos I.disk x ↔ IsMetaPos I.disk x .inoTableIdx := by
  refine exists_congr fun g => and_congr_right fun hg => exists_congr fun i =>
    and_congr_right fun hi => ?_
  have hlt := I.inside _ .inoTableIdx ⟨g, hg, i, hi, rfl⟩
  rw [totalSmrBlocksCnt_eq] at hlt
  rw [Nat.mod_eq_of_lt (by omega)]

/-- What the descriptors of the file system give. -/
theorem mem_vects {m : Ext2MetaCtr} (h : VectorsAre m I.superBlk (I.disk (sb0BlockNo + 1)))
    (x : ℕ) : (x ∈ m.metaBlks .blkBmpIdx ↔ IsMetaPos I.disk x .blkBmpIdx) ∧
      (x ∈ m.metaBlks .inoBmpIdx ↔ IsMetaPos I.disk x .inoBmpIdx) ∧
      (x ∈ m.metaBlks .inoTableIdx ↔ IsMetaPos I.disk x .inoTableIdx) := by
  obtain ⟨h1, h2, h3⟩ := samePositions_disk I.small I.disk x
  exact ⟨(h.blkBmp x).trans h1, (h.inoBmp x).trans h2,
    (h.inoTable x).trans (h3.trans (I.isInoTablePos_iff x))⟩

/-- What the detector does with them stays on the device. -/
theorem testsOnDevice {m : Ext2MetaCtr} (h : VectorsAre m I.superBlk (I.disk (sb0BlockNo + 1)))
    (a : ArrayDisk) (b : Block) : TestsOnDevice a b m := by
  have hmem := I.mem_vects h
  refine ⟨Or.inl fun x hx => I.inside x .blkBmpIdx ((hmem x).1.mp hx),
    fun _ => Or.inl fun x hx => I.inside x .inoBmpIdx ((hmem x).2.1.mp hx),
    fun _ _ => Or.inl fun x hx => I.inside x .inoTableIdx ((hmem x).2.2.mp hx), ?_⟩
  intro _ n hn k hk _
  have hsize : (m.metaBlks .blkBmpIdx).size ≤ I.superBlk.gdCnt :=
    SortedVector.size_le fun x hx => (hmem x).1.mp hx
  have hsmall := I.small
  rw [h.sb0, Ext2SuperBlock.groupStart_eq I.legal (by omega), I.first, totalSmrBlocksCnt_eq]
  omega

end Ext2Image

/-! ## The detector at work -/

section Detecting

variable {I : Ext2Image} {ws : List (ℕ × Block)} {a : ArrayDisk}

/-- The metadata that has been written so far is on the device, and nothing else where metadata
belongs. -/
def Ext2Image.Stored (I : Ext2Image) (ws : List (ℕ × Block)) (a : ArrayDisk) : Prop :=
  ∀ x, I.IsMeta x → a x = if x ∈ ws.map Prod.fst then some (I.disk x) else none

/-- A write of metadata writes the block as the file system has it, for the first time. -/
def Ext2Image.Once (I : Ext2Image) (ws : List (ℕ × Block)) (w : ℕ × Block) : Prop :=
  I.IsMeta w.1 → w.2 = I.disk w.1 ∧ w.1 ∉ ws.map Prod.fst

/-- The detector has not found the file system yet. -/
inductive Underway (I : Ext2Image) (ws : List (ℕ × Block)) (a : ArrayDisk) (m : Ext2MetaCtr) : Prop
  | noSb0 (h0 : sb0BlockNo ∉ ws.map Prod.fst) (hs : m.status = .noSb0)
  | started (h0 : sb0BlockNo ∈ ws.map Prod.fst) (hin : m.InDetection) (hsb : m.sb0 = I.superBlk)
      (hphase : Phase a (I.disk (sb0BlockNo + 1)) m)

/-- The detector between two writes. -/
inductive Follows (I : Ext2Image) (ws : List (ℕ × Block)) (t : Ext2Sys ArrayDisk) : Prop
  | underway (hst : I.Stored ws t.dev) (h : Underway I ws t.dev t.metaCtr)
  | found (h0 : sb0BlockNo ∈ ws.map Prod.fst) (h : I.Found t.metaCtr)

/-- What a call of the detector leads to: it has found the file system, or a block is missing. -/
inductive Called (I : Ext2Image) (ws : List (ℕ × Block)) (a : ArrayDisk) (t₁ : Ext2Sys ArrayDisk) :
    Prop
  | underway (hdev : t₁.dev = a) (h : Underway I ws a t₁.metaCtr)
      (hmissing : ∃ x, I.IsMeta x ∧ ¬ HasBlock a x)
  | found (h0 : sb0BlockNo ∈ ws.map Prod.fst) (h : I.Found t₁.metaCtr)

theorem Ext2Image.Stored.eq_disk (h : I.Stored ws a) {x : ℕ} (hx : I.IsMeta x) {b : Block}
    (hb : a x = some b) : b = I.disk x := by
  rw [h x hx] at hb
  split_ifs at hb
  exact (Option.some.inj hb).symm

theorem Ext2Image.Stored.store (h : I.Stored ws a) {w : ℕ × Block} (hw : I.Once ws w) :
    I.Stored (ws ++ [w]) (Function.update a w.1 (some w.2)) := by
  intro x hx
  rw [List.map_append, List.map_singleton]
  by_cases hxw : x = w.1
  · rw [hxw, Function.update_self, (hw (hxw ▸ hx)).1, if_pos (by simp)]
  · rw [Function.update_of_ne hxw, h x hx]
    simp only [List.mem_append, List.mem_singleton, hxw, or_false]

theorem Underway.store {m : Ext2MetaCtr} (h : Underway I ws a m) (l : ℕ) (b : Block) :
    Underway I ws (Function.update a l (some b)) m := by
  cases h with
  | noSb0 h0 hs => exact .noSb0 h0 hs
  | started h0 hin hsb hphase => exact .started h0 hin hsb (hphase.store l b)

/-- Storing the block that is written. -/
theorem Called.store {t₁ : Ext2Sys ArrayDisk} {w : ℕ × Block} (h : Called I (ws ++ [w]) a t₁)
    (hst : I.Stored ws a) (hw : I.Once ws w) :
    Follows I (ws ++ [w]) { t₁ with dev := Function.update t₁.dev w.1 (some w.2) } := by
  cases h with
  | underway hdev h _ =>
    subst hdev
    exact .underway (hst.store hw) (h.store w.1 w.2)
  | found h0 h => exact .found h0 h

/-! ### What it waits for -/

/-- The copies of the super block that the detector waits for are metadata, and legal. -/
theorem othersLegal (hst : I.Stored ws a) {m : Ext2MetaCtr} (h : Sb0Phase m)
    (hsb : m.sb0 = I.superBlk) :
    (∀ x ∈ m.metaBlks .tmpIdx, I.IsMeta x) ∧ OthersLegal a m := by
  have hsmall : m.sb0.gdCnt ≤ 8 := by
    rw [hsb]
    exact I.small
  have hpos : ∀ x ∈ m.metaBlks .tmpIdx, I.superBlk.IsSuperPos x := fun x hx => by
    rw [← hsb, ← h.super_iff hsmall]
    exact (h.super x).mpr (Or.inr hx)
  refine ⟨fun x hx => ⟨.sbIdx, hpos x hx⟩, fun x hx b hb => ?_⟩
  rw [hst.eq_disk ⟨.sbIdx, hpos x hx⟩ hb]
  refine I.backups x (hpos x hx) ?_
  rintro rfl
  exact h.zero_notMem hx

theorem supersLegal (hst : I.Stored ws a) : SupersLegal a I.superBlk := fun x hx hne b hb => by
  rw [hst.eq_disk ⟨.sbIdx, hx⟩ hb]
  exact I.backups x hx hne

theorem exists_missing {v : SortedVector} (hv : ∀ x ∈ v, I.IsMeta x) (h : ¬ Mapped a v) :
    ∃ x, I.IsMeta x ∧ ¬ HasBlock a x := by
  simp only [Mapped, not_forall] at h
  obtain ⟨x, hx, hno⟩ := h
  exact ⟨x, hv x hx, hno⟩

/-- The vectors once the descriptors have been read. -/
theorem Decoded.mem_vects {m : Ext2MetaCtr} (h : Decoded a (I.disk (sb0BlockNo + 1)) m)
    (hsb : m.sb0 = I.superBlk) {idx : MetaVectIndex} (hidx : idx ≠ .tmpIdx) (x : ℕ) :
    x ∈ m.metaBlks idx ↔ IsMetaPos I.disk x idx := by
  have hvects := h.vectorsAre
  rw [hsb] at hvects
  have hmem := I.mem_vects hvects x
  cases idx with
  | sbIdx => rw [h.super, hsb]; rfl
  | bgDescIdx => rw [h.bgDesc, hsb]; rfl
  | blkBmpIdx => exact hmem.1
  | inoBmpIdx => exact hmem.2.1
  | inoTableIdx => exact hmem.2.2
  | tmpIdx => exact absurd rfl hidx

theorem DescsPhase.isMeta_tmp {m : Ext2MetaCtr} (h : DescsPhase a (I.disk (sb0BlockNo + 1)) m)
    (hsb : m.sb0 = I.superBlk) : ∀ x ∈ m.metaBlks .tmpIdx, I.IsMeta x := by
  intro x hx
  cases h with
  | bgDescs _ h htmp => exact ⟨_, (h.mem_vects hsb (by decide) x).mp ((htmp x).mp hx)⟩
  | blkBitmap _ h htmp => exact ⟨_, (h.mem_vects hsb (by decide) x).mp ((htmp x).mp hx)⟩
  | inoBitmap _ h htmp => exact ⟨_, (h.mem_vects hsb (by decide) x).mp ((htmp x).mp hx)⟩

/-- A detection that has gone through has found the file system. -/
theorem Finished.found {s : Ext2Sys ArrayDisk} (h : Finished a (I.disk (sb0BlockNo + 1)) s)
    (hsb : s.metaCtr.sb0 = I.superBlk) : I.Found s.metaCtr := by
  refine ⟨h.status, fun idx x => ?_⟩
  by_cases hidx : idx = .tmpIdx
  · rw [hidx]
    exact iff_of_false (h.tmp x) id
  · exact h.decoded.mem_vects hsb hidx x

theorem Advanced.called {s : Ext2Sys ArrayDisk}
    (h : Advanced a (I.disk (sb0BlockNo + 1)) I.superBlk s) (h0 : sb0BlockNo ∈ ws.map Prod.fst) :
    Called I ws a s := by
  obtain ⟨hsb, ⟨hdev, hphase, hwait⟩ | hfin⟩ := h
  · exact .underway hdev (.started h0 hphase.hasDescs.inDetection hsb (.descs hphase))
      (exists_missing (hphase.isMeta_tmp hsb) hwait)
  · exact .found h0 (hfin.found hsb)

theorem AfterSBs.called {s : Ext2Sys ArrayDisk} {ws' : List (ℕ × Block)}
    (h : AfterSBs a I.superBlk s) (hst : I.Stored ws' a) (h0 : sb0BlockNo ∈ ws.map Prod.fst) :
    Called I ws a s := by
  obtain ⟨hdev, hsb, hphase, hwait⟩ | ⟨desc, hdesc, h⟩ := h
  · have hin : s.metaCtr.InDetection :=
      ⟨by rw [hphase.status]; decide, by rw [hphase.status]; decide⟩
    exact .underway hdev (.started h0 hin hsb (.sbs hphase)) ⟨_, I.isMeta_desc, hwait⟩
  · rw [hst.eq_disk I.isMeta_desc hdesc] at h
    exact h.called h0

/-! ### One call -/

theorem Phase.sb0Phase {desc : Block} {m : Ext2MetaCtr} (h : Phase a desc m)
    (hs : m.status = .sb0Detected) : Sb0Phase m := by
  cases h with
  | noSb0 hs' => exact absurd (hs.symm.trans hs') (by decide)
  | sb0 h => exact h
  | sbs h => exact absurd (hs.symm.trans h.status) (by decide)
  | descs h => rcases h.hasDescs with h | h | h <;> exact absurd (hs.symm.trans h) (by decide)
  | ext2 hs' => exact absurd (hs.symm.trans hs') (by decide)

theorem Phase.descsPhase {desc : Block} {m : Ext2MetaCtr} (h : Phase a desc m)
    (hs : m.HasDescs) : DescsPhase a desc m := by
  cases h with
  | noSb0 hs' => exact absurd hs' hs.inDetection.1
  | sb0 h => rcases hs with hs | hs | hs <;> exact absurd (hs.symm.trans h.status) (by decide)
  | sbs h => rcases hs with hs | hs | hs <;> exact absurd (hs.symm.trans h.status) (by decide)
  | descs h => exact h
  | ext2 hs' => exact absurd hs' hs.inDetection.2

theorem Ext2Image.Once.sb0 {w : ℕ × Block} (h : I.Once ws w) (hblk : w.1 = sb0BlockNo) :
    Ext2SuperBlock.ofBlock w.2 firstSuperBlockOffset = I.superBlk := by
  have hw := (h (hblk ▸ I.isMeta_sb0)).1
  rw [hw, hblk]
  rfl

theorem Detects.called {t t₁ : Ext2Sys ArrayDisk} {w : ℕ × Block}
    (hdet : Detects t (I.disk (sb0BlockNo + 1)) w.2 w.1 t₁) (hst : I.Stored ws t.dev)
    (h : Underway I ws t.dev t.metaCtr) (hw : I.Once ws w) : Called I (ws ++ [w]) t.dev t₁ := by
  have hmem : sb0BlockNo ∈ (ws ++ [w]).map Prod.fst ↔
      sb0BlockNo ∈ ws.map Prod.fst ∨ sb0BlockNo = w.1 := by simp
  cases h with
  | noSb0 h0 hs =>
    have h0' : w.1 = sb0BlockNo → sb0BlockNo ∈ (ws ++ [w]).map Prod.fst := fun hblk =>
      hmem.mpr (Or.inr hblk.symm)
    cases hdet with
    | idle hwait h =>
      subst h
      have hne : w.1 ≠ sb0BlockNo := by
        intro hblk
        cases hwait with
        | noSb0 _ hno => exact hno ⟨hblk, by rw [hw.sb0 hblk]; exact I.legal⟩
        | sb0 hs' => exact absurd (hs.symm.trans hs') (by decide)
        | ext2 hs' => exact absurd (hs.symm.trans hs') (by decide)
      have hnone : t₁.dev sb0BlockNo = none := (hst _ I.isMeta_sb0).trans (if_neg h0)
      refine .underway rfl (.noSb0 (fun hin => ?_) hs) ⟨_, I.isMeta_sb0, fun hblk => ?_⟩
      · exact (hmem.mp hin).elim h0 (Ne.symm hne)
      · have hsome := hblk.2
        rw [hnone] at hsome
        cases hsome
    | recheck hs' => exact absurd (hs.symm.trans hs') (by decide)
    | back hback _ _ =>
      cases hback with
      | noSb0 _ hblk hno => exact absurd (hw.sb0 hblk ▸ supersLegal hst) hno
      | sb0 hs' => exact absurd (hs.symm.trans hs') (by decide)
      | ext2 hs' => exact absurd (hs.symm.trans hs') (by decide)
    | start _ hblk hlegal hdev hsb hphase hwait =>
      rw [hw.sb0 hblk] at hsb
      have hin : t₁.metaCtr.InDetection :=
        ⟨by rw [hphase.status]; decide, by rw [hphase.status]; decide⟩
      exact .underway hdev (.started (h0' hblk) hin hsb (.sb0 hphase))
        (exists_missing (othersLegal hst hphase hsb).1 hwait)
    | startOn _ hblk _ _ h =>
      rw [hw.sb0 hblk] at h
      exact h.called hst (h0' hblk)
    | supers hphase => exact absurd (hs.symm.trans hphase.status) (by decide)
    | descs hphase => exact absurd (hs.symm.trans hphase.status) (by decide)
    | rest hphase => exact absurd hs hphase.hasDescs.inDetection.1
  | started h0 hin hsb hphase =>
    have h0' := hmem.mpr (Or.inl h0)
    cases hdet with
    | idle hwait h =>
      subst h
      cases hwait with
      | noSb0 hs => exact absurd hs hin.1
      | sb0 hs hwait =>
        exact .underway rfl (.started h0' hin hsb hphase)
          (exists_missing (othersLegal hst (hphase.sb0Phase hs) hsb).1 hwait)
      | ext2 hs => exact absurd hs hin.2
    | recheck hs => exact absurd hs hin.2
    | back hback _ _ =>
      cases hback with
      | noSb0 hs => exact absurd hs hin.1
      | sb0 hs _ hno => exact absurd (othersLegal hst (hphase.sb0Phase hs) hsb).2 hno
      | ext2 hs => exact absurd hs hin.2
    | start hs => exact absurd hs hin.1
    | startOn hs => exact absurd hs hin.1
    | supers _ _ _ h =>
      rw [hsb] at h
      exact h.called hst h0'
    | descs _ h =>
      rw [hsb] at h
      exact h.called hst h0'
    | rest _ h =>
      rw [hsb] at h
      exact h.called h0'

/-- A file system that has been found stays so until block 0 is written again. -/
theorem Detects.found {t t₁ : Ext2Sys ArrayDisk} {desc buf : Block} {blkNo : ℕ}
    (hdet : Detects t desc buf blkNo t₁) (h : I.Found t.metaCtr) (hne : blkNo ≠ sb0BlockNo) :
    I.Found t₁.metaCtr := by
  have hs := h.status
  cases hdet with
  | idle _ ht => rwa [ht]
  | recheck _ _ hs' hblks => exact ⟨hs', fun idx x => by rw [hblks]; exact h.vects idx x⟩
  | back hback _ _ =>
    cases hback with
    | noSb0 hs' => exact absurd (hs.symm.trans hs') (by decide)
    | sb0 hs' => exact absurd (hs.symm.trans hs') (by decide)
    | ext2 _ hblk => exact absurd hblk hne
  | start hs' => exact absurd (hs.symm.trans hs') (by decide)
  | startOn hs' => exact absurd (hs.symm.trans hs') (by decide)
  | supers hphase => exact absurd (hs.symm.trans hphase.status) (by decide)
  | descs hphase => exact absurd (hs.symm.trans hphase.status) (by decide)
  | rest hphase => exact absurd hs hphase.hasDescs.inDetection.2

/-! ### One write -/

theorem Follows.phase {t : Ext2Sys ArrayDisk} (h : Follows I ws t) :
    Phase t.dev (I.disk (sb0BlockNo + 1)) t.metaCtr := by
  cases h with
  | underway _ h =>
    cases h with
    | noSb0 _ hs => exact .noSb0 hs
    | started _ _ _ hphase => exact hphase
  | found _ h => exact .ext2 h.status fun x hx => (h.vects .tmpIdx x).mp hx

theorem Follows.known {t : Ext2Sys ArrayDisk} (h : Follows I ws t) : Known t := by
  refine ⟨⟨_, h.phase⟩, ?_⟩
  cases h with
  | underway _ h =>
    cases h with
    | noSb0 _ hs => exact knownOnDevice_noSb0 hs
    | started _ hin hsb _ =>
      exact ⟨fun _ => by rw [hsb]; exact I.onDevice, fun hs => absurd hs hin.2⟩
  | found _ h =>
    exact ⟨fun hin => absurd h.status hin.2, fun _ idx _ x hx =>
      I.inside x idx ((h.vects idx x).mp hx)⟩

/-- The numbers that a call comes to are those of the file system. -/
theorem Follows.callOnDevice {t : Ext2Sys ArrayDisk} {w : ℕ × Block} (h : Follows I ws t)
    (hw : I.Once ws w) : CallOnDevice t.dev t.blkBmp t.metaCtr w.1 w.2 := by
  cases h with
  | underway hst h =>
    refine ⟨fun sb desc hdec m hm => ?_, fun hdescs => ?_⟩
    · have hsb : sb = I.superBlk ∧ t.dev (sb0BlockNo + 1) = some desc := by
        cases h with
        | noSb0 _ hs =>
          cases hdec with
          | start _ hblk hsb _ _ _ hdesc => exact ⟨hsb.trans (hw.sb0 hblk), hdesc⟩
          | supers hs' => exact absurd (hs.symm.trans hs') (by decide)
          | descs hs' => exact absurd (hs.symm.trans hs') (by decide)
        | started _ hin hsb _ =>
          cases hdec with
          | start hs' => exact absurd hs' hin.1
          | supers _ hsb' _ _ hdesc => exact ⟨hsb'.trans hsb, hdesc⟩
          | descs _ hsb' hdesc => exact ⟨hsb'.trans hsb, hdesc⟩
      rw [hsb.1, hst.eq_disk I.isMeta_desc hsb.2] at hm
      exact I.testsOnDevice hm _ _
    · cases h with
      | noSb0 _ hs => exact absurd hs hdescs.inDetection.1
      | started _ _ hsb hphase =>
        have hvects := (hphase.descsPhase hdescs).decoded.vectorsAre
        rw [hsb] at hvects
        exact I.testsOnDevice hvects _ _
  | found _ h =>
    refine ⟨fun sb desc hdec => ?_, fun hdescs => absurd h.status hdescs.inDetection.2⟩
    cases hdec with
    | start hs' => exact absurd (h.status.symm.trans hs') (by decide)
    | supers hs' => exact absurd (h.status.symm.trans hs') (by decide)
    | descs hs' => exact absurd (h.status.symm.trans hs') (by decide)

/-- **One write.**  It returns; while the file system has not been found, a block was missing. -/
theorem Follows.writeOne {t : Ext2Sys ArrayDisk} {w : ℕ × Block} (h : Follows I ws t)
    (hw : I.Once ws w) (hlt : w.1 < totalSmrBlocksCnt) :
    ∃ t', t.writeOne arrayLayer true w.2 w.1 = .ok t' ∧ Follows I (ws ++ [w]) t' ∧
      ((∀ x, I.IsMeta x → x ∈ ws.map Prod.fst) → I.Found t'.metaCtr) := by
  have hsuper : SuperOnDevice t.metaCtr w.1 w.2 := fun _ hblk _ => by
    rw [hw.sb0 hblk]
    exact I.onDevice
  obtain ⟨t₁, hcall, hone, -⟩ := writeOne_ok_of_onDevice h.known hlt hsuper (h.callOnDevice hw)
  have hdet := (detectExt2Fs_spec h.phase w.2 w.1).of_ok hcall
  refine ⟨_, hone, ?_⟩
  cases h with
  | underway hst h =>
    have hcalled := hdet.called hst h hw
    refine ⟨hcalled.store hst hw, fun hall => ?_⟩
    cases hcalled with
    | underway _ _ hmissing =>
      obtain ⟨x, hx, hno⟩ := hmissing
      refine absurd ⟨I.lt_of_isMeta hx, ?_⟩ hno
      rw [hst x hx, if_pos (hall x hx)]
      rfl
    | found _ h => exact h
  | found h0 h =>
    have hne : w.1 ≠ sb0BlockNo := by
      intro hblk
      exact (hw (hblk ▸ I.isMeta_sb0)).2 (hblk ▸ h0)
    have hfound := hdet.found h hne
    refine ⟨.found ?_ hfound, fun _ => hfound⟩
    rw [List.map_append]
    exact List.mem_append_left _ h0

end Detecting

/-! ## Runs -/

/-- Every metadata block is written once, and as the file system has it. -/
def Ext2Image.WrittenOnce (I : Ext2Image) (ws : List (ℕ × Block)) : Prop :=
  ∀ x, I.IsMeta x → ws.filter (fun w => w.1 = x) = [(x, I.disk x)]

theorem Ext2Image.WrittenOnce.once {I : Ext2Image} {ws pre post : List (ℕ × Block)}
    {w : ℕ × Block} (h : I.WrittenOnce ws) (hws : ws = pre ++ w :: post) : I.Once pre w := by
  intro hmeta
  have hfilter := h w.1 hmeta
  rw [hws, List.filter_append, List.filter_cons_of_pos (by simp)] at hfilter
  obtain ⟨hpre, hcons⟩ | ⟨-, hnil⟩ := List.append_eq_singleton_iff.mp hfilter
  · refine ⟨congrArg Prod.snd (List.cons.inj hcons).1, fun hin => ?_⟩
    obtain ⟨v, hv, hvw⟩ := List.mem_map.mp hin
    have hmem : v ∈ pre.filter fun v => v.1 = w.1 := List.mem_filter.mpr ⟨hv, decide_eq_true hvw⟩
    rw [hpre] at hmem
    cases hmem
  · cases hnil

theorem Ext2Image.WrittenOnce.mem {I : Ext2Image} {ws : List (ℕ × Block)} (h : I.WrittenOnce ws)
    {x : ℕ} (hx : I.IsMeta x) : x ∈ ws.map Prod.fst := by
  have hmem : (x, I.disk x) ∈ ws.filter fun w => w.1 = x := by
    rw [h x hx]
    exact List.mem_singleton_self _
  exact List.mem_map.mpr ⟨_, (List.mem_filter.mp hmem).1, rfl⟩

theorem HostOp.writes_lt {op : HostOp} (h : op.InRange) {w : ℕ × Block} (hw : w ∈ op.writes) :
    w.1 < totalSmrBlocksCnt := by
  cases op with
  | write blkNo bufs =>
    obtain ⟨⟨b, i⟩, hi, rfl⟩ := List.mem_map.mp hw
    have hlt := List.snd_lt_add_of_mem_zipIdx hi
    exact hlt.trans_le h
  | read blkNo bufs => cases hw

/-- A run that writes the metadata blocks once each follows the file system. -/
theorem runOps_follows {I : Ext2Image} {ops : List HostOp} (hops : ∀ op ∈ ops, op.InRange)
    (hmeta : I.WrittenOnce (ops.flatMap HostOp.writes)) :
    ∃ outs t, runOps arrayLayer true freshArray ops = .ok (outs, t) ∧
      Follows I (ops.flatMap HostOp.writes) t := by
  have hrun : Meets NoFault (fun r => Follows I (ops.flatMap HostOp.writes) r.2)
      (runOps arrayLayer true freshArray ops) := by
    refine meets_runOps_written (P := Follows I) (List.nil_append _).symm hops ?_ ?_
      fun _ _ _ _ _ h => h
    · exact .underway (fun x _ => (if_neg List.not_mem_nil).symm)
        (.noSb0 List.not_mem_nil rfl)
    · intro pre w post s hws h
      have hw : w ∈ ops.flatMap HostOp.writes := by
        rw [hws]
        exact List.mem_append_right _ List.mem_cons_self
      obtain ⟨op, hop, hw⟩ := List.mem_flatMap.mp hw
      obtain ⟨t', ht', h', -⟩ := h.writeOne (hmeta.once hws) (HostOp.writes_lt (hops op hop) hw)
      rw [ht']
      exact h'
  obtain ⟨⟨outs, t⟩, hres⟩ := exists_of_meets (Q := fun _ => True) (hrun.mono fun _ _ => trivial)
  exact ⟨outs, t, hres, hrun.of_ok hres⟩

/-- **Detection in any order.**  The metadata blocks of a well-formed file system are written to a
fresh device once each, in any order and among reads and writes of other blocks.  Then the next write
to a block without metadata leaves the status `EXT2_DETECTED` and the positions of the file system in
the vectors. -/
theorem detected_in_any_order (env : Env) (haware : env.aware = true) (data : ℕ → Block)
    (I : Ext2Image) (ops : List HostOp) (hops : ∀ op ∈ ops, op.InRange)
    (hmeta : I.WrittenOnce (ops.flatMap HostOp.writes)) (blkNo : ℕ) (buf : Block)
    (hlt : blkNo < totalSmrBlocksCnt) (hblk : ¬ I.IsMeta blkNo) :
    (env.PastEndNotFree →
      ∃ outs s, runModule env data (ops ++ [.write blkNo [buf]]) = .ok (outs, s)) ∧
      ∀ outs s, runModule env data (ops ++ [.write blkNo [buf]]) = .ok (outs, s) →
        I.Found s.metaCtr := by
  obtain ⟨outs, t, harr, hfollows⟩ := runOps_follows hops hmeta
  obtain ⟨t', hone, -, hfound⟩ :=
    hfollows.writeOne (w := (blkNo, buf)) (fun h => absurd h hblk) hlt
  obtain ⟨outs', harr'⟩ := runOps_snoc harr hone
  have hrefines := runModule_refines env data (ops ++ [.write blkNo [buf]])
  rw [haware, harr'] at hrefines
  cases hres : runModule env data (ops ++ [.write blkNo [buf]]) with
  | error e =>
    rw [hres] at hrefines
    exact ⟨fun hpast => absurd hrefines (not_pastEndFault hpast e), fun _ _ h => nomatch h⟩
  | ok r =>
    rw [hres] at hrefines
    refine ⟨fun _ => ⟨r.1, r.2, rfl⟩, ?_⟩
    rintro outs s ⟨⟩
    rw [hrefines.2.metaCtr]
    exact hfound fun x hx => hmeta.mem hx

/-! ## A small file system -/

/-- The contents of a file system of one group. -/
def smallDisk (x : ℕ) : Block := [smallSuperBlk 0, smallDescBlk, fun _ => 0xFF].getD x 0

theorem smallDisk_pos {x : ℕ} {idx : MetaVectIndex} (h : IsMetaPos smallDisk x idx) : x < 5 := by
  have hgroups : ∀ {g}, g < (superBlkOf smallDisk).gdCnt → g = 0 := by
    have hcnt : (superBlkOf smallDisk).gdCnt = 1 := by decide +kernel
    intro g hg
    omega
  have hsuper : ∀ {x}, (superBlkOf smallDisk).IsSuperPos x → x = sb0BlockNo := by
    rintro x (rfl | ⟨g, hg, hsparse, -⟩)
    · rfl
    · obtain rfl := hgroups hg
      exact absurd (hsparse.lt_of_lt (by decide)).1 (by decide)
  cases idx with
  | sbIdx =>
    rw [hsuper h]
    decide
  | bgDescIdx =>
    obtain ⟨y, hy, i, hi, rfl⟩ := h
    have hblks : (superBlkOf smallDisk).gdBlks = 1 := by decide +kernel
    rw [hsuper hy]
    change 0 + 1 + i < 5
    omega
  | blkBmpIdx =>
    obtain ⟨g, hg, rfl⟩ := h
    obtain rfl := hgroups hg
    decide +kernel
  | inoBmpIdx =>
    obtain ⟨g, hg, rfl⟩ := h
    obtain rfl := hgroups hg
    decide +kernel
  | inoTableIdx =>
    obtain ⟨g, hg, i, hi, rfl⟩ := h
    obtain rfl := hgroups hg
    have htable : (groupDesc smallDisk 0).bgInodeTable = 4 := by decide +kernel
    have hblks : (superBlkOf smallDisk).tableBlks = 1 := by decide +kernel
    omega
  | tmpIdx => exact absurd h id

def smallImage : Ext2Image where
  disk := smallDisk
  legal := by decide +kernel
  first := by decide +kernel
  blocks := by decide +kernel
  backups x hx hne := by
    obtain rfl | ⟨g, hg, hsparse, -⟩ := hx
    · exact absurd rfl hne
    · have hcnt : (superBlkOf smallDisk).gdCnt = 1 := by decide +kernel
      obtain rfl : g = 0 := by omega
      exact absurd (hsparse.lt_of_lt (by decide)).1 (by decide)
  inside x idx h := by
    have hlt := smallDisk_pos h
    rw [totalSmrBlocksCnt_eq]
    omega

/-- It is written backwards, with a write of another block in between. -/
theorem detected_in_any_order_backwards :
    (awareEnv.PastEndNotFree → ∃ outs s, runModule awareEnv (fun _ => 0)
      (blockWrites [(4, 0), (3, 0), (9, 0), (2, fun _ => 0xFF), (1, smallDescBlk),
        (0, smallSuperBlk 0)] ++ [.write 7 [0]]) = .ok (outs, s)) ∧
      ∀ outs s, runModule awareEnv (fun _ => 0)
        (blockWrites [(4, 0), (3, 0), (9, 0), (2, fun _ => 0xFF), (1, smallDescBlk),
          (0, smallSuperBlk 0)] ++ [.write 7 [0]]) = .ok (outs, s) →
        smallImage.Found s.metaCtr := by
  refine detected_in_any_order awareEnv rfl _ smallImage _ ?_ ?_ 7 0 ?_ ?_
  · intro op hop
    obtain ⟨w, hw, rfl⟩ := List.mem_map.mp hop
    have hlt : w.1 ≤ 9 := by
      simp only [List.mem_cons, List.not_mem_nil, or_false] at hw
      rcases hw with rfl | rfl | rfl | rfl | rfl | rfl <;> decide
    change w.1 + 1 ≤ totalSmrBlocksCnt
    rw [totalSmrBlocksCnt_eq]
    omega
  · rintro x ⟨idx, h⟩
    have hlt := smallDisk_pos h
    interval_cases x <;> rfl
  · rw [totalSmrBlocksCnt_eq]
    decide
  · rintro ⟨idx, h⟩
    exact absurd (smallDisk_pos h) (by decide)

end MemSmr
