import MemSmr.Steady

/-!
# The detected layout is the layout on disk

* `LayoutIsOn`: the super block and the positions that the detector has recorded are those on disk.
* `detected_layout`: so it is when a detection ends, if no write has changed the super block or the
  descriptors behind the back of the detector.
* `detected_layout_stale`: a write that ends the detection and changes the super block.
-/

namespace MemSmr

open Outcome

/-- What the host reads into buffers of zeros. -/
def ArrayDisk.disk (a : ArrayDisk) : ℕ → Block := fun x => (a x).getD 0

/-- The recorded layout is the layout on the disk `D`: the copy of the super block is the one in
block 0, and the vectors are what the super block and the descriptors after it say. -/
structure LayoutIsOn (m : Ext2MetaCtr) (D : ArrayDisk) : Prop where
  sb0 : ∃ b, D sb0BlockNo = some b ∧ m.sb0 = Ext2SuperBlock.ofBlock b firstSuperBlockOffset
  descs : ∀ i < m.sb0.gdBlks, (D (sb0BlockNo + 1 + i)).isSome = true
  super : ∀ x, x ∈ m.metaBlks .sbIdx ↔ m.sb0.IsSuperPos x
  bgDesc : ∀ x, x ∈ m.metaBlks .bgDescIdx ↔ m.sb0.IsDescPos x
  blkBmp : ∀ x, x ∈ m.metaBlks .blkBmpIdx ↔ m.sb0.IsBlkBmpPos D.disk x
  inoBmp : ∀ x, x ∈ m.metaBlks .inoBmpIdx ↔ m.sb0.IsInoBmpPos D.disk x
  inoTable : ∀ x, x ∈ m.metaBlks .inoTableIdx ↔ m.sb0.IsInoTablePos D.disk x

/-! ## What has to stay the same -/

/-- Two descriptor blocks give the same positions. -/
structure SamePositions (sb : Ext2SuperBlock) (desc desc' : Block) : Prop where
  blkBmp : ∀ x, sb.IsBlkBmpPos (fun _ => desc) x ↔ sb.IsBlkBmpPos (fun _ => desc') x
  inoBmp : ∀ x, sb.IsInoBmpPos (fun _ => desc) x ↔ sb.IsInoBmpPos (fun _ => desc') x
  inoTable : ∀ x, sb.IsInoTablePos (fun _ => desc) x ↔ sb.IsInoTablePos (fun _ => desc') x

/-- The super block stays as it is, and the descriptors go on giving the same positions. -/
def layoutLikeness : Likeness where
  sameSb := Eq
  sameDesc := SamePositions
  sb_refl _ := rfl
  desc_refl _ _ := ⟨fun _ => Iff.rfl, fun _ => Iff.rfl, fun _ => Iff.rfl⟩
  desc_trans h h' := ⟨fun x => (h.blkBmp x).trans (h'.blkBmp x),
    fun x => (h.inoBmp x).trans (h'.inoBmp x), fun x => (h.inoTable x).trans (h'.inoTable x)⟩

/-- The descriptors of a small file system are those in the block after block 0. -/
theorem groupDesc_small (disk : ℕ → Block) {g : ℕ} (h : g < 8) :
    groupDesc disk g = groupDesc (fun _ => disk (sb0BlockNo + 1)) g := by
  have hdiv : g / (ext2BlockSize / sizeofGroupDesc) = 0 := Nat.div_eq_of_lt (by
    have : ext2BlockSize / sizeofGroupDesc = 128 := by decide
    omega)
  rw [groupDesc, groupDesc, hdiv]

theorem samePositions_disk {sb : Ext2SuperBlock} (h : sb.gdCnt ≤ 8) (disk : ℕ → Block) (x : ℕ) :
    (sb.IsBlkBmpPos (fun _ => disk (sb0BlockNo + 1)) x ↔ sb.IsBlkBmpPos disk x) ∧
      (sb.IsInoBmpPos (fun _ => disk (sb0BlockNo + 1)) x ↔ sb.IsInoBmpPos disk x) ∧
      (sb.IsInoTablePos (fun _ => disk (sb0BlockNo + 1)) x ↔ sb.IsInoTablePos disk x) := by
  have hgroup : ∀ g < sb.gdCnt, groupDesc disk g =
      groupDesc (fun _ => disk (sb0BlockNo + 1)) g := fun g hg => groupDesc_small disk (by omega)
  refine ⟨exists_congr fun g => and_congr_right fun hg => ?_,
    exists_congr fun g => and_congr_right fun hg => ?_,
    exists_congr fun g => and_congr_right fun hg => ?_⟩
  · rw [hgroup g hg]
  · rw [hgroup g hg]
  · rw [hgroup g hg]

theorem layoutIsOn_of_recorded {a D : ArrayDisk} {desc : Block} {m : Ext2MetaCtr}
    (h : Decoded a desc m) (hrec : Recorded layoutLikeness desc D m) : LayoutIsOn m D := by
  obtain ⟨b, hb, hlike⟩ := hrec.descs
  have hb' : D.disk (sb0BlockNo + 1) = b := by
    rw [ArrayDisk.disk, hb, Option.getD_some]
  have hpos := samePositions_disk h.small D.disk
  rw [hb'] at hpos
  refine ⟨hrec.super, fun i hi => ?_, h.super, h.bgDesc, fun x => ?_, fun x => ?_, fun x => ?_⟩
  · rw [Ext2SuperBlock.gdBlks_eq_one h.small, Nat.lt_one_iff] at hi
    rw [hi, Nat.add_zero, hb]
    rfl
  · exact (h.blkBmp x).trans ((hlike.blkBmp x).trans (hpos x).1)
  · exact (h.inoBmp x).trans ((hlike.inoBmp x).trans (hpos x).2.1)
  · exact (h.inoTable x).trans ((hlike.inoTable x).trans (hpos x).2.2)

/-! ## Runs -/

/-- **The detected layout is the layout on disk.**  When a write ends a detection, the detector has
recorded the super block and the positions that the host sees on disk with this write applied, if no
write of the run has changed the super block or the descriptors behind its back. -/
theorem detected_layout (env : Env) (haware : env.aware = true) (data : ℕ → Block)
    (ops : List HostOp) (outs : List (List Block)) (s : Ext2Sys SmrDev)
    (hrun : runModule env data ops = .ok (outs, s))
    (hkeeps : ∀ st ∈ trace (smrLayer env) env.aware (initSmrDisk (freshModule data)) ops,
      Keeps layoutLikeness st.before.dev.contents st.before.metaCtr st.blkNo st.buf) :
    ∀ st ∈ trace (smrLayer env) env.aware (initSmrDisk (freshModule data)) ops,
      st.before.metaCtr.status ≠ .ext2Detected → st.after.metaCtr.status = .ext2Detected →
        LayoutIsOn st.after.metaCtr
          (Function.update st.before.dev.contents st.blkNo (some st.buf)) := by
  let Inv : Ext2Sys ArrayDisk → Unit → Prop := fun t _ =>
    ∃ desc, Tracks layoutLikeness desc t.dev t.metaCtr
  have hstep : StepRule env.aware Shows Inv (fun v _ => v)
      (fun st => Keeps layoutLikeness st.before.dev.contents st.before.metaCtr st.blkNo st.buf)
      (fun st => st.before.metaCtr.status ≠ .ext2Detected →
        st.after.metaCtr.status = .ext2Detected → LayoutIsOn st.after.metaCtr
          (Function.update st.before.dev.contents st.blkNo (some st.buf))) := by
    rintro st t t' - hbefore hafter hwrite ⟨desc, ht⟩ hk
    rw [haware] at hwrite
    rw [hbefore.metaCtr] at hk
    obtain ⟨t₁, -, rfl, desc', ht', hend⟩ := writeOne_steady ht
      (hk.congr hbefore.dev.contents) hwrite
    refine ⟨⟨desc', ht'⟩, fun hne heq => ?_⟩
    rw [hbefore.metaCtr] at hne
    rw [hafter.metaCtr] at heq ⊢
    obtain ⟨⟨-, hdec, -⟩, hrec⟩ := hend hne heq
    exact layoutIsOn_of_recorded hdec (hrec.store_congr hbefore.dev.contents)
  exact (trace_rule (smrLayer_sim env) hstep (v := ()) (shows_init data)
    ⟨0, tracks_freshArray⟩ hkeeps hrun).1

/-! ## A small file system -/

/-- A block with the given bytes at the given offsets and zeros elsewhere. -/
def Block.ofBytes (l : List (ℕ × UInt8)) : Block := fun i => (l.lookup i.val).getD 0

/-- Block 0 of a file system with one group of 32768 blocks; `k` is the low byte of
`s_inodes_count`. -/
def smallSuperBlk (k : UInt8) : Block :=
  Block.ofBytes [(0x400, k), (0x405, 0x80), (0x418, 2), (0x421, 0x80), (0x428, 32), (0x438, 0x53),
    (0x439, 0xEF)]

/-- Block 0 of a file system with 32768 blocks in each group; `lo` and `hi` are the bytes 1 and 2 of
`s_blocks_count`. -/
def groupedSuperBlk (lo hi : UInt8) : Block :=
  Block.ofBytes [(0x405, lo), (0x406, hi), (0x418, 2), (0x421, 0x80), (0x428, 32), (0x438, 0x53),
    (0x439, 0xEF)]

/-- The descriptor of the one group: the block bitmap is block 2, the inode bitmap block 3, the inode
table block 4. -/
def smallDescBlk : Block := Block.ofBytes [(0, 2), (4, 3), (8, 4)]

/-- The block bitmap of that group: block 10 is free. -/
def smallBmpBlk : Block := fun i => if i.val = 1 then 0xFB else 0xFF

/-- Block 10 is written, and then the file system; the write of block 9 ends the detection. -/
def smallWrites : List (ℕ × Block) :=
  [(10, 0), (0, smallSuperBlk 0), (1, smallDescBlk), (2, smallBmpBlk), (3, 0), (4, 0), (9, 0)]

/-- The parameters of a run with the detector on. -/
def awareEnv : Env := ⟨true, false, fun _ => .other 0⟩

theorem awareEnv_pastEndNotFree : awareEnv.PastEndNotFree := fun _ h => by cases h

/-- A run with the detector on ends if it does so over the plain array, and makes the same writes. -/
theorem aware_run_of_array (ops : List HostOp)
    (h : (runOps arrayLayer true freshArray ops).toOption.isSome = true) :
    ∃ outs s, runModule awareEnv (fun _ => 0) ops = .ok (outs, s) ∧
      List.Forall₂ (StepRel Shows)
        (trace (smrLayer awareEnv) true (initSmrDisk (freshModule fun _ => 0)) ops)
        (trace arrayLayer true freshArray ops) := by
  have hrefines := runModule_refines awareEnv (fun _ => 0) ops
  have hindex : ∀ i, runModule awareEnv (fun _ => 0) ops ≠ .error (.tableIndex i) := by
    intro i hres
    cases harr : runOps arrayLayer true freshArray ops with
    | ok r =>
      rw [hres] at hrefines
      change Refines _ _ _ (runOps arrayLayer true freshArray ops) at hrefines
      rw [harr] at hrefines
      exact not_pastEndFault awareEnv_pastEndNotFree _ hrefines
    | error e =>
      rw [harr] at h
      cases h
  obtain ⟨outs, s, hrun⟩ := runModule_ok awareEnv_pastEndNotFree hindex
  exact ⟨outs, s, hrun, trace_refines (smrLayer_sim awareEnv) (shows_init _) hrun⟩

/-- The state at the end of such a run shows the array. -/
theorem aware_state_of_array (ops : List HostOp) (P : Ext2Sys ArrayDisk → Bool)
    (h : (runOps arrayLayer true freshArray ops).toOption.any (fun r => P r.2) = true) :
    ∃ outs s t, runModule awareEnv (fun _ => 0) ops = .ok (outs, s) ∧ SysRel Shows s t ∧
      P t = true := by
  obtain ⟨⟨outs, t⟩, harr, ht⟩ := ok_of_any h
  obtain ⟨⟨outs', s⟩, hrun, -, hst⟩ := (runModule_refines awareEnv (fun _ => 0) ops).ok_of_ok_right
    (not_pastEndFault awareEnv_pastEndNotFree) harr
  exact ⟨outs', s, t, hrun, hst, ht⟩

/-- What the detector knows at the end of such a run. -/
theorem aware_run_ctr (ops : List HostOp) (P : Ext2MetaCtr → Bool)
    (h : (runOps arrayLayer true freshArray ops).toOption.any (fun r => P r.2.metaCtr) = true) :
    ∃ outs s, runModule awareEnv (fun _ => 0) ops = .ok (outs, s) ∧ P s.metaCtr = true := by
  obtain ⟨outs, s, t, hrun, hst, ht⟩ := aware_state_of_array ops (fun t => P t.metaCtr) h
  exact ⟨outs, s, hrun, by rw [hst.metaCtr]; exact ht⟩

/-- The file system is written block by block, and the next write ends the detection. -/
theorem detected_layout_small :
    let ops := [HostOp.write 0 [smallSuperBlk 0, smallDescBlk, fun _ => 0xFF, 0, 0], .write 9 [0]]
    ∀ st ∈ trace (smrLayer awareEnv) true (initSmrDisk (freshModule fun _ => 0)) ops,
      st.before.metaCtr.status ≠ .ext2Detected → st.after.metaCtr.status = .ext2Detected →
        LayoutIsOn st.after.metaCtr
          (Function.update st.before.dev.contents st.blkNo (some st.buf)) := by
  intro ops
  obtain ⟨outs, s, hrun, hsame⟩ := aware_run_of_array ops (by decide +kernel)
  have harr : ∀ st ∈ trace arrayLayer true freshArray ops,
      (st.blkNo = sb0BlockNo → st.before.metaCtr.status = .noSb0) ∧
        (st.blkNo = sb0BlockNo + 1 → (st.before.dev (sb0BlockNo + 1)).isNone = true) := by
    decide +kernel
  refine detected_layout awareEnv rfl _ ops outs s hrun fun st hst => ?_
  obtain ⟨st', hst', hrel⟩ := exists_of_forall₂ hsame hst
  obtain ⟨h0, h1⟩ := harr st' hst'
  rw [← hrel.blkNo, ← hrel.before.metaCtr] at h0
  rw [← hrel.blkNo] at h1
  refine ⟨fun hblk hin _ => absurd (h0 hblk) hin.1, fun hblk _ b hb => ?_⟩
  rw [hrel.before.dev.contents _ descBlk_lt, Option.isNone_iff_eq_none.mp (h1 hblk)] at hb
  cases hb

/-- **A detection that ends with a copy of an old super block.**  The write that ends it changes the
super block, and the detector does not look at it. -/
theorem detected_layout_stale :
    let ops := [HostOp.write 0 [smallSuperBlk 0, smallDescBlk, fun _ => 0xFF, 0, 0],
      .write 0 [smallSuperBlk 1]]
    ∃ outs s, runModule awareEnv (fun _ => 0) ops = .ok (outs, s) ∧
      ∃ st ∈ trace (smrLayer awareEnv) true (initSmrDisk (freshModule fun _ => 0)) ops,
        st.before.metaCtr.status ≠ .ext2Detected ∧ st.after.metaCtr.status = .ext2Detected ∧
          ¬ LayoutIsOn st.after.metaCtr
            (Function.update st.before.dev.contents st.blkNo (some st.buf)) := by
  intro ops
  obtain ⟨outs, s, hrun, hsame⟩ := aware_run_of_array ops (by decide +kernel)
  have harr : ∃ st ∈ trace arrayLayer true freshArray ops,
      st.before.metaCtr.status ≠ .ext2Detected ∧ st.after.metaCtr.status = .ext2Detected ∧
        st.blkNo = sb0BlockNo ∧ st.after.metaCtr.sb0.sInodesCount = 0 ∧
        (Ext2SuperBlock.ofBlock st.buf firstSuperBlockOffset).sInodesCount = 1 := by
    decide +kernel
  obtain ⟨st', hst', hbefore, hafter, hblk, hold, hnew⟩ := harr
  obtain ⟨st, hst, hrel⟩ := exists_of_forall₂ hsame.flip hst'
  refine ⟨outs, s, hrun, st, hst, by rw [hrel.before.metaCtr]; exact hbefore,
    by rw [hrel.after.metaCtr]; exact hafter, fun hon => ?_⟩
  obtain ⟨b, hb, hsb0⟩ := hon.sb0
  rw [hrel.blkNo, hblk, Function.update_self, hrel.buf] at hb
  rw [hrel.after.metaCtr, ← Option.some.inj hb] at hsb0
  rw [hsb0, hnew] at hold
  exact absurd hold (by decide)

end MemSmr
