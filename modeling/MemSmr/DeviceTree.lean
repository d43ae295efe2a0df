import MemSmr.DeviceFiles
import MemSmr.DirTree
import MemSmr.Lives
import MemSmr.IndirectEntries

/-!
# A file system in the lives of the module

## 1.  Transfers beside the file system

A transfer that writes none of the blocks of `U` leaves them as they are, and the detector too, once it
has detected a file system.

## 2.  What a run keeps

`Mounted` says that the blocks of `U` are in use and hold what is on a disk.  `Mounted.run`: restarts, and
transfers beside these blocks, keep it.

## 3.  What is read

`visit_on_device` says that the visit reads over the device what is on the disk.  `tree_survives` and
`file_range_survives` say so at the end of a run, about a directory tree and about a range of a file.
-/

namespace MemSmr

open Outcome Relation Ext2File

/-! ## 1.  Transfers beside the file system -/

/-- The transfer writes no block of `U`. -/
def Segment.Spares (seg : Segment) (U : ℕ → Prop) : Prop :=
  seg.write = true → ∀ b, U b → ¬ (seg.firstBlk ≤ b ∧ b < seg.firstBlk + seg.blks)

section Transfers

variable {t : Ext2Sys ArrayDisk} {U : ℕ → Prop}

/-- Once a file system has been detected, the detector only looks at block 0. -/
theorem writeOne_detected (hs : t.metaCtr.status = .ext2Detected) (aware : Bool) (buf : Block)
    {blkNo : ℕ} (hblk : blkNo ≠ sb0BlockNo) :
    Meets TableFault (fun t' => t'.metaCtr = t.metaCtr ∧
      t'.dev = Function.update t.dev blkNo (some buf)) (t.writeOne arrayLayer aware buf blkNo) := by
  have hstore : Meets TableFault (fun t' : Ext2Sys ArrayDisk => t'.metaCtr = t.metaCtr ∧
      t'.dev = Function.update t.dev blkNo (some buf)) (do
        checkIndex blkNo
        let dev ← arrayLayer.storeBlock t.dev blkNo buf
        return { t with dev := dev }) := (checkIndex_spec blkNo).bind fun _ _ => ⟨rfl, rfl⟩
  rw [Ext2Sys.writeOne]
  split_ifs
  · rw [Ext2Sys.detectExt2Fs, hs]
    dsimp only
    rw [if_neg hblk]
    exact hstore
  · exact hstore

/-- **A write beside block 0** stores its blocks, and does nothing else. -/
theorem writeSmrBlocks_detected (hs : t.metaCtr.status = .ext2Detected) (aware : Bool)
    {bufs : List Block} {blkNo : ℕ}
    (hzero : ¬ (blkNo ≤ sb0BlockNo ∧ sb0BlockNo < blkNo + bufs.length)) :
    Meets TableFault (fun t' => t'.metaCtr = t.metaCtr ∧
      ∀ l, ¬ (blkNo ≤ l ∧ l < blkNo + bufs.length) → t'.dev l = t.dev l)
      (t.writeSmrBlocks arrayLayer aware bufs blkNo) := by
  induction bufs generalizing t blkNo with
  | nil => exact ⟨rfl, fun _ _ => rfl⟩
  | cons buf bufs ih =>
    rw [List.length_cons] at hzero
    have hblk : blkNo ≠ sb0BlockNo := by
      rintro rfl
      exact hzero ⟨le_rfl, by omega⟩
    rw [Ext2Sys.writeSmrBlocks]
    refine (writeOne_detected hs aware buf hblk).bind ?_
    rintro t₁ ⟨hctr₁, hdev₁⟩
    rw [← hctr₁] at hs ⊢
    refine (ih hs (by omega)).mono ?_
    rintro t' ⟨hctr, hdev⟩
    refine ⟨hctr, fun l hl => ?_⟩
    rw [List.length_cons] at hl
    rw [hdev l (by omega), hdev₁]
    refine Function.update_of_ne ?_ _ _
    rintro rfl
    exact hl ⟨le_rfl, by omega⟩

theorem arrayTransfer_spares (hs : t.metaCtr.status = .ext2Detected) (hzero : U sb0BlockNo)
    (aware : Bool) {seg : Segment} (hseg : seg.Spares U) :
    Meets TableFault (fun r => r.2.metaCtr = t.metaCtr ∧ ∀ b, U b → r.2.dev b = t.dev b)
      (arrayTransfer aware t seg) := by
  have hlen : seg.bufs.length = seg.blks := by
    rw [Segment.bufs, List.length_map, List.length_range]
  rw [arrayTransfer]
  split_ifs with hacc hwrite hnone
  · exact ⟨rfl, fun _ _ => rfl⟩
  · replace hseg := hseg hwrite
    rw [← hlen] at hseg
    refine (writeSmrBlocks_detected hs aware (hseg _ hzero)).bind ?_
    rintro t' ⟨hctr, hdev⟩
    exact ⟨hctr, fun b hb => hdev b (hseg b hb)⟩
  · exact ⟨rfl, fun _ _ => rfl⟩
  · refine (readSmrBlocks_array_spec t _ _).bind ?_
    rintro r ⟨hsame, -⟩
    rw [← hsame]
    exact ⟨rfl, fun _ _ => rfl⟩

end Transfers

/-! ## 2.  What a run keeps -/

/-- A restart, or a transfer that writes no block of `U`. -/
inductive SparingStep (U : ℕ → Prop) : Images × Ext2Sys SmrDev → Images × Ext2Sys SmrDev → Prop
  | restart {p q : Images × Ext2Sys SmrDev} (h : Reloaded p q) : SparingStep U p q
  | transfer {im : Images} {env : Env} {seg : Segment} {out : ℕ → Block} {s s' : Ext2Sys SmrDev}
    (hseg : seg.Spares U) (ht : doDataTransfer env s seg = .ok (out, s')) :
    SparingStep U (im, s) (im, s')

/-- A file system has been detected.  The blocks of `U` hold what is on the disk, and no bitmap marks one
of them free; the super block, the descriptors and the bitmaps are among them. -/
structure Mounted (s : Ext2Sys SmrDev) (disk : ℕ → Block) (U : ℕ → Prop) : Prop where
  status : s.metaCtr.status = .ext2Detected
  onDisk : OnDisk s.dev.contents disk U
  used : ∀ b, U b → ¬ s.FreeBlk b
  super : U sb0BlockNo
  descs : U (sb0BlockNo + 1)
  bitmaps : ∀ g < s.metaCtr.bitmapCnt, U (s.metaCtr.bitmap g)

section Runs

variable {p q : Images × Ext2Sys SmrDev} {im : Images} {s s' : Ext2Sys SmrDev} {disk : ℕ → Block}
  {U : ℕ → Prop}

theorem Mounted.bitmapsUsed (h : Mounted s disk U) : BitmapsUsed s := by
  intro hs g hg
  obtain ⟨hlt, hblk⟩ := h.onDisk _ (h.bitmaps g hg)
  refine ⟨⟨hlt, ?_⟩, fun hfree => h.used _ (h.bitmaps g hg) ⟨hs, hfree⟩⟩
  rw [hblk]
  rfl

/-- How a step is shown to keep it. -/
theorem Mounted.of_same (h : Mounted s disk U) (hsets : SameSets s.metaCtr s'.metaCtr)
    (hsame : ∀ b, U b → s'.dev.contents b = s.dev.contents b) : Mounted s' disk U where
  status := hsets.status.symm.trans h.status
  onDisk b hb := ⟨(h.onDisk b hb).1, (hsame b hb).trans (h.onDisk b hb).2⟩
  used b hb hfree := by
    rw [freeBlk_iff_of_same hsets fun _ g hg => (hsame _ (h.bitmaps g hg)).symm] at hfree
    exact h.used b hb hfree
  super := h.super
  descs := h.descs
  bitmaps g hg := by
    rw [← hsets.bitmapCnt] at hg
    rw [← hsets.bitmap hg]
    exact h.bitmaps g hg

/-- A transfer leaves the blocks of `U` alone. -/
theorem Lived.transfer_spares (h : Lived im s) (hs : s.metaCtr.status = .ext2Detected)
    (hU : ∀ b, U b → b < totalSmrBlocksCnt) (hzero : U sb0BlockNo) {env : Env} {seg : Segment}
    (hseg : seg.Spares U) {out : ℕ → Block} (ht : doDataTransfer env s seg = .ok (out, s')) :
    SameSets s.metaCtr s'.metaCtr ∧ ∀ b, U b → s'.dev.contents b = s.dev.contents b := by
  obtain ⟨-, t, -, hst⟩ := h.alive
  obtain ⟨⟨out', t'⟩, hrun, -, hst'⟩ := (hst.transfer seg).ok_of_ok ht
  obtain ⟨hctr, hdev⟩ :=
    (arrayTransfer_spares (hst.ctr.status.symm.trans hs) hzero env.aware hseg).of_ok hrun
  replace hctr : t'.metaCtr = t.metaCtr := hctr
  replace hst' : Alive s' t' := hst'
  refine ⟨?_, fun b hb => ?_⟩
  · have hnext := hst'.ctr.symm
    rw [hctr] at hnext
    exact hst.ctr.trans hnext
  · rw [hst'.dev.contents b (hU b hb), hst.dev.contents b (hU b hb)]
    exact hdev b hb

theorem Lived.sparing (h : Lived p.1 p.2) (hstep : SparingStep U p q) : Lived q.1 q.2 := by
  cases hstep with
  | restart hpq => exact h.reloaded hpq
  | transfer _ ht => exact h.transfer ht

/-- **One step** keeps the file system, and the detector has what it had. -/
theorem Mounted.step (hp : Mounted p.2 disk U) (h : Lived p.1 p.2) (hstep : SparingStep U p q) :
    Mounted q.2 disk U ∧ SameSets p.2.metaCtr q.2.metaCtr := by
  have hlt : ∀ b, U b → b < totalSmrBlocksCnt := fun b hb => (hp.onDisk b hb).1
  cases hstep with
  | restart hpq =>
    obtain ⟨hsets, htrim⟩ := h.restart_exact hpq hp.bitmapsUsed.there
    exact ⟨hp.of_same hsets fun b hb => (htrim b (hlt b hb)).2 (hp.used b hb), hsets⟩
  | transfer hseg ht =>
    obtain ⟨hsets, hsame⟩ := h.transfer_spares hp.status hlt hp.super hseg ht
    exact ⟨hp.of_same hsets hsame, hsets⟩

/-- **A run** keeps the file system. -/
theorem Mounted.run (hp : Mounted p.2 disk U) (h : Lived p.1 p.2)
    (hrun : ReflTransGen (SparingStep U) p q) :
    Lived q.1 q.2 ∧ Mounted q.2 disk U ∧ q.2.metaCtr.sb0 = p.2.metaCtr.sb0 := by
  induction hrun with
  | refl => exact ⟨h, hp, rfl⟩
  | tail _ hlast ih =>
    obtain ⟨hlived, hmounted, hsb0⟩ := ih
    obtain ⟨hnext, hsets⟩ := hmounted.step hlived hlast
    exact ⟨hlived.sparing hlast, hnext, hsets.sb0.symm.trans hsb0⟩

end Runs

/-! ### A small file system -/

/-- The small tree: the inodes are in block 4, the directories in the blocks 10 and 11, and block 100 is
free. -/
def mountSession : Session :=
  { smallSession with
    queue :=
      [⟨0, 40, fun i => [smallSuperBlk 0, smallDescBlk,
          fun k => if k.val = 12 then 0xEF else 0xFF, 0,
          Block.ofBytes [(0x81, 0x40), (0x84, 48), (0xA8, 10), (0x581, 0x40), (0x584, 36),
            (0x5A8, 11), (0x601, 0x80), (0x681, 0x80)]].getD i 0, true⟩,
        ⟨80, 16, fun k i => ([smallTree, smallSubtree].getD k .nil).bytes.getD i.val 0, true⟩] }

/-- The blocks in use. -/
def mountBlks : List ℕ := [0, 1, 2, 4, 10, 11]

/-- Block 100 is written. -/
def besideSegment : Segment := ⟨800, 8, fun _ _ => 7, true⟩

section Mount

variable (disk : ℕ → Block) (sb : Ext2SuperBlock)

/-- Inode `ino` is a directory in block `blk`, and the bytes are in this block. -/
def DirIn (ino blk : ℕ) (l : List UInt8) : Prop :=
  (inodeIn disk sb ino).IsDir ∧ (inodeIn disk sb ino).iSize.toNat = l.length ∧
    bytesAlignToBlocks (inodeIn disk sb ino).iSize = 1 ∧
    alignedBytes (inodeIn disk sb ino).iSize = 4096 ∧ (inodeIn disk sb ino).iBlock 0 = blk ∧
    (disk blk).Holds 0 l

instance (ino blk : ℕ) (l : List UInt8) : Decidable (DirIn disk sb ino blk l) :=
  inferInstanceAs (Decidable (_ ∧ _ ∧ _ ∧ _ ∧ _ ∧ _))

/-- What the disk has of the tree. -/
structure MountDisk : Prop where
  inodes_pos : 0 < sb.sInodesPerGroup
  places : ∀ c ∈ [2, 12, 13, 14],
    sb.groupOf (UInt32.ofNat c) = 0 ∧ (placeIn disk sb (UInt32.ofNat c)).blkNo = 4
  root : DirIn disk sb 2 10 smallTree.bytes
  sub : DirIn disk sb 12 11 smallSubtree.bytes
  files : ∀ c ∈ [13, 14], ¬ (inodeIn disk sb c).IsDir

variable {disk sb}

/-- The file of such a directory. -/
theorem DirIn.readWhole {ino blk : ℕ} {l : List UInt8} (h : DirIn disk sb ino blk l) :
    readWholeExt2File blockTEntry disk (inodeIn disk sb ino) = .ok ⟨ext2BlockSize, [.data 0 blk]⟩ := by
  obtain ⟨-, -, hblocks, hbytes, rfl, -⟩ := h
  rw [readWholeExt2File, hblocks, hbytes]
  rfl

theorem DirIn.dirHolds {ino : UInt32} {blk : ℕ} {l : List UInt8} (h : DirIn disk sb ino.toNat blk l) :
    DirHolds blockTEntry disk (fun _ => 0) (inodeIn disk sb) ino l := by
  refine ⟨h.1, h.2.1, _, h.readWhole, ?_⟩
  have hbytes : fileBytes disk (fun _ => 0) ⟨ext2BlockSize, [.data 0 blk]⟩ = disk blk := by
    funext k
    exact dif_pos ⟨Nat.zero_le _, Nat.lt_of_lt_of_eq k.isLt (Nat.zero_add _).symm⟩
  rw [hbytes]
  exact h.2.2.2.2.2

theorem MountDisk.stored (h : MountDisk disk sb) :
    Stored blockTEntry disk (fun _ => 0) (inodeIn disk sb) ext2RootIno smallTree := by
  have hskip : ∀ r : DirRecord, r.entry.IsDots ∨ ¬ (inodeIn disk sb r.inode.toNat).IsDir →
      ¬ Visited (inodeIn disk sb) r := fun r hr hv => hr.elim hv.1 fun hfile => hfile hv.2.2
  have hroot : DirIn disk sb ext2RootIno.toNat 10 smallTree.bytes := h.root
  have hsub : DirIn disk sb (12 : UInt32).toNat 11 smallSubtree.bytes := h.sub
  refine ⟨hroot.dirHolds, Or.inr ⟨hskip _ (Or.inl (by decide)), rfl⟩,
    Or.inr ⟨hskip _ (Or.inl (by decide)), rfl⟩, Or.inl ⟨⟨by decide, by decide, hsub.1⟩, hsub.dirHolds, ?_⟩,
    Or.inr ⟨hskip _ (Or.inr (h.files 13 (by decide))), rfl⟩, trivial⟩
  exact ⟨Or.inr ⟨hskip _ (Or.inl (by decide)), rfl⟩, Or.inr ⟨hskip _ (Or.inl (by decide)), rfl⟩,
    Or.inr ⟨hskip _ (Or.inr (h.files 14 (by decide))), rfl⟩, trivial⟩

theorem MountDisk.inUse (h : MountDisk disk sb) (c : UInt32)
    (hc : c = ext2RootIno ∨ c ∈ smallTree.inodes) : InUse blockTEntry disk (· ∈ mountBlks) sb c := by
  have hnat : ∀ c ∈ [2, 12, 13, 14], (UInt32.ofNat c).toNat = c ∧ 1 ≤ c := by decide
  have hplace : ∀ c ∈ [2, 12, 13, 14], ((inodeIn disk sb c).IsDir →
      ∃ blk ∈ mountBlks, ∃ l, DirIn disk sb c blk l) →
        InUse blockTEntry disk (· ∈ mountBlks) sb (UInt32.ofNat c) := by
    intro c hc hdir
    obtain ⟨hgroup, hblk⟩ := h.places c hc
    obtain ⟨hsame, hpos⟩ := hnat c hc
    rw [← hsame] at hpos
    refine ⟨hpos, h.inodes_pos, by rw [hgroup]; decide, by rw [hblk]; decide, ?_⟩
    rw [hsame]
    intro hd
    obtain ⟨blk, hin, l, hl⟩ := hdir hd
    refine ⟨_, hl.readWhole, fun read hread => ?_⟩
    obtain rfl := List.mem_singleton.mp hread
    exact hin
  have hinodes : smallTree.inodes = [12, 14, 13] := by decide
  rw [hinodes, List.mem_cons, List.mem_cons, List.mem_singleton] at hc
  rcases hc with rfl | rfl | rfl | rfl
  · exact hplace 2 (by decide) fun _ => ⟨10, by decide, _, h.root⟩
  · exact hplace 12 (by decide) fun _ => ⟨11, by decide, _, h.sub⟩
  · exact hplace 14 (by decide) fun hdir => absurd hdir (h.files 14 (by decide))
  · exact hplace 13 (by decide) fun hdir => absurd hdir (h.files 13 (by decide))

end Mount

/-- A module that has such a disk.  Block 100 is written, and the module is restarted. -/
theorem mountSession_lived : ∃ p q disk, Lived p.1 p.2 ∧ Mounted p.2 disk (· ∈ mountBlks) ∧
    MountDisk disk p.2.metaCtr.sb0 ∧ ReflTransGen (SparingStep (· ∈ mountBlks)) p q := by
  have hall : (serveArray true freshArray mountSession.queue).toOption.any (fun r =>
      ((arrayTransfer true r.2 besideSegment).toOption.any fun w =>
        (bootArray w.2.restarted).toOption.any fun _ => true) &&
      decide (r.2.metaCtr.status = .ext2Detected ∧ r.2.metaCtr.bitmapCnt = 1 ∧
        r.2.metaCtr.bitmap 0 = 2 ∧ r.2.metaCtr.sb0.groupStart 0 = 0 ∧
        ∀ b ∈ mountBlks, (r.2.dev b).isSome = true ∧ getBit (r.2.dev.disk 2) b = true) &&
      decide (0 < r.2.metaCtr.sb0.sInodesPerGroup ∧
        (∀ c ∈ [2, 12, 13, 14], r.2.metaCtr.sb0.groupOf (UInt32.ofNat c) = 0 ∧
          (placeIn r.2.dev.disk r.2.metaCtr.sb0 (UInt32.ofNat c)).blkNo = 4) ∧
        DirIn r.2.dev.disk r.2.metaCtr.sb0 2 10 smallTree.bytes ∧
        DirIn r.2.dev.disk r.2.metaCtr.sb0 12 11 smallSubtree.bytes ∧
        ∀ c ∈ [13, 14], ¬ (inodeIn r.2.dev.disk r.2.metaCtr.sb0 c).IsDir)) = true := by
    decide +kernel
  obtain ⟨⟨outs, t⟩, hrun, hr⟩ := ok_of_any hall
  simp only [Bool.and_eq_true, decide_eq_true_eq] at hr
  obtain ⟨⟨hsteps, hstatus, hcnt, hbmp, hstart, hblks⟩, hpos, hplaces, hroot, hsub, hfiles⟩ := hr
  obtain ⟨w, hw, hboot⟩ := ok_of_any hsteps
  obtain ⟨y, hy, -⟩ := ok_of_any hboot
  have hpast : mountSession.env.PastEndNotFree := awareEnv_pastEndNotFree
  obtain ⟨s, hlived, hs⟩ := lived_of_array hpast hrun
  obtain ⟨⟨out, s₁⟩, htransfer, -, hs₁⟩ :=
    (hs.transfer besideSegment).ok_of_ok_right (not_pastEndFault hpast) hw
  obtain ⟨im, s₂, hrestart, -⟩ :=
    (hlived.transfer htransfer).exists_reloaded hs₁ (x := mountSession) rfl hpast hy
  have hlt : ∀ b ∈ mountBlks, b < totalSmrBlocksCnt := fun b hb =>
    smallBlk_lt (by revert b; decide)
  have hone : s.metaCtr.bitmapCnt = 1 := hs.ctr.bitmapCnt.trans hcnt
  have htwo : s.metaCtr.bitmap 0 = 2 := (hs.ctr.bitmap (by omega)).trans hbmp
  have hspares : besideSegment.Spares (· ∈ mountBlks) := fun _ => by decide
  refine ⟨(noImages, s), (im, s₂), t.dev.disk, hlived, ?_, ?_,
    .tail (.single (.transfer hspares htransfer)) (.restart hrestart)⟩
  · refine ⟨hs.ctr.status.trans hstatus, fun b hb => ⟨hlt b hb, ?_⟩, fun b hb hfree => ?_, by decide,
      by decide, fun g hg => ?_⟩
    · obtain ⟨blk, hblk⟩ := Option.isSome_iff_exists.mp (hblks b hb).1
      rw [hs.dev.contents b (hlt b hb), ArrayDisk.disk, hblk]
      rfl
    · obtain ⟨blk, hblk, -, hclear⟩ := (markedFree_iff_of_one hone htwo
        ((congrArg (fun sb => sb.groupStart 0) hs.ctr.sb0).trans hstart) b).mp hfree.2
      have hset := (hblks b hb).2
      rw [ArrayDisk.disk, ← hs.dev.contents 2 (hlt 2 (by decide)), hblk, Option.getD_some,
        hclear] at hset
      exact Bool.false_ne_true hset
    · replace hg : g < s.metaCtr.bitmapCnt := hg
      obtain rfl : g = 0 := by omega
      rw [htwo]
      decide
  · rw [hs.ctr.sb0]
    exact ⟨hpos, hplaces, hroot, hsub, hfiles⟩

/-! ## 3.  What is read -/

theorem Lived.sees {im : Images} {s : Ext2Sys SmrDev} (h : Lived im s) {r : FileReader SmrDev}
    (hr : r.lookup.sys = s) : Sees s.dev.contents s.metaCtr r := by
  subst hr
  obtain ⟨-, t, -, hst⟩ := h.alive
  exact ⟨⟨hst.dev.inv, fun _ _ => rfl⟩, rfl⟩

/-- The visit only goes on to inodes that are not 0. -/
theorem Ext2File.ne_zero_of_nested {entry : Block → ℕ → Except ReadFault ℕ} {disk : ℕ → Block}
    {heap : ℕ → UInt8} {readInode : ℕ → FileInode} {ino c : UInt32} (hino : ino ≠ 0)
    (hc : ReflTransGen (Nested entry disk heap readInode) ino c) : c ≠ 0 := by
  rcases hc.cases_tail with rfl | ⟨_, -, -, _, -, _, -, -, hne, -⟩
  · exact hino
  · exact hne

section Reads

variable (env : Env) (entry : Block → ℕ → Except ReadFault ℕ) (heap : ℕ → ℕ → UInt8)

/-- **The visit over the device.**  In any state of any life in which a file system has been detected, the
visit of an inode prints what it prints over the disk, or comes to the same fault, if the blocks of all
the directories that it comes to have contents.  Every block of the device keeps its contents. -/
theorem visit_on_device (heap' : ℕ → UInt8) (im : Images) (s : Ext2Sys SmrDev) (h : Lived im s)
    (hs : s.metaCtr.status = .ext2Detected) (disk : ℕ → Block) (U : ℕ → Prop)
    (hU : OnDisk s.dev.contents disk U) (hdescs : U (sb0BlockNo + 1)) (ino : UInt32)
    (hin : ∀ c, ReflTransGen (Nested entry disk heap' (inodeIn disk s.metaCtr.sb0)) ino c →
      InUse entry disk U s.metaCtr.sb0 c)
    (fuel depth : ℕ) (r : FileReader SmrDev) (hr : r.lookup.sys = s) :
    Prints s.dev.contents s.metaCtr
      (FileReader.visitExt2Dir (smrLayer env) entry heap fuel ino depth r)
      (visitExt2Dir entry disk heap' (inodeIn disk s.metaCtr.sb0) fuel ino depth) :=
  visit_prints env hU hdescs hs heap heap' hin fuel .refl depth (h.sees hr)

/-- The small file system, before block 100 is written. -/
theorem visit_on_device_small : ∃ im s disk, Lived im s ∧ MountDisk disk s.metaCtr.sb0 ∧
    ∀ fuel r, r.lookup.sys = s → Prints s.dev.contents s.metaCtr
      (FileReader.traverseExt2Fs (smrLayer awareEnv) blockTEntry (fun _ _ => 0) fuel r)
      (traverseExt2Fs blockTEntry disk (fun _ => 0) (inodeIn disk s.metaCtr.sb0) fuel) := by
  obtain ⟨⟨im, s⟩, -, disk, hlived, hp, hdisk, -⟩ := mountSession_lived
  refine ⟨im, s, disk, hlived, hdisk, fun fuel r hr => ?_⟩
  exact visit_on_device awareEnv blockTEntry (fun _ _ => 0) (fun _ => 0) im s hlived hp.status disk _
    hp.onDisk hp.descs ext2RootIno (fun c hc => hdisk.inUse c (hdisk.stored.mem_inodes hc)) fuel 1 r hr

/-- **The directory tree survives.**  After any number of restarts, and of transfers that write none of the
blocks in use, `traverse_ext2_fs` still returns, prints every entry of the tree and leaves the contents of
the device as they are. -/
theorem tree_survives (heap' : ℕ → UInt8) (p q : Images × Ext2Sys SmrDev) (h : Lived p.1 p.2)
    (disk : ℕ → Block) (U : ℕ → Prop) (hp : Mounted p.2 disk U)
    (hrun : ReflTransGen (SparingStep U) p q) (F : Forest)
    (hF : Stored entry disk heap' (inodeIn disk p.2.metaCtr.sb0) ext2RootIno F)
    (hin : ∀ c, c = ext2RootIno ∨ c ∈ F.inodes → c ≠ 0 → InUse entry disk U p.2.metaCtr.sb0 c)
    (r : FileReader SmrDev) (hr : r.lookup.sys = q.2) :
    ∃ fuel, ∀ fuel' ≥ fuel, ∃ r',
      r.traverseExt2Fs (smrLayer env) entry heap fuel' = .ok (F.lines 1, r') ∧
        Sees q.2.dev.contents q.2.metaCtr r' := by
  obtain ⟨hlived, hq, hsb0⟩ := hp.run h hrun
  rw [← hsb0] at hF hin
  obtain ⟨fuel, hfuel⟩ := hF.visit 1
  refine ⟨fuel, fun fuel' hle => ?_⟩
  have hlines : visitExt2Dir entry disk heap' (inodeIn disk q.2.metaCtr.sb0) fuel' ext2RootIno 1 =
      .ok (F.lines 1) := visitExt2Dir_stable ext2RootIno 1 fuel fuel' hle _ hfuel
  have hprints := visit_prints env hq.onDisk hq.descs hq.status heap heap'
    (fun c hc => hin c (hF.mem_inodes hc) (ne_zero_of_nested (by decide) hc)) fuel' .refl 1
    (hlived.sees hr)
  rw [Prints, hlines] at hprints
  obtain ⟨⟨lines, r'⟩, hvisit, rfl, hr'⟩ := hprints.ok_of_ok_right (fun _ hno => hno) rfl
  exact ⟨r', hvisit, hr'⟩

/-- The small file system, after block 100 has been written and the module has been restarted. -/
theorem tree_survives_small : ∃ p q, Lived p.1 p.2 ∧
    ReflTransGen (SparingStep (· ∈ mountBlks)) p q ∧ ∀ r : FileReader SmrDev, r.lookup.sys = q.2 →
      ∃ fuel, ∀ fuel' ≥ fuel, ∃ r',
        r.traverseExt2Fs (smrLayer awareEnv) blockTEntry (fun _ _ => 0) fuel' =
          .ok ([⟨3, [0x2E], 2⟩, ⟨3, [0x2E, 0x2E], 2⟩, ⟨3, [0x61], 12⟩, ⟨6, [0x2E], 12⟩,
            ⟨6, [0x2E, 0x2E], 2⟩, ⟨6, [0x67], 14⟩, ⟨3, [0x66], 13⟩], r') ∧
        Sees q.2.dev.contents q.2.metaCtr r' := by
  obtain ⟨p, q, disk, hlived, hp, hdisk, hrun⟩ := mountSession_lived
  refine ⟨p, q, hlived, hrun, fun r hr => ?_⟩
  exact tree_survives awareEnv blockTEntry (fun _ _ => 0) (fun _ => 0) p q hlived disk _ hp hrun
    smallTree hdisk.stored (fun c hc _ => hdisk.inUse c hc) r hr

/-- **A range of a file survives.**  After any number of restarts, and of transfers that write none of the
blocks in use, `read_ext2_file_blocks` fills the caller's buffer with the blocks that it would read on the
disk. -/
theorem file_range_survives (p q : Images × Ext2Sys SmrDev) (h : Lived p.1 p.2) (disk : ℕ → Block)
    (U : ℕ → Prop) (hp : Mounted p.2 disk U) (hrun : ReflTransGen (SparingStep U) p q) (ino : UInt32)
    (hino : InUse entry disk U p.2.metaCtr.sb0 ino) (lo n : ℕ) (res : ℕ × List FileRead)
    (hres : readExt2FileBlocks entry disk (fun i => (inodeIn disk p.2.metaCtr.sb0 i).toExt2Inode)
      ino.toNat lo n = .ok res)
    (hblks : ∀ read ∈ res.2, U read.blkNo) (buf : ℕ → UInt8) (r : FileReader SmrDev)
    (hr : r.lookup.sys = q.2) :
    ∃ r', r.readExt2FileBlocks (smrLayer env) entry heap ino buf lo n =
      .ok (res.1, fillData disk res.2 buf, r') ∧ Sees q.2.dev.contents q.2.metaCtr r' := by
  obtain ⟨hlived, hq, hsb0⟩ := hp.run h hrun
  rw [← hsb0] at hino hres
  exact readExt2FileBlocks_spec env hq.onDisk hq.descs hq.status heap (hlived.sees hr) hino hres hblks
    buf

/-- The first block of the root directory. -/
theorem file_range_survives_small : ∃ p q disk, Lived p.1 p.2 ∧
    ReflTransGen (SparingStep (· ∈ mountBlks)) p q ∧ ∀ (r : FileReader SmrDev) (buf : ℕ → UInt8),
      r.lookup.sys = q.2 → ∃ r',
        r.readExt2FileBlocks (smrLayer awareEnv) blockTEntry (fun _ _ => 0) ext2RootIno buf 0 1 =
          .ok (1, fillData disk [.data 0 10] buf, r') ∧ Sees q.2.dev.contents q.2.metaCtr r' := by
  obtain ⟨p, q, disk, hlived, hp, hdisk, hrun⟩ := mountSession_lived
  have hres : readExt2FileBlocks blockTEntry disk
      (fun i => (inodeIn disk p.2.metaCtr.sb0 i).toExt2Inode) ext2RootIno.toNat 0 1 =
        .ok (1, [.data 0 ((inodeIn disk p.2.metaCtr.sb0 2).iBlock 0)]) := rfl
  rw [hdisk.root.2.2.2.2.1] at hres
  refine ⟨p, q, disk, hlived, hrun, fun r buf hr => ?_⟩
  refine file_range_survives awareEnv blockTEntry (fun _ _ => 0) p q hlived disk _ hp hrun ext2RootIno
    (hdisk.inUse _ (Or.inl rfl)) 0 1 _ hres (fun read hread => ?_) buf r hr
  obtain rfl := List.mem_singleton.mp hread
  exact show 10 ∈ mountBlks by decide

end Reads

end MemSmr
