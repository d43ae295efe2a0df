import MemSmr.Lifecycle

/-!
# A module that has been loaded

## 1.  What holds between two calls

`Alive` is the invariant of a module that has been loaded, perhaps more than once before: the device
shows the contents of a plain array and its tables are in range, the detector is in a phase that fits
these contents, and all of it can be saved.  The array comes with a control struct of its own, whose
vectors have the same elements.

## 2.  It is kept

By the transfers, by the trims of `mem_disk_init` and by `reset_all_counters`.

## 3.  It survives

`Alive.loaded`: a module that agrees with it in all that the images hold is alive again, with zeros in the
static buffers.
-/

namespace MemSmr

open Outcome ShortIo IoFile

/-! ## 1.  What holds between two calls -/

/-- The module shows the plain array, and it can be saved. -/
structure Alive (s : Ext2Sys SmrDev) (t : Ext2Sys ArrayDisk) : Prop where
  dev : ShowsRanges s.dev t.dev
  ctr : SameSets s.metaCtr t.metaCtr
  sbsBuf : s.sbsBuf = t.sbsBuf
  bgDescsBuf : s.bgDescsBuf = t.bgDescsBuf
  blkBmp : s.blkBmp = t.blkBmp
  phase : InPhase { t with metaCtr := s.metaCtr }
  vects : VectsFit s.metaCtr
  metaFlag : ∀ l < totalSmrBlocksCnt, (s.dev.smr.mappingTable l).metaFlag ≤ metaInodeTable
  metaRwCnt : s.metaCtr.metaRwCnt = zeroCounter

/-- The meta flags can be saved, and the detector has not counted. -/
def FlagsFit (u : Ext2Sys FlagDisk) : Prop :=
  (∀ l < totalSmrBlocksCnt, u.dev.flags l ≤ metaInodeTable) ∧ u.metaCtr.metaRwCnt = zeroCounter

theorem Phase.status_defined {a : ArrayDisk} {desc : Block} {m : Ext2MetaCtr} (h : Phase a desc m)
    (code : ℕ) : m.status ≠ .undefined code := by
  intro heq
  cases h with
  | noSb0 hs => exact absurd (hs.symm.trans heq) (by simp)
  | sb0 h => exact absurd (h.status.symm.trans heq) (by simp)
  | sbs h => exact absurd (h.status.symm.trans heq) (by simp)
  | descs h =>
    cases h with
    | bgDescs hs => exact absurd (hs.symm.trans heq) (by simp)
    | blkBitmap hs => exact absurd (hs.symm.trans heq) (by simp)
    | inoBitmap hs => exact absurd (hs.symm.trans heq) (by simp)
  | ext2 hs => exact absurd (hs.symm.trans heq) (by simp)

namespace Alive

variable {s s' : Ext2Sys SmrDev} {t t' : Ext2Sys ArrayDisk} {env : Env}

/-- The array with the control struct of the module. -/
theorem sysRel (h : Alive s t) : SysRel ShowsRanges s { t with metaCtr := s.metaCtr } :=
  ⟨h.dev, rfl, h.sbsBuf, h.bgDescsBuf, h.blkBmp⟩

theorem sameSys (h : Alive s t) : SameSys { t with metaCtr := s.metaCtr } t :=
  ⟨rfl, h.ctr, rfl, rfl, rfl⟩

theorem storable (h : Alive s t) : Storable s := by
  obtain ⟨desc, hphase⟩ := h.phase
  exact ⟨h.dev.inv, h.dev.ranges, h.metaFlag, h.vects, hphase.status_defined, h.metaRwCnt⟩

/-- The array with the meta flags of the module. -/
theorem flagRel (h : Alive s t) : ∃ u, SysRel ShowsFlags s u ∧ FlagsFit u := by
  refine ⟨⟨⟨t.dev, fun l => (s.dev.smr.mappingTable l).metaFlag⟩, s.metaCtr, s.sbsBuf, s.bgDescsBuf,
    s.blkBmp⟩, ⟨⟨h.dev.toShows, fun _ => rfl⟩, rfl, rfl, rfl, rfl⟩, h.metaFlag, h.metaRwCnt⟩

/-- How a step is shown to keep the invariant. -/
theorem intro {t₁ : Ext2Sys ArrayDisk} (hst : SysRel ShowsRanges s t₁) (htt : SameSys t₁ t)
    (hphase : InPhase t₁) (hvects : VectsFit t₁.metaCtr)
    (hflags : ∃ u, SysRel ShowsFlags s u ∧ FlagsFit u) : Alive s t := by
  obtain ⟨u, hsu, hflag, hcnt⟩ := hflags
  refine ⟨?_, ?_, hst.sbsBuf.trans htt.sbsBuf, hst.bgDescsBuf.trans htt.bgDescsBuf,
    hst.blkBmp.trans htt.blkBmp, ?_, ?_, fun l hl => ?_, ?_⟩
  · rw [← htt.dev]
    exact hst.dev
  · rw [hst.metaCtr]
    exact htt.ctr
  · rw [hst.metaCtr]
    unfold InPhase
    dsimp only
    rw [← htt.dev]
    exact hphase
  · rw [hst.metaCtr]
    exact hvects
  · rw [hsu.dev.flags]
    exact hflag l hl
  · rw [hsu.metaCtr]
    exact hcnt

/-- After `init_smr_disk`. -/
theorem init (data : ℕ → Block) : Alive (initSmrDisk (freshModule data)) freshArray := by
  have hshow := shows_init data
  have hstorable := Reached.storable (.init data)
  exact ⟨⟨hshow.dev, tableRanges_init data⟩, .refl _, rfl, rfl, rfl, inPhase_freshArray,
    hstorable.vects, hstorable.metaFlag, hstorable.metaRwCnt⟩

/-- The counts are not looked at. -/
theorem recounted (h : Alive s t) {d : SmrDev} (hd : s.dev.Recounted d) :
    Alive { s with dev := d } t := by
  refine ⟨ranges_kept.recounted h.dev hd, h.ctr, h.sbsBuf, h.bgDescsBuf, h.blkBmp, h.phase, h.vects,
    fun l hl => ?_, h.metaRwCnt⟩
  show (d.smr.mappingTable l).metaFlag ≤ metaInodeTable
  rw [hd.rest]
  exact h.metaFlag l hl

theorem reset (h : Alive s t) : Alive { s with dev := s.dev.resetAllCounters } t :=
  h.recounted ⟨rfl, rfl, rfl, rfl⟩

end Alive

/-! ## 2.  It is kept -/

section Transfers

variable {s : Ext2Sys SmrDev} {t t' : Ext2Sys ArrayDisk} {env : Env}

/-- A transfer does the same over the plain array. -/
theorem doDataTransfer_refines (hst : SysRel ShowsRanges s t) (seg : Segment) :
    Refines (PastEndFault env) (fun x y => x.1 = y.1 ∧ SysRel ShowsRanges x.2 y.2)
      (doDataTransfer env s seg) (arrayTransfer env.aware t seg) := by
  have hread : Refines (PastEndFault env) (fun x y => x.1 = y.1 ∧ SysRel ShowsRanges x.2 y.2)
      (if seg.blks = 0 then .ok ([], s) else s.readSmrBlocks (smrLayer env) seg.bufs seg.firstBlk)
      (if seg.blks = 0 then .ok ([], t)
        else t.readSmrBlocks arrayLayer seg.bufs seg.firstBlk) := by
    split_ifs with h0
    · exact ⟨rfl, hst⟩
    · exact (smrLayer_range_sim env).readSmrBlocks_refines hst seg.bufs seg.firstBlk
  rw [doDataTransfer, arrayTransfer]
  split_ifs with hacc hwrite h0
  · exact ⟨rfl, hst⟩
  · refine ((smrLayer_range_sim env).writeSmrBlocks_refines env.aware hst _ _).bind ?_
    exact fun s t hst => ⟨rfl, ranges_kept.setDev hst ⟨rfl, rfl, rfl, rfl⟩⟩
  · rw [if_pos h0, if_pos h0] at hread
    refine hread.bind ?_
    rintro ⟨out, s⟩ ⟨out', t⟩ ⟨rfl, hst⟩
    exact ⟨rfl, ranges_kept.setDev hst ⟨rfl, rfl, rfl, rfl⟩⟩
  · rw [if_neg h0, if_neg h0] at hread
    refine hread.bind ?_
    rintro ⟨out, s⟩ ⟨out', t⟩ ⟨rfl, hst⟩
    exact ⟨rfl, ranges_kept.setDev hst ⟨rfl, rfl, rfl, rfl⟩⟩

/-- It does not depend on how the vectors of the detector lie in memory. -/
theorem SameSys.arrayTransfer {allowed : Fault → Prop} (h : SameSys t t') (aware : Bool)
    (seg : Segment) : Refines allowed (fun x y => x.1 = y.1 ∧ SameSys x.2 y.2)
      (arrayTransfer aware t seg) (arrayTransfer aware t' seg) := by
  rw [MemSmr.arrayTransfer, MemSmr.arrayTransfer]
  split_ifs with hacc hwrite h0
  · exact ⟨rfl, h⟩
  · exact (h.writeSmrBlocks aware _ _).bind fun t t' htt => ⟨rfl, htt⟩
  · exact ⟨rfl, h⟩
  · refine (h.readSmrBlocks _ _).bind ?_
    rintro ⟨out, t⟩ ⟨out', t'⟩ ⟨rfl, htt⟩
    exact ⟨rfl, htt⟩

/-- The detector stays in its phase. -/
theorem meets_arrayTransfer (h : InPhase t ∧ VectsFit t.metaCtr) (aware : Bool) (seg : Segment) :
    Meets (fun _ => True) (fun r => InPhase r.2 ∧ VectsFit r.2.metaCtr)
      (arrayTransfer aware t seg) := by
  rw [arrayTransfer]
  split_ifs with hacc hwrite h0
  · exact h
  · refine Meets.bind (meets_writeSmrBlocks (fun t buf blkNo ht =>
      meets_writeOne_vectsFit ht buf blkNo) h _ _) ?_
    exact fun t ht => ht
  · exact h
  · refine ((readSmrBlocks_array_spec t _ _).weaken fun _ _ => trivial).bind fun r hr => ?_
    show InPhase r.2 ∧ VectsFit r.2.metaCtr
    rw [hr.1]
    exact h

end Transfers

section Flags

/-- The detector sets no other flags than those of the five classes. -/
theorem detectorKeeps_flags :
    DetectorKeeps flagLayer fun d => ∀ l < totalSmrBlocksCnt, d.flags l ≤ metaInodeTable where
  read _ _ _ _ h := h
  setupMetaFlag {d} l flag hflag h l' hl' := by
    show Function.update d.flags l flag l' ≤ metaInodeTable
    by_cases heq : l' = l
    · rw [heq, Function.update_self]
      exact hflag
    · rw [Function.update_of_ne heq]
      exact h l' hl'
  trim _ h := h

theorem flagsFit_kept : KeptBy flagLayer ShowsFlags FlagsFit where
  sim := smrLayer_flag_sim
  recounted := flags_kept.recounted
  init data := ⟨freshFlags, showsFlags_init data, fun _ _ => Nat.zero_le _, rfl⟩
  write aware u buf blkNo h := by
    have hcnt := writeOne_metaRwCnt aware u buf blkNo
    cases hres : u.writeOne flagLayer aware buf blkNo with
    | error e => trivial
    | ok u' =>
      obtain ⟨u₁, hu₁, -, dev, hstore, rfl⟩ := writeOne_ok hres
      refine ⟨?_, (hcnt.of_ok hres).trans h.2⟩
      obtain rfl := Except.ok.inj hstore
      show ∀ l < totalSmrBlocksCnt, u₁.dev.flags l ≤ metaInodeTable
      split_ifs at hu₁ with haware
      · exact (detectorKeeps_flags.detectExt2Fs h.1 buf blkNo).of_ok hu₁
      · rw [hu₁]
        exact h.1
  read _ _ _ _ h := h

end Flags

namespace Alive

variable {s s' : Ext2Sys SmrDev} {t t' : Ext2Sys ArrayDisk} {env : Env}

/-- The rule for a step: over the array it keeps the phase, and over the array with meta flags it keeps
the flags. -/
theorem step {α : Type} {allowed : Fault → Prop} {x : Except Fault (α × Ext2Sys SmrDev)}
    {y z : Except Fault (α × Ext2Sys ArrayDisk)}
    (hxy : Refines allowed (fun a b => a.1 = b.1 ∧ SysRel ShowsRanges a.2 b.2) x y)
    (hyz : Refines (fun _ => False) (fun b c => b.1 = c.1 ∧ SameSys b.2 c.2) y z)
    (hphase : Meets (fun _ => True) (fun b => InPhase b.2 ∧ VectsFit b.2.metaCtr) y)
    (hflags : ∀ a, x = .ok a → ∃ u, SysRel ShowsFlags a.2 u ∧ FlagsFit u) :
    Refines allowed (fun a c => a.1 = c.1 ∧ Alive a.2 c.2) x z := by
  refine ((hxy.and_left hflags).trans (hyz.and_left fun b hb => hphase.of_ok hb)).mono ?_
  rintro a c ⟨b, ⟨⟨hout, hst⟩, hfit⟩, ⟨hout', htt⟩, hin, hvects⟩
  exact ⟨hout.trans hout', .intro hst htt hin hvects hfit⟩

/-- **A transfer.** -/
theorem transfer (h : Alive s t) (seg : Segment) :
    Refines (PastEndFault env) (fun x y => x.1 = y.1 ∧ Alive x.2 y.2) (doDataTransfer env s seg)
      (arrayTransfer env.aware t seg) := by
  obtain ⟨u, hsu, hu⟩ := h.flagRel
  exact step (doDataTransfer_refines h.sysRel seg) (h.sameSys.arrayTransfer env.aware seg)
    (meets_arrayTransfer ⟨h.phase, h.vects⟩ env.aware seg)
    fun x hx => flagsFit_kept.doDataTransfer hsu hu hx

/-- **The trims of `mem_disk_init`.** -/
theorem boot (h : Alive s t) :
    Refines (PastEndFault env) (fun x y => x.1 = y.1 ∧ Alive x.2 y.2)
      (if s.metaCtr.isExt2Fs then s.markAllFreeBlks (smrLayer env) else .ok (0, s))
      (bootArray t) := by
  rw [bootArray, Ext2MetaCtr.isExt2Fs, Ext2MetaCtr.isExt2Fs, ← h.ctr.status]
  by_cases hdet : s.metaCtr.status = .ext2Detected
  · rw [if_pos (decide_eq_true hdet), if_pos (decide_eq_true hdet)]
    refine step ((smrLayer_range_sim env).markAllFreeBlks_refines h.sysRel)
      h.sameSys.markAllFreeBlks ?_ fun x hx => ?_
    · refine ((markAllFreeBlks_spec (s := { t with metaCtr := s.metaCtr }) hdet).weaken
        fun _ _ => trivial).mono fun r hr => ?_
      obtain ⟨desc, hphase⟩ := h.phase
      rw [hr]
      refine ⟨⟨desc, .ext2 ?_ ?_⟩, h.vects⟩
      · rw [hr]
        exact hdet
      · rw [hr]
        exact hphase.tmp_empty hdet
    · obtain ⟨u, hsu, hflag, hcnt⟩ := h.flagRel
      obtain ⟨y, hy, -, hxy⟩ := ((smrLayer_flag_sim env).markAllFreeBlks_refines hsu).ok_of_ok hx
      obtain ⟨hctr, hflags⟩ := (markAllFreeBlks_flags u).of_ok hy
      refine ⟨y.2, hxy, fun l hl => ?_, ?_⟩
      · rw [hflags]
        exact hflag l hl
      · rw [hctr]
        exact hcnt
  · rw [if_neg (by simpa using hdet), if_neg (by simpa using hdet)]
    exact ⟨rfl, h⟩

end Alive

/-! ## 3.  It survives -/

section Phases

variable {a : ArrayDisk} {desc : Block} {m m' : Ext2MetaCtr}

theorem SameSets.layout (h : SameSets m m') : SameLayout m m' :=
  ⟨h.sb0.symm, fun idx _ x => (h.mem idx x).symm⟩

theorem SameSets.tmpIs (h : SameSets m m') {idx : MetaVectIndex} (htmp : m.TmpIs idx) :
    m'.TmpIs idx := fun x => by
  rw [← h.mem, ← h.mem]
  exact htmp x

theorem SameSets.mapped (h : SameSets m m') {idx : MetaVectIndex} (hv : Mapped a (m.metaBlks idx)) :
    Mapped a (m'.metaBlks idx) := hv.congr fun x => (h.mem idx x).symm

theorem Sb0Phase.sameSets (h : Sb0Phase m) (hm : SameSets m m') : Sb0Phase m' where
  status := hm.status.symm.trans h.status
  legal := by
    rw [← hm.sb0]
    exact h.legal
  super x := by
    rw [← hm.mem, ← hm.mem]
    exact h.super x
  rest idx h1 h2 x := by
    rw [← hm.mem]
    exact h.rest idx h1 h2 x
  small := by
    rw [← hm.sb0]
    intro hcnt x
    rw [← hm.mem]
    exact h.small hcnt x
  wrapped := by
    rw [← hm.sb0, ← hm.mem]
    exact h.wrapped
  groups x hx := by
    rw [← hm.sb0]
    exact h.groups x ((hm.mem _ x).mpr hx)

/-- The phase of the detector is about the elements of the vectors. -/
theorem Phase.sameSets (h : Phase a desc m) (hm : SameSets m m') : Phase a desc m' := by
  cases h with
  | noSb0 hs => exact .noSb0 (hm.status.symm.trans hs)
  | sb0 h => exact .sb0 (h.sameSets hm)
  | sbs h =>
    refine .sbs ⟨h.toSupersKnown.congr hm.layout, hm.status.symm.trans h.status, fun x => ?_,
      fun idx h1 h2 h3 x => ?_⟩
    · rw [← hm.mem]
      exact h.tmp x
    · rw [← hm.mem]
      exact h.rest idx h1 h2 h3 x
  | descs h =>
    cases h with
    | bgDescs hs h htmp =>
      exact .descs (.bgDescs (hm.status.symm.trans hs) (h.congr hm.layout) (hm.tmpIs htmp))
    | blkBitmap hs h htmp hblk =>
      exact .descs (.blkBitmap (hm.status.symm.trans hs) (h.congr hm.layout) (hm.tmpIs htmp)
        (hm.mapped hblk))
    | inoBitmap hs h htmp hblk hino =>
      exact .descs (.inoBitmap (hm.status.symm.trans hs) (h.congr hm.layout) (hm.tmpIs htmp)
        (hm.mapped hblk) (hm.mapped hino))
  | ext2 hs htmp =>
    refine .ext2 (hm.status.symm.trans hs) fun x => ?_
    rw [← hm.mem]
    exact htmp x

end Phases

section Survives

variable {s s' : Ext2Sys SmrDev}

namespace SameCtrl

theorem sets (h : SameCtrl s s') : SameSets s'.metaCtr s.metaCtr :=
  ⟨h.status, h.sb0, h.metaBlks⟩

theorem slotCount (h : SameCtrl s s') (st : PhyStatus) {b : ℕ} (hb : b < totalSmrBandsCnt) :
    MemSmr.slotCount s'.dev.smr.smrReverseTable st b =
      MemSmr.slotCount s.dev.smr.smrReverseTable st b :=
  slotCount_congr fun i hi => by rw [h.smrReverseTable _ (band_add_lt hb hi)]

theorem stlInv (h : SameCtrl s s') {lo : ℕ} (hs : StlInv s.dev.smr lo) : StlInv s'.dev.smr lo where
  fwd l hl hf := by
    rw [h.mappingTable l hl] at hf ⊢
    obtain ⟨hp, hr⟩ := hs.fwd l hl hf
    rw [h.smrReverseTable _ hp]
    exact ⟨hp, hr⟩
  rev p hp l hr := by
    rw [h.smrReverseTable p hp] at hr
    obtain ⟨hl, hf, haddr⟩ := hs.rev p hp l hr
    rw [h.mappingTable l hl]
    exact ⟨hl, hf, haddr⟩
  known p hp := by
    rw [h.smrReverseTable p hp]
    exact hs.known p hp
  counts b hb := by
    rw [h.phyBands b hb, h.slotCount _ hb, h.slotCount _ hb, h.slotCount _ hb]
    exact hs.counts b hb
  queue b := by
    rw [h.fullyInvalidBands, hs.queue]
    exact and_congr_right fun hb => by rw [h.slotCount _ hb]
  frontier := by
    obtain ⟨hi, h1, h2, h3, h4⟩ := hs.frontier
    refine ⟨hi, h1, h2, h3, fun p hp => ?_⟩
    rw [h.smrReverseTable p hp]
    exact h4 p hp

theorem devInv (h : SameCtrl s s') (hs : DevInv s.dev) (hlog : s'.dev.log = s.dev.log) :
    DevInv s'.dev where
  stl := by
    rw [h.curPaddr]
    exact h.stlInv hs.stl
  buf := by
    refine ⟨fun l hl hf => ?_, fun q hq hnot => ?_⟩
    · rw [h.mappingTable l hl] at hf ⊢
      obtain ⟨hq, hfree, hblk⟩ := hs.buf.fwd l hl hf
      rw [h.freeHddBufs, h.reverseTable _ hq]
      exact ⟨hq, hfree, hblk⟩
    · rw [h.freeHddBufs] at hnot
      obtain ⟨hl, hf, haddr⟩ := hs.buf.rev q hq hnot
      rw [h.reverseTable q hq, h.mappingTable _ hl]
      exact ⟨hl, hf, haddr⟩
  free q hq := hs.free q ((h.freeHddBufs q).mp hq)
  log := by
    obtain ⟨hok, hcur⟩ := hs.log
    refine ⟨?_, ?_⟩
    · rw [hlog]
      exact hok
    · rw [hlog, h.curPaddr]
      exact hcur

theorem tableRanges (h : SameCtrl s s') (hs : TableRanges s.dev) : TableRanges s'.dev where
  mapping l hl := by
    rw [h.mappingTable l hl]
    exact hs.mapping l hl
  rev p hp := by
    rw [h.smrReverseTable p hp]
    exact hs.rev p hp
  bufBlk q hq := by
    rw [h.reverseTable q hq]
    exact hs.bufBlk q hq
  cold i hi := by
    rw [h.coldBufs i hi]
    exact hs.cold i hi
  free q hq := hs.free q ((h.freeHddBufs q).mp hq)
  enabled := by
    rw [← hs.enabled, SmrDev.enables, SmrDev.enables, h.smrCnt, h.hddCnt, h.rwCounter]

end SameCtrl

/-- What can be read is the same. -/
theorem SameState.contents (h : SameState s s') (hs : DevInv s.dev) {l : ℕ}
    (hl : l < totalSmrBlocksCnt) : s'.dev.contents l = s.dev.contents l := by
  have hentry := h.mappingTable l hl
  refine SmrDev.contents_congr (by rw [hentry]) (fun hb => ?_) fun hd => ?_
  · rw [hentry]
    exact h.hddBuf _ (hs.buf.fwd l hl hb).1
  · rw [hentry]
    exact h.data _ (hs.stl.fwd l hl hd).1

/-- **A module that has been loaded from the images of another** shows the same array. -/
theorem Alive.loaded {t : Ext2Sys ArrayDisk} (h : Alive s t) (hsame : SameState s s')
    (hlog : s'.dev.log = s.dev.log) (hsbs : s'.sbsBuf = 0) (hdescs : s'.bgDescsBuf = 0)
    (hbmp : s'.blkBmp = 0) : Alive s' t.restarted := by
  have hinv := h.dev.inv
  refine ⟨⟨⟨hsame.devInv hinv hlog, fun l hl => ?_⟩, hsame.tableRanges h.dev.ranges⟩,
    hsame.sets.trans h.ctr, hsbs, hdescs, hbmp, ?_, fun idx => ?_, fun l hl => ?_, ?_⟩
  · rw [hsame.contents hinv hl]
    exact h.dev.contents l hl
  · obtain ⟨desc, hphase⟩ := h.phase
    exact ⟨desc, hphase.sameSets hsame.sets.symm⟩
  · exact (h.vects idx).congr (hsame.metaBlks idx)
  · rw [hsame.mappingTable l hl]
    exact h.metaFlag l hl
  · rw [hsame.metaRwCnt]
    exact h.metaRwCnt

end Survives

end MemSmr
