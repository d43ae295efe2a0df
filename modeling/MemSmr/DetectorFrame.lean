import MemSmr.BitmapTrim
import MemSmr.DetectedLayout

/-!
# What the detector leaves alone

The detector reaches the translation layer through `has_mapping`, `read_smr_blocks`, `setup_meta_flag`
and the trims of `mark_one_blk_bmp`.

## 1.  The rule

`DetectorKeeps` is an invariant of the layer that the three operations which change it keep.
`DetectorKeeps.detectExt2Fs` says that a call of `detect_ext2_fs` keeps it, whatever the block that is
being written contains and in whatever stage the detector is.  There is one lemma for each function of
`ext2_meta.c`.

## 2.  The detector only forgets

`OnlyForgets` compares the device before and after.  No block of the disk and no buffer is written, the
frontier stays where it is, and a mapping is either kept or dropped.  The slots, the counters of the
bands, the list of the fully invalid ones and the buffers change for the dropped blocks only.
`detect_ext2_only_forgets` holds in every state, also in one that no run reaches.
-/

namespace MemSmr

open Outcome

/-! ## 1.  The rule -/

/-- The operations of the detector keep `P`. -/
structure DetectorKeeps {σ : Type} (L : BlockLayer σ) (P : σ → Prop) : Prop where
  read : ∀ {d} (buf : ℕ → Block) {l n}, l + n ≤ totalSmrBlocksCnt → P d →
    P (L.readSmrBlocks d buf l n).2
  setupMetaFlag : ∀ {d} (l : ℕ) {flag : ℕ}, flag ≤ metaInodeTable → P d →
    P (L.setupMetaFlag d l flag)
  trim : ∀ {d l}, l < totalSmrBlocksCnt → P d → P (L.trimBlock d l)

namespace DetectorKeeps

variable {σ : Type} {L : BlockLayer σ} {P : σ → Prop} {s : Ext2Sys σ}

/-- Any fault may stop the detector. -/
abbrev AnyFault : Fault → Prop := fun _ => True

/-- Steps whose result does not matter. -/
theorem meets_any {α : Type} (x : Except Fault α) : Meets AnyFault (fun _ => True) x := by
  cases x with
  | ok a => trivial
  | error e => trivial

theorem readOne (h : DetectorKeeps L P) {d : σ} (hd : P d) (buf : Block) (blkNo : ℕ) :
    Meets AnyFault (fun r => P r.2) (Ext2Sys.readOne L d buf blkNo) := by
  unfold Ext2Sys.readOne
  exact ((checkIndex_spec blkNo).weaken fun _ _ => trivial).bind fun _ hlt => h.read _ hlt hd

theorem markMetaBlks (h : DetectorKeeps L P) (hs : P s.dev) (action : MarkAction) :
    Meets AnyFault (fun s' => P s'.dev) (s.markMetaBlks L action) := by
  have hflags : ∀ entry ∈ idx2Flag, entry.2 ≤ metaInodeTable := by decide
  unfold Ext2Sys.markMetaBlks
  refine meets_foldlM (fun s' : Ext2Sys σ => P s'.dev) hs fun entry hentry s₁ hs₁ => ?_
  refine meets_foldlM (fun s' : Ext2Sys σ => P s'.dev) hs₁ fun blkNo _ s₂ hs₂ => ?_
  refine (meets_any _).bind fun _ _ => h.setupMetaFlag _ ?_ hs₂
  split_ifs with hclean
  · exact Nat.zero_le _
  · exact hflags entry hentry

theorem markBit (h : DetectorKeeps L P) {st : ℕ × ℕ × σ} (hst : P st.2.2) (word j : ℕ) :
    Meets AnyFault (fun r => P r.2.2) (Ext2Sys.markBit L word st j) := by
  unfold Ext2Sys.markBit
  split_ifs with hbit
  · exact hst
  · exact ((checkIndex_spec st.1).weaken fun _ _ => trivial).bind fun _ hlt => h.trim hlt hst

theorem markOneBlkBmp (h : DetectorKeeps L P) {d : σ} (hd : P d) (status : MetaStatus) (bmp : Block)
    (start : ℕ) : Meets AnyFault (fun r => P r.2) (Ext2Sys.markOneBlkBmp L status d bmp start) := by
  unfold Ext2Sys.markOneBlkBmp
  split_ifs with hstatus
  · have hloop : Meets AnyFault (fun st : ℕ × ℕ × σ => P st.2.2)
        ((List.range Ext2Sys.wordsPerBlock).foldlM (Ext2Sys.markWord L bmp) (start, 0, d)) := by
      refine meets_foldlM (fun st : ℕ × ℕ × σ => P st.2.2) hd fun i _ st hst => ?_
      unfold Ext2Sys.markWord
      split_ifs with hword
      · exact hst
      · exact meets_foldlM (fun st : ℕ × ℕ × σ => P st.2.2) hst fun j _ st hst => h.markBit hst _ j
    exact hloop.bind fun st hst => hst
  · exact hd

theorem markAllFreeBlks (h : DetectorKeeps L P) (hs : P s.dev) :
    Meets AnyFault (fun r => P r.2.dev) (s.markAllFreeBlks L) := by
  unfold Ext2Sys.markAllFreeBlks
  refine meets_foldlM (fun r : ℕ × Ext2Sys σ => P r.2.dev) hs fun pos _ st hst => ?_
  unfold Ext2Sys.markGroup
  exact (h.readOne hst _ _).bind fun r hr => (h.markOneBlkBmp hr _ _ _).bind fun r' hr' => hr'

/-! The stages. -/

theorem detectInoTableIfInoBmp (h : DetectorKeeps L P) (hs : P s.dev) :
    Meets AnyFault (fun s' => P s'.dev) (s.detectInoTableIfInoBmp L) := by
  unfold Ext2Sys.detectInoTableIfInoBmp
  refine (meets_any _).bind fun c _ => ?_
  split_ifs with hc
  · refine Meets.bind (h.markMetaBlks ?_ _) fun s₁ hs₁ => Meets.bind (h.markAllFreeBlks hs₁) ?_
    · exact hs
    · exact fun r hr => hr
  · exact hs

theorem detectInoBmpIfBlkBmp (h : DetectorKeeps L P) (hs : P s.dev) :
    Meets AnyFault (fun s' => P s'.dev) (s.detectInoBmpIfBlkBmp L) := by
  unfold Ext2Sys.detectInoBmpIfBlkBmp
  refine (meets_any _).bind fun c _ => ?_
  split_ifs with hc
  · exact h.detectInoTableIfInoBmp (s := { s with metaCtr := _ }) hs
  · exact hs

theorem detectBlkBmpIfBgDescs (h : DetectorKeeps L P) (hs : P s.dev) :
    Meets AnyFault (fun s' => P s'.dev) (s.detectBlkBmpIfBgDescs L) := by
  unfold Ext2Sys.detectBlkBmpIfBgDescs
  refine (meets_any _).bind fun c _ => ?_
  split_ifs with hc
  · exact h.detectInoBmpIfBlkBmp (s := { s with metaCtr := _ }) hs
  · exact hs

theorem readBgDescBlk (h : DetectorKeeps L P) (hs : P s.dev) (blk : ℕ) :
    Meets AnyFault (fun s' => P s'.dev) (s.readBgDescBlk L blk) := by
  unfold Ext2Sys.readBgDescBlk
  exact (h.readOne hs _ _).bind fun r hr => (meets_any _).bind fun n _ => hr

theorem detectBgDescsIfSBs (h : DetectorKeeps L P) (hs : P s.dev) :
    Meets AnyFault (fun s' => P s'.dev) (s.detectBgDescsIfSBs L) := by
  unfold Ext2Sys.detectBgDescsIfSBs
  refine (meets_any _).bind fun c _ => ?_
  split_ifs with hc
  · refine Meets.bind (meets_foldlM (fun s' : Ext2Sys σ => P s'.dev) hs
      fun blk _ s₁ hs₁ => h.readBgDescBlk hs₁ blk) fun s₁ hs₁ => ?_
    exact h.detectBlkBmpIfBgDescs (s := { s₁ with metaCtr := _ }) hs₁
  · exact hs

theorem checkSuperBlks (h : DetectorKeeps L P) (hs : P s.dev) (l : List ℕ) :
    Meets AnyFault (fun r => P r.2.dev) (s.checkSuperBlks L l) := by
  induction l generalizing s with
  | nil => exact hs
  | cons blkNo l ih =>
    unfold Ext2Sys.checkSuperBlks
    refine (h.readOne hs _ _).bind fun r hr => ?_
    dsimp only
    split_ifs with hlegal
    · exact ih (s := { s with dev := r.2, sbsBuf := r.1 }) hr
    · exact hr

theorem detectSBsIfSB0 (h : DetectorKeeps L P) (hs : P s.dev) :
    Meets AnyFault (fun s' => P s'.dev) (s.detectSBsIfSB0 L) := by
  unfold Ext2Sys.detectSBsIfSB0
  refine (meets_any _).bind fun c _ => ?_
  split_ifs with hc
  · refine (h.checkSuperBlks hs _).bind fun r hr => ?_
    dsimp only
    split_ifs with hlegal
    · exact h.detectBgDescsIfSBs (s := { r.2 with metaCtr := _ }) hr
    · exact hr
  · exact hs

theorem detectSB0IfNoSB0 (h : DetectorKeeps L P) (hs : P s.dev) (buf : Block) (blkNo : ℕ) :
    Meets AnyFault (fun s' => P s'.dev) (s.detectSB0IfNoSB0 L buf blkNo) := by
  unfold Ext2Sys.detectSB0IfNoSB0
  dsimp only
  split_ifs with hlegal
  · exact (meets_any _).bind fun m _ => h.detectSBsIfSB0 (s := { s with metaCtr := _ }) hs
  · exact hs

theorem recheckSB0 (h : DetectorKeeps L P) (hs : P s.dev) (buf : Block) :
    Meets AnyFault (fun s' => P s'.dev) (s.recheckSB0 L buf) := by
  unfold Ext2Sys.recheckSB0
  dsimp only
  split_ifs with hlegal
  · exact hs
  · refine h.markMetaBlks ?_ _
    exact hs

/-- **The rule for the detector.** -/
theorem detectExt2Fs (h : DetectorKeeps L P) (hs : P s.dev) (buf : Block) (blkNo : ℕ) :
    Meets AnyFault (fun s' => P s'.dev) (s.detectExt2Fs L buf blkNo) := by
  unfold Ext2Sys.detectExt2Fs
  cases s.metaCtr.status with
  | ext2Detected =>
    dsimp only
    split_ifs with h0
    · exact h.recheckSB0 hs buf
    · exact hs
  | noSb0 => exact h.detectSB0IfNoSB0 hs buf blkNo
  | sb0Detected => exact h.detectSBsIfSB0 hs
  | sbsDetected => exact h.detectBgDescsIfSBs hs
  | bgDescsDetected => exact h.detectBlkBmpIfBgDescs hs
  | blkBitmapDetected => exact h.detectInoBmpIfBlkBmp hs
  | inoBitmapDetected => exact h.detectInoTableIfInoBmp hs
  | inodeTableDetected => trivial
  | undefined code => trivial

end DetectorKeeps

/-! ## 2.  The detector only forgets -/

namespace SmrDev

/-- The entry of block `l` is kept, or the block, which is on the device, has lost its mapping. -/
def KeptOrDropped (l : ℕ) (e e' : MappingEntry) : Prop :=
  (e'.mappingFlag = e.mappingFlag ∧ e'.paddr = e.paddr) ∨
    (l < totalSmrBlocksCnt ∧ e'.mappingFlag = .invalidMapping ∧ e'.paddr = 0)

theorem KeptOrDropped.refl (l : ℕ) (e : MappingEntry) : KeptOrDropped l e e := Or.inl ⟨rfl, rfl⟩

theorem KeptOrDropped.trans {l : ℕ} {e e' e'' : MappingEntry} (h : KeptOrDropped l e e')
    (h' : KeptOrDropped l e' e'') : KeptOrDropped l e e'' := by
  rcases h' with ⟨hflag, haddr⟩ | hdropped
  · unfold KeptOrDropped
    rw [hflag, haddr]
    exact h
  · exact Or.inr hdropped

/-- A block that was in slot `p` has lost its mapping. -/
def SlotLost (d d' : SmrDev) (p : ℕ) : Prop := ∃ l, d.InSlot l p ∧ d'.Unmapped l

/-- A block that was in buffer `q` has lost its mapping. -/
def BufLost (d d' : SmrDev) (q : ℕ) : Prop := ∃ l, d.InBuf l q ∧ d'.Unmapped l

/-- How many blocks of band `b` have lost their mapping. -/
def bandLost (d d' : SmrDev) (b : ℕ) : ℕ :=
  Nat.count (fun l => d.InBand l b ∧ d'.Unmapped l) totalSmrBlocksCnt

/-- Mappings may have been dropped, and reads may have been counted. -/
structure OnlyForgets (d d' : SmrDev) : Prop where
  data : d'.data = d.data
  hddBuf : d'.buf.hddBuf = d.buf.hddBuf
  hddWrites : d'.smr.hddCnt.writeCount = d.smr.hddCnt.writeCount
  bufWrites : d'.buf.rwCounter.writeCount = d.buf.rwCounter.writeCount
  cur : d'.smr.curPaddr = d.smr.curPaddr
  log : d'.log = d.log
  entry : ∀ l, KeptOrDropped l (d.smr.mappingTable l) (d'.smr.mappingTable l)
  /-- The slots of the dropped blocks are invalid, and no other slot has changed. -/
  lostSlot : ∀ p, SlotLost d d' p → d'.smr.smrReverseTable p = ⟨0, .invalidPhyBlock⟩
  keptSlot : ∀ p, ¬ SlotLost d d' p → d'.smr.smrReverseTable p = d.smr.smrReverseTable p
  bands : ∀ b, d'.smr.phyBands b = ⟨(d.smr.phyBands b).invalidCnt + bandLost d d' b,
    (d.smr.phyBands b).freeCnt, (d.smr.phyBands b).validCnt - bandLost d d' b⟩
  /-- A band that has become fully invalid is recorded. -/
  queue : ∀ b, b ∈ d'.smr.fullyInvalidBands ↔ b ∈ d.smr.fullyInvalidBands ∨
    (d.smr.phyBands b).invalidCnt < blocksPerBand ∧ blocksPerBand ≤ (d'.smr.phyBands b).invalidCnt
  /-- The buffers of the dropped blocks are free, and no other buffer has been freed or taken. -/
  free : ∀ q, q ∈ d'.buf.freeHddBufs ↔ BufLost d d' q ∨ q ∈ d.buf.freeHddBufs
  holds : ∀ q, (d'.buf.reverseTable q).blkNo = (d.buf.reverseTable q).blkNo
  lostBuf : ∀ q, BufLost d d' q → (d'.buf.reverseTable q).writeCnt = 0
  keptBuf : ∀ q, ¬ BufLost d d' q →
    (d'.buf.reverseTable q).writeCnt = (d.buf.reverseTable q).writeCnt

section Lost

variable {d d' d'' : SmrDev}

/-- No entry changes but that mappings are dropped. -/
abbrev EntriesKept (d d' : SmrDev) : Prop :=
  ∀ l, KeptOrDropped l (d.smr.mappingTable l) (d'.smr.mappingTable l)

theorem unmapped_of_invalid {l : ℕ} (hflag : (d.smr.mappingTable l).mappingFlag = .invalidMapping) :
    d.Unmapped l := by
  rw [Unmapped, hflag]
  exact ⟨fun heq => (by cases heq), fun heq => (by cases heq)⟩

theorem EntriesKept.unmapped (h : EntriesKept d d') {l : ℕ} (hl : d.Unmapped l) : d'.Unmapped l := by
  rcases h l with ⟨hflag, -⟩ | ⟨-, hflag, -⟩
  · rw [Unmapped, hflag]
    exact hl
  · exact unmapped_of_invalid hflag

/-- **What two steps drop**: what the first drops, and what the second drops of the rest. -/
theorem EntriesKept.lost_trans (h : EntriesKept d d') (h' : EntriesKept d' d'')
    {P : MappingFlag → ℕ → Prop} (hP : ∀ addr, ¬ P .invalidMapping addr) (l : ℕ) :
    P (d.smr.mappingTable l).mappingFlag (d.smr.mappingTable l).paddr ∧ d''.Unmapped l ↔
      P (d.smr.mappingTable l).mappingFlag (d.smr.mappingTable l).paddr ∧ d'.Unmapped l ∨
        P (d'.smr.mappingTable l).mappingFlag (d'.smr.mappingTable l).paddr ∧ d''.Unmapped l := by
  rcases h l with ⟨hflag, haddr⟩ | ⟨-, hflag, -⟩
  · rw [hflag, haddr]
    constructor
    · exact Or.inr
    · rintro (⟨hp, hl⟩ | hp)
      · exact ⟨hp, h'.unmapped hl⟩
      · exact hp
  · have hl : d'.Unmapped l := unmapped_of_invalid hflag
    rw [hflag]
    constructor
    · exact fun hp => Or.inl ⟨hp.1, hl⟩
    · rintro (hp | hp)
      · exact ⟨hp.1, h'.unmapped hl⟩
      · exact absurd hp.1 (hP _)

theorem slotLost_trans (h : EntriesKept d d') (h' : EntriesKept d' d'') (p : ℕ) :
    SlotLost d d'' p ↔ SlotLost d d' p ∨ SlotLost d' d'' p := by
  unfold SlotLost
  rw [← exists_or]
  exact exists_congr (h.lost_trans h' (P := fun flag addr => flag = .inSmrDisk ∧ addr = p)
    fun _ hp => by cases hp.1)

theorem bufLost_trans (h : EntriesKept d d') (h' : EntriesKept d' d'') (q : ℕ) :
    BufLost d d'' q ↔ BufLost d d' q ∨ BufLost d' d'' q := by
  unfold BufLost
  rw [← exists_or]
  exact exists_congr (h.lost_trans h' (P := fun flag addr => flag = .inHddBuf ∧ addr = q)
    fun _ hq => by cases hq.1)

theorem bandLost_trans (h : EntriesKept d d') (h' : EntriesKept d' d'') (b : ℕ) :
    bandLost d d'' b = bandLost d d' b + bandLost d' d'' b := by
  unfold bandLost
  rw [← Slots.count_or fun l _ hl hl' => hl.2.2 hl'.1.1]
  exact Slots.count_congr fun l _ => h.lost_trans h'
    (P := fun flag addr => flag = .inSmrDisk ∧ addr / blocksPerBand = b) (fun _ hp => by cases hp.1) l

end Lost

namespace OnlyForgets

variable {d d' d'' : SmrDev}

/-- Steps that drop nothing. -/
theorem of_kept (hsmr : d'.smr.smrReverseTable = d.smr.smrReverseTable ∧
      d'.smr.phyBands = d.smr.phyBands ∧ d'.smr.fullyInvalidBands = d.smr.fullyInvalidBands ∧
      d'.smr.curPaddr = d.smr.curPaddr ∧ d'.smr.hddCnt.writeCount = d.smr.hddCnt.writeCount)
    (hbuf : d'.buf.hddBuf = d.buf.hddBuf ∧ d'.buf.freeHddBufs = d.buf.freeHddBufs ∧
      d'.buf.rwCounter.writeCount = d.buf.rwCounter.writeCount)
    (hbufs : ∀ q, (d'.buf.reverseTable q).blkNo = (d.buf.reverseTable q).blkNo ∧
      (d'.buf.reverseTable q).writeCnt = (d.buf.reverseTable q).writeCnt)
    (hdata : d'.data = d.data) (hlog : d'.log = d.log)
    (hentry : ∀ l, (d'.smr.mappingTable l).mappingFlag = (d.smr.mappingTable l).mappingFlag ∧
      (d'.smr.mappingTable l).paddr = (d.smr.mappingTable l).paddr) : OnlyForgets d d' := by
  obtain ⟨hrev, hbands, hqueue, hcur, hhdd⟩ := hsmr
  obtain ⟨hbytes, hfree, hrw⟩ := hbuf
  have hsame : ∀ l, d'.Unmapped l ↔ d.Unmapped l := fun l => by rw [Unmapped, (hentry l).1]
  have hslot : ∀ p, ¬ SlotLost d d' p := by
    rintro p ⟨l, hl, hl'⟩
    exact ((hsame l).mp hl').2 hl.1
  have hbufLost : ∀ q, ¬ BufLost d d' q := by
    rintro q ⟨l, hl, hl'⟩
    exact ((hsame l).mp hl').1 hl.1
  have hband : ∀ b, bandLost d d' b = 0 := fun b =>
    Nat.count_of_forall_not fun l _ hl => ((hsame l).mp hl.2).2 hl.1.1
  refine ⟨hdata, hbytes, hhdd, hrw, hcur, hlog, fun l => Or.inl (hentry l),
    fun p hp => absurd hp (hslot p), fun p _ => by rw [hrev], fun b => ?_, fun b => ?_, fun q => ?_,
    fun q => (hbufs q).1, fun q hq => absurd hq (hbufLost q), fun q _ => (hbufs q).2⟩
  · rw [hband, hbands, Int.natCast_zero, Int.add_zero, Int.sub_zero]
  · rw [hqueue, hbands]
    exact (or_iff_left fun h => absurd h.1 (Int.not_lt.mpr h.2)).symm
  · rw [hfree]
    exact (or_iff_right (hbufLost q)).symm

theorem refl (d : SmrDev) : OnlyForgets d d :=
  .of_kept ⟨rfl, rfl, rfl, rfl, rfl⟩ ⟨rfl, rfl, rfl⟩ (fun _ => ⟨rfl, rfl⟩) rfl rfl fun _ => ⟨rfl, rfl⟩

theorem trans (h : OnlyForgets d d') (h' : OnlyForgets d' d'') : OnlyForgets d d'' where
  data := h'.data.trans h.data
  hddBuf := h'.hddBuf.trans h.hddBuf
  hddWrites := h'.hddWrites.trans h.hddWrites
  bufWrites := h'.bufWrites.trans h.bufWrites
  cur := h'.cur.trans h.cur
  log := h'.log.trans h.log
  entry l := (h.entry l).trans (h'.entry l)
  lostSlot p hp := by
    by_cases hp' : SlotLost d' d'' p
    · exact h'.lostSlot p hp'
    · rw [h'.keptSlot p hp']
      exact h.lostSlot p (((slotLost_trans h.entry h'.entry p).mp hp).resolve_right hp')
  keptSlot p hp := by
    rw [slotLost_trans h.entry h'.entry, not_or] at hp
    exact (h'.keptSlot p hp.2).trans (h.keptSlot p hp.1)
  bands b := by
    rw [h'.bands, h.bands, bandLost_trans h.entry h'.entry, Int.natCast_add, Int.add_assoc,
      Int.sub_sub]
  queue b := by
    have hb : (d'.smr.phyBands b).invalidCnt = (d.smr.phyBands b).invalidCnt + bandLost d d' b := by
      rw [h.bands]
    have hb' : (d''.smr.phyBands b).invalidCnt =
        (d'.smr.phyBands b).invalidCnt + bandLost d' d'' b := by
      rw [h'.bands]
    rw [h'.queue, h.queue, or_assoc]
    refine or_congr_right ?_
    omega
  free q := by rw [h'.free, h.free, bufLost_trans h.entry h'.entry, or_left_comm, or_assoc]
  holds q := (h'.holds q).trans (h.holds q)
  lostBuf q hq := by
    by_cases hq' : BufLost d' d'' q
    · exact h'.lostBuf q hq'
    · rw [h'.keptBuf q hq']
      exact h.lostBuf q (((bufLost_trans h.entry h'.entry q).mp hq).resolve_right hq')
  keptBuf q hq := by
    rw [bufLost_trans h.entry h'.entry, not_or] at hq
    exact (h'.keptBuf q hq.2).trans (h.keptBuf q hq.1)

/-- What can still be read reads the same. -/
theorem contents (h : OnlyForgets d d') (l : ℕ) :
    d'.contents l = d.contents l ∨ d'.contents l = none := by
  rcases h.entry l with ⟨hflag, haddr⟩ | ⟨-, hflag, -⟩
  · refine Or.inl (contents_congr hflag (fun _ => ?_) fun _ => ?_)
    · rw [haddr, h.hddBuf]
    · rw [haddr, h.data]
  · refine Or.inr (contents_of_unmapped ?_ ?_)
    · rw [hflag]
      exact fun heq => by cases heq
    · rw [hflag]
      exact fun heq => by cases heq

/-- No slot that is free is taken. -/
theorem free_slot (h : OnlyForgets d d') {p : ℕ} (hp : ¬ SlotLost d d' p)
    (hfree : (d.smr.smrReverseTable p).phyStatus = .freePhyBlock) :
    (d'.smr.smrReverseTable p).phyStatus = .freePhyBlock := by
  rw [h.keptSlot p hp, hfree]

end OnlyForgets

theorem onlyForgets_readBlockFromHddBuf (env : Env) (d : SmrDev) (l : ℕ) :
    OnlyForgets d (d.readBlockFromHddBuf env l).2 := by
  refine .of_kept ⟨rfl, rfl, rfl, rfl, rfl⟩ ⟨rfl, rfl, rfl⟩ (fun q => ?_) rfl rfl fun _ => ⟨rfl, rfl⟩
  show (Function.update d.buf.reverseTable _ _ q).blkNo = _ ∧
    (Function.update d.buf.reverseTable _ _ q).writeCnt = _
  by_cases hq : q = (d.smr.mappingTable l).paddr
  · rw [hq, Function.update_self]
    exact ⟨rfl, rfl⟩
  · rw [Function.update_of_ne hq]
    exact ⟨rfl, rfl⟩

theorem onlyForgets_readSmrBlocks (env : Env) (d : SmrDev) (buf : ℕ → Block) (l n : ℕ) :
    OnlyForgets d (d.readSmrBlocks env buf l n).2 := by
  refine readSmrBlocks_keeps (fun d' i _ _ hd => ?_) (fun d' r hd => ?_) buf (.refl d)
  · exact hd.trans (onlyForgets_readBlockFromHddBuf env d' (l + i))
  · exact hd.trans (.of_kept ⟨rfl, rfl, rfl, rfl, rfl⟩ ⟨rfl, rfl, rfl⟩ (fun _ => ⟨rfl, rfl⟩) rfl rfl
      fun _ => ⟨rfl, rfl⟩)

theorem onlyForgets_setupMetaFlag (d : SmrDev) (l flag : ℕ) :
    OnlyForgets d (d.setupMetaFlag l flag) := by
  refine .of_kept ⟨rfl, rfl, rfl, rfl, rfl⟩ ⟨rfl, rfl, rfl⟩ (fun _ => ⟨rfl, rfl⟩) rfl rfl fun l' => ?_
  show (Function.update d.smr.mappingTable l _ l').mappingFlag = _ ∧
    (Function.update d.smr.mappingTable l _ l').paddr = _
  by_cases hl : l' = l
  · rw [hl, Function.update_self]
    exact ⟨rfl, rfl⟩
  · rw [Function.update_of_ne hl]
    exact ⟨rfl, rfl⟩

/-! A trim. -/

section Trim

variable {d : SmrDev} {l : ℕ}

/-- What `Trimmed` does not say about a trim. -/
structure TrimFrame (d d' : SmrDev) (l : ℕ) : Prop where
  hddCnt : d'.smr.hddCnt = d.smr.hddCnt
  rwCounter : d'.buf.rwCounter = d.buf.rwCounter
  log : d'.log = d.log
  entry : d'.smr.mappingTable l = d.smr.mappingTable l ∨
    (d'.smr.mappingTable l).mappingFlag = .invalidMapping ∧ (d'.smr.mappingTable l).paddr = 0
  queue : ∀ b, b ∈ d'.smr.fullyInvalidBands ↔ b ∈ d.smr.fullyInvalidBands ∨
    d.InBand l b ∧ (d.smr.phyBands b).invalidCnt + 1 = blocksPerBand

theorem trimFrame (d : SmrDev) (l : ℕ) : TrimFrame d (d.trimBlock l) l := by
  unfold trimBlock
  split_ifs with hb hs
  · have hf := inHddBuf_iff.mp hb
    unfold reclaimFreeHddBuf
    rw [if_pos hb]
    refine ⟨rfl, rfl, rfl, Or.inr ?_, fun b => (or_iff_left fun h => ?_).symm⟩
    · show (Function.update d.smr.mappingTable l _ l).mappingFlag = _ ∧
        (Function.update d.smr.mappingTable l _ l).paddr = 0
      rw [Function.update_self]
      exact ⟨rfl, rfl⟩
    · rw [InBand, hf] at h
      cases h.1.1
  · have hf := inSmrDisk_iff.mp hs
    rw [invalidateMappingEntry_eq hf]
    refine ⟨rfl, rfl, rfl, Or.inr ?_, fun b => ?_⟩
    · show (Function.update d.smr.mappingTable l _ l).mappingFlag = _ ∧
        (Function.update d.smr.mappingTable l _ l).paddr = 0
      rw [Function.update_self]
      exact ⟨rfl, rfl⟩
    · show b ∈ (if _ then SortedVector.insert _ _ else _) ↔ _
      have hband : d.InBand l b ↔ b = (d.smr.mappingTable l).paddr / blocksPerBand :=
        ⟨fun h => h.2.symm, fun h => ⟨hf, h.symm⟩⟩
      rw [hband]
      split_ifs with hfull
      · rw [SortedVector.mem_insert, or_comm]
        refine or_congr_right ⟨fun h => ⟨h, by rw [h, hfull]⟩, fun h => h.1⟩
      · refine (or_iff_left fun h => hfull ?_).symm
        rw [← h.1, h.2]
  · exact ⟨rfl, rfl, rfl, Or.inl rfl, fun b => (or_iff_left fun h => hs (inSmrDisk_iff.mpr h.1.1)).symm⟩

end Trim

theorem onlyForgets_trimBlock (d : SmrDev) {l : ℕ} (hl : l < totalSmrBlocksCnt) :
    OnlyForgets d (d.trimBlock l) := by
  have ht := trimmed_trimBlock d l
  have hframe := trimFrame d l
  generalize d.trimBlock l = d' at ht hframe
  -- The block is the only one that may have been dropped.
  have honly : ∀ {P : MappingFlag → ℕ → Prop},
      (∀ flag addr, P flag addr → flag = .inHddBuf ∨ flag = .inSmrDisk) →
      ∀ l', P (d.smr.mappingTable l').mappingFlag (d.smr.mappingTable l').paddr ∧ d'.Unmapped l' ↔
        l' = l ∧ P (d.smr.mappingTable l).mappingFlag (d.smr.mappingTable l).paddr := by
    intro P hP l'
    by_cases hne : l' = l
    · subst hne
      exact ⟨fun h => ⟨rfl, h.1⟩, fun h => ⟨h.2, ht.here⟩⟩
    · refine iff_of_false (fun h => ?_) fun h => hne h.1
      have hmapped := hP _ _ h.1
      rw [Unmapped, ht.others l' hne] at h
      exact hmapped.elim h.2.1 h.2.2
  have hslot : ∀ p, SlotLost d d' p ↔ d.InSlot l p := fun p => by
    unfold SlotLost
    refine (exists_congr (honly (P := fun flag addr => flag = .inSmrDisk ∧ addr = p)
      fun _ _ h => Or.inr h.1)).trans ?_
    exact exists_eq_left
  have hbuf : ∀ q, BufLost d d' q ↔ d.InBuf l q := fun q => by
    unfold BufLost
    refine (exists_congr (honly (P := fun flag addr => flag = .inHddBuf ∧ addr = q)
      fun _ _ h => Or.inl h.1)).trans ?_
    exact exists_eq_left
  have hband : ∀ b, bandLost d d' b = if d.InBand l b then 1 else 0 := fun b => by
    have hiff := honly (P := fun flag addr => flag = .inSmrDisk ∧ addr / blocksPerBand = b)
      fun _ _ h => Or.inr h.1
    unfold bandLost
    split_ifs with h
    · refine Slots.count_eq_of_listed (fun _ => l) (fun _ _ => hl) (fun i hi j hj _ => by omega)
        fun l' _ => (hiff l').trans ?_
      constructor
      · exact fun h => ⟨0, Nat.zero_lt_one, h.1⟩
      · rintro ⟨-, -, heq⟩
        exact ⟨heq, h⟩
    · exact Nat.count_of_forall_not fun l' _ hl' => h ((hiff l').mp hl').2
  constructor
  case data => exact ht.data
  case hddBuf => exact ht.hddBuf
  case hddWrites => rw [hframe.hddCnt]
  case bufWrites => rw [hframe.rwCounter]
  case cur => exact ht.cur
  case log => exact hframe.log
  case entry =>
    intro l'
    by_cases hne : l' = l
    · rw [hne]
      rcases hframe.entry with heq | hdropped
      · rw [heq]
        exact .refl _ _
      · exact Or.inr ⟨hl, hdropped⟩
    · rw [ht.others l' hne]
      exact .refl _ _
  case lostSlot => exact fun p hp => (ht.slots p).trans (if_pos ((hslot p).mp hp))
  case keptSlot => exact fun p hp => (ht.slots p).trans (if_neg fun h => hp ((hslot p).mpr h))
  case bands =>
    intro b
    rw [ht.bands, hband]
    split_ifs
    · rfl
    · rw [Int.natCast_zero, Int.add_zero, Int.sub_zero]
  case queue =>
    intro b
    have hcnt : (d'.smr.phyBands b).invalidCnt =
        (d.smr.phyBands b).invalidCnt + if d.InBand l b then 1 else 0 := by
      rw [ht.bands]
      split_ifs
      · rfl
      · rw [Int.add_zero]
    rw [hframe.queue, hcnt]
    refine or_congr_right ?_
    split_ifs with h
    · rw [and_iff_right h]
      omega
    · refine iff_of_false (fun h' => h h'.1) fun h' => ?_
      omega
  case free => exact fun q => (ht.free q).trans (or_congr_left (hbuf q).symm)
  case holds =>
    intro q
    rw [ht.entries]
    split_ifs
    · rfl
    · rfl
  case lostBuf =>
    intro q hq
    rw [ht.entries, if_pos ((hbuf q).mp hq)]
  case keptBuf =>
    intro q hq
    rw [ht.entries, if_neg fun h => hq ((hbuf q).mpr h)]

theorem detectorKeeps_onlyForgets (env : Env) (d₀ : SmrDev) :
    DetectorKeeps (smrLayer env) (OnlyForgets d₀) where
  read buf _ _ _ h := h.trans (onlyForgets_readSmrBlocks env _ buf _ _)
  setupMetaFlag l flag _ h := h.trans (onlyForgets_setupMetaFlag _ l flag)
  trim hl h := h.trans (onlyForgets_trimBlock _ hl)

theorem onlyForgets_detectExt2Fs {env : Env} {s s' : Ext2Sys SmrDev} {buf : Block} {blkNo : ℕ}
    (hrun : s.detectExt2Fs (smrLayer env) buf blkNo = .ok s') : OnlyForgets s.dev s'.dev :=
  ((detectorKeeps_onlyForgets env s.dev).detectExt2Fs (.refl s.dev) buf blkNo).of_ok hrun

end SmrDev

/-- **The detector only forgets.**  Whatever block is written and whatever state the module is in, a call
of `detect_ext2_fs` writes no block of the disk and no buffer, does not move the frontier, and leaves
each block where it is or without a mapping.  The slots and the buffers of the blocks that it drops,
and no others, become invalid and free, and the counters of the bands say so.  What can still be read
reads the same. -/
theorem detect_ext2_only_forgets (env : Env) (s : Ext2Sys SmrDev) (buf : Block) (blkNo : ℕ) :
    ∀ s', s.detectExt2Fs (smrLayer env) buf blkNo = .ok s' →
      SmrDev.OnlyForgets s.dev s'.dev ∧
        ∀ l, s'.dev.contents l = s.dev.contents l ∨ s'.dev.contents l = none := by
  intro s' hrun
  have hkept := SmrDev.onlyForgets_detectExt2Fs hrun
  exact ⟨hkept, hkept.contents⟩

/-- The call that ends the detection of the small file system: it reads the bitmap and drops block
10. -/
theorem detect_ext2_only_forgets_trim : ∃ s s' : Ext2Sys SmrDev,
    s.detectExt2Fs (smrLayer awareEnv) 0 9 = .ok s' ∧ (s.dev.contents 10).isSome = true ∧
      s'.dev.contents 10 = none ∧ SmrDev.OnlyForgets s.dev s'.dev ∧
        ∀ l, s'.dev.contents l = s.dev.contents l ∨ s'.dev.contents l = none := by
  obtain ⟨outs, s, t, -, hst, ht⟩ := aware_state_of_array (blockWrites (smallWrites.take 6))
    (fun t => (t.dev 10).isSome &&
      (t.detectExt2Fs arrayLayer 0 9).toOption.any fun t' => (t'.dev 10).isNone) (by decide +kernel)
  simp only [Bool.and_eq_true] at ht
  obtain ⟨t', ht', hnone⟩ := ok_of_any ht.2
  obtain ⟨s', hrun, hst'⟩ := ((smrLayer_sim awareEnv).detectExt2Fs_refines hst 0 9).ok_of_ok_right
    (not_pastEndFault awareEnv_pastEndNotFree) ht'
  have hlt : 10 < totalSmrBlocksCnt := by
    rw [totalSmrBlocksCnt_eq]
    decide
  refine ⟨s, s', hrun, ?_, ?_, detect_ext2_only_forgets awareEnv s 0 9 s' hrun⟩
  · rw [hst.dev.contents 10 hlt]
    exact ht.1
  · rw [hst'.dev.contents 10 hlt]
    exact Option.isNone_iff_eq_none.mp hnone

end MemSmr
