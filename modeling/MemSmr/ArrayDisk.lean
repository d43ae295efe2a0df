import MemSmr.Ext2Meta

/-!
# A plain array of blocks

What the translation layer is for, in terms of its own: every block has contents or none.  A read
leaves the caller's buffer alone where there are none, a store gives a block contents and a trim
takes them away.

* `arrayLayer`: the operations of `BlockLayer` on such an array.
* `LayerSim`: one layer simulates another, for block numbers inside the device; and that the
  detector and the block driver then do the same over both, `writeSmrBlocks_refines` and
  `readSmrBlocks_refines`.
-/

namespace MemSmr

/-- The contents of every block. -/
abbrev ArrayDisk : Type := ℕ → Option Block

namespace ArrayDisk

/-- What a read leaves in the buffer. -/
def readOver (a : ArrayDisk) (buf : ℕ → Block) (blkNo num i : ℕ) : Block :=
  if i < num then (a (blkNo + i)).getD (buf i) else buf i

theorem readOver_succ {a : ArrayDisk} {buf : ℕ → Block} {blkNo i : ℕ} {b : Block}
    (h : (a (blkNo + i)).getD (buf i) = b) :
    Function.update (a.readOver buf blkNo i) i b = a.readOver buf blkNo (i + 1) := by
  funext j
  by_cases hj : j = i
  · rw [hj, Function.update_self, readOver, if_pos (Nat.lt_succ_self i), h]
  · rw [Function.update_of_ne hj, readOver, readOver]
    exact if_congr (by omega) rfl rfl

theorem readOver_self {a : ArrayDisk} {buf : ℕ → Block} {blkNo i : ℕ} (h : a (blkNo + i) = none) :
    a.readOver buf blkNo (i + 1) = a.readOver buf blkNo i := by
  rw [← readOver_succ (b := buf i) (by rw [h]; rfl)]
  refine Function.update_eq_self_iff.mpr ?_
  rw [readOver, if_neg (Nat.lt_irrefl i)]

end ArrayDisk

/-- The plain array as a layer. -/
def arrayLayer : BlockLayer ArrayDisk where
  hasMapping a l := (a l).isSome
  readSmrBlocks a buf blkNo num := (a.readOver buf blkNo num, a)
  setupMetaFlag a _ _ := a
  trimBlock a l := Function.update a l none
  storeBlock a l blk := .ok (Function.update a l (some blk))

/-! ## Simulation of layers -/

/-- `M` does what `L` does, on block numbers inside the device; `L` may in addition stop on an
admitted fault. -/
structure LayerSim {σ τ : Type} (L : BlockLayer σ) (M : BlockLayer τ) (allowed : Fault → Prop)
    (R : σ → τ → Prop) : Prop where
  hasMapping : ∀ {s t l}, R s t → l < totalSmrBlocksCnt → L.hasMapping s l = M.hasMapping t l
  read : ∀ {s t} (buf : ℕ → Block) {l n}, R s t → l + n ≤ totalSmrBlocksCnt →
    (L.readSmrBlocks s buf l n).1 = (M.readSmrBlocks t buf l n).1 ∧
      R (L.readSmrBlocks s buf l n).2 (M.readSmrBlocks t buf l n).2
  setupMetaFlag : ∀ {s t} (l flag : ℕ), R s t → R (L.setupMetaFlag s l flag) (M.setupMetaFlag t l flag)
  trim : ∀ {s t l}, R s t → l < totalSmrBlocksCnt → R (L.trimBlock s l) (M.trimBlock t l)
  store : ∀ {s t l} (blk : Block), R s t → l < totalSmrBlocksCnt →
    Outcome.Refines allowed R (L.storeBlock s l blk) (M.storeBlock t l blk)

/-- The same module over related layers. -/
structure SysRel {σ τ : Type} (R : σ → τ → Prop) (s : Ext2Sys σ) (t : Ext2Sys τ) : Prop where
  dev : R s.dev t.dev
  metaCtr : s.metaCtr = t.metaCtr
  sbsBuf : s.sbsBuf = t.sbsBuf
  bgDescsBuf : s.bgDescsBuf = t.bgDescsBuf
  blkBmp : s.blkBmp = t.blkBmp

theorem SysRel.setCtr {σ τ : Type} {R : σ → τ → Prop} {s : Ext2Sys σ} {t : Ext2Sys τ}
    (h : SysRel R s t) (m : Ext2MetaCtr) :
    SysRel R { s with metaCtr := m } { t with metaCtr := m } :=
  ⟨h.dev, rfl, h.sbsBuf, h.bgDescsBuf, h.blkBmp⟩

/-- An index check that passes. -/
theorem checkIndex_refines {allowed : Fault → Prop} (l : ℕ) :
    Outcome.Refines allowed (fun _ _ : Unit => l < totalSmrBlocksCnt) (checkIndex l)
      (checkIndex l) := by
  rw [checkIndex]
  split_ifs with h
  · exact h
  · exact Outcome.refines_error

namespace LayerSim

open Outcome

variable {σ τ : Type} {L : BlockLayer σ} {M : BlockLayer τ} {allowed : Fault → Prop}
  {R : σ → τ → Prop}

section Pieces

variable {s : Ext2Sys σ} {t : Ext2Sys τ}

theorem allElementsMapped_refines (h : LayerSim L M allowed R) (hst : SysRel R s t) (l : List ℕ) :
    Refines allowed Eq (s.allElementsMapped L l) (t.allElementsMapped M l) := by
  induction l with
  | nil => exact rfl
  | cons b l ih =>
    rw [Ext2Sys.allElementsMapped, Ext2Sys.allElementsMapped]
    refine (checkIndex_refines b).bind fun _ _ hb => ?_
    rw [h.hasMapping hst.dev hb]
    split_ifs
    · exact ih
    · exact rfl

theorem readOne_refines (h : LayerSim L M allowed R) {d : σ} {e : τ} (hde : R d e) (buf : Block)
    (blkNo : ℕ) : Refines allowed (fun x y => x.1 = y.1 ∧ R x.2 y.2)
      (Ext2Sys.readOne L d buf blkNo) (Ext2Sys.readOne M e buf blkNo) := by
  rw [Ext2Sys.readOne, Ext2Sys.readOne]
  refine (checkIndex_refines blkNo).bind fun _ _ hb => ?_
  obtain ⟨h1, h2⟩ := h.read (fun _ => buf) (l := blkNo) (n := 1) hde hb
  exact ⟨congrFun h1 0, h2⟩

theorem markMetaBlks_refines (h : LayerSim L M allowed R) (hst : SysRel R s t)
    (action : MarkAction) :
    Refines allowed (SysRel R) (s.markMetaBlks L action) (t.markMetaBlks M action) := by
  refine Refines.foldlM hst fun entry _ s t hst => ?_
  rw [hst.metaCtr]
  refine Refines.foldlM hst fun blkNo _ s t hst => ?_
  refine (checkIndex_refines blkNo).bind fun _ _ _ => ?_
  exact ⟨h.setupMetaFlag _ _ hst.dev, hst.metaCtr, hst.sbsBuf, hst.bgDescsBuf, hst.blkBmp⟩

theorem markOneBlkBmp_refines (h : LayerSim L M allowed R) {d : σ} {e : τ} (hde : R d e)
    (status : MetaStatus) (bmp : Block) (start : ℕ) :
    Refines allowed (fun x y => x.1 = y.1 ∧ R x.2 y.2)
      (Ext2Sys.markOneBlkBmp L status d bmp start) (Ext2Sys.markOneBlkBmp M status e bmp start) := by
  have hbit : ∀ word, ∀ j, ∀ x : ℕ × ℕ × σ, ∀ y : ℕ × ℕ × τ,
      (x.1 = y.1 ∧ x.2.1 = y.2.1 ∧ R x.2.2 y.2.2) →
      Refines allowed (fun x y => x.1 = y.1 ∧ x.2.1 = y.2.1 ∧ R x.2.2 y.2.2)
        (Ext2Sys.markBit L word x j) (Ext2Sys.markBit M word y j) := by
    rintro word j ⟨b, c, d⟩ ⟨b', c', e⟩ ⟨rfl, rfl, hde⟩
    rw [Ext2Sys.markBit, Ext2Sys.markBit]
    split_ifs
    · exact ⟨rfl, rfl, hde⟩
    · refine (checkIndex_refines b).bind fun _ _ hb => ?_
      exact ⟨rfl, rfl, h.trim hde hb⟩
  rw [Ext2Sys.markOneBlkBmp, Ext2Sys.markOneBlkBmp]
  split_ifs
  · refine Refines.bind (R := fun x y => x.1 = y.1 ∧ x.2.1 = y.2.1 ∧ R x.2.2 y.2.2)
      (Refines.foldlM ⟨rfl, rfl, hde⟩ fun i _ x y hxy => ?_) fun x y hxy => ⟨hxy.2.1, hxy.2.2⟩
    rw [Ext2Sys.markWord, Ext2Sys.markWord]
    split_ifs
    · exact ⟨congrArg (· + 32) hxy.1, hxy.2⟩
    · exact Refines.foldlM hxy fun j _ x y hxy => hbit _ j x y hxy
  · exact ⟨rfl, hde⟩

theorem markAllFreeBlks_refines (h : LayerSim L M allowed R) (hst : SysRel R s t) :
    Refines allowed (fun x y => x.1 = y.1 ∧ SysRel R x.2 y.2) (s.markAllFreeBlks L)
      (t.markAllFreeBlks M) := by
  rw [Ext2Sys.markAllFreeBlks, Ext2Sys.markAllFreeBlks, hst.metaCtr]
  refine Refines.foldlM (R := fun (x : ℕ × Ext2Sys σ) (y : ℕ × Ext2Sys τ) =>
    x.1 = y.1 ∧ SysRel R x.2 y.2) ⟨rfl, hst⟩ ?_
  rintro pos - ⟨c, s⟩ ⟨c', t⟩ ⟨rfl, hst⟩
  replace hst : SysRel R s t := hst
  rw [Ext2Sys.markGroup, Ext2Sys.markGroup]
  simp only [hst.metaCtr, hst.blkBmp]
  refine (h.readOne_refines hst.dev _ _).bind ?_
  rintro ⟨bmp, d⟩ ⟨bmp', e⟩ ⟨rfl, hde⟩
  refine (h.markOneBlkBmp_refines hde _ _ _).bind ?_
  rintro ⟨count, d⟩ ⟨count', e⟩ ⟨rfl, hde⟩
  exact ⟨rfl, hde, rfl, hst.sbsBuf, hst.bgDescsBuf, rfl⟩

/-! The stages. -/

theorem detectInoTableIfInoBmp_refines (h : LayerSim L M allowed R) (hst : SysRel R s t) :
    Refines allowed (SysRel R) (s.detectInoTableIfInoBmp L) (t.detectInoTableIfInoBmp M) := by
  rw [Ext2Sys.detectInoTableIfInoBmp, Ext2Sys.detectInoTableIfInoBmp, hst.metaCtr]
  refine (h.allElementsMapped_refines hst _).bind ?_
  rintro c - rfl
  split_ifs
  · refine (h.markMetaBlks_refines (hst.setCtr _) _).bind
      fun s t hst => Refines.bind (h.markAllFreeBlks_refines hst) fun x y hxy => hxy.2
  · exact hst

theorem detectInoBmpIfBlkBmp_refines (h : LayerSim L M allowed R) (hst : SysRel R s t) :
    Refines allowed (SysRel R) (s.detectInoBmpIfBlkBmp L) (t.detectInoBmpIfBlkBmp M) := by
  rw [Ext2Sys.detectInoBmpIfBlkBmp, Ext2Sys.detectInoBmpIfBlkBmp, hst.metaCtr]
  refine (h.allElementsMapped_refines hst _).bind ?_
  rintro c - rfl
  split_ifs
  · exact h.detectInoTableIfInoBmp_refines (hst.setCtr _)
  · exact hst

theorem detectBlkBmpIfBgDescs_refines (h : LayerSim L M allowed R) (hst : SysRel R s t) :
    Refines allowed (SysRel R) (s.detectBlkBmpIfBgDescs L) (t.detectBlkBmpIfBgDescs M) := by
  rw [Ext2Sys.detectBlkBmpIfBgDescs, Ext2Sys.detectBlkBmpIfBgDescs, hst.metaCtr]
  refine (h.allElementsMapped_refines hst _).bind ?_
  rintro c - rfl
  split_ifs
  · exact h.detectInoBmpIfBlkBmp_refines (hst.setCtr _)
  · exact hst

theorem readBgDescBlk_refines (h : LayerSim L M allowed R) (hst : SysRel R s t) (blk : ℕ) :
    Refines allowed (SysRel R) (s.readBgDescBlk L blk) (t.readBgDescBlk M blk) := by
  rw [Ext2Sys.readBgDescBlk, Ext2Sys.readBgDescBlk, hst.metaCtr, hst.bgDescsBuf]
  refine (h.readOne_refines hst.dev _ _).bind ?_
  rintro ⟨buf, d⟩ ⟨buf', e⟩ ⟨rfl, hde⟩
  refine Refines.bind (R := Eq) ?_ ?_
  · cases t.metaCtr.getNumberOfBgDescs blk with
    | ok n => exact rfl
    | error e => exact refines_error
  · rintro n - rfl
    exact ⟨hde, rfl, hst.sbsBuf, rfl, hst.blkBmp⟩

theorem detectBgDescsIfSBs_refines (h : LayerSim L M allowed R) (hst : SysRel R s t) :
    Refines allowed (SysRel R) (s.detectBgDescsIfSBs L) (t.detectBgDescsIfSBs M) := by
  rw [Ext2Sys.detectBgDescsIfSBs, Ext2Sys.detectBgDescsIfSBs, hst.metaCtr]
  refine (h.allElementsMapped_refines hst _).bind ?_
  rintro c - rfl
  split_ifs
  · refine (Refines.foldlM hst fun blk _ s t hst => h.readBgDescBlk_refines hst blk).bind
      fun s t hst => h.detectBlkBmpIfBgDescs_refines
        (by rw [hst.metaCtr]; exact hst.setCtr _)
  · exact hst

theorem checkSuperBlks_refines (h : LayerSim L M allowed R) (hst : SysRel R s t) (l : List ℕ) :
    Refines allowed (fun x y => x.1 = y.1 ∧ SysRel R x.2 y.2) (s.checkSuperBlks L l)
      (t.checkSuperBlks M l) := by
  induction l generalizing s t with
  | nil => exact ⟨rfl, hst⟩
  | cons blkNo l ih =>
    rw [Ext2Sys.checkSuperBlks, Ext2Sys.checkSuperBlks, hst.sbsBuf]
    refine (h.readOne_refines hst.dev _ _).bind ?_
    rintro ⟨buf, d⟩ ⟨buf', e⟩ ⟨rfl, hde⟩
    have hst' : SysRel R { s with dev := d, sbsBuf := buf } { t with dev := e, sbsBuf := buf } :=
      ⟨hde, hst.metaCtr, rfl, hst.bgDescsBuf, hst.blkBmp⟩
    dsimp only
    split_ifs
    · exact ih hst'
    · exact ⟨rfl, hst'⟩

theorem detectSBsIfSB0_refines (h : LayerSim L M allowed R) (hst : SysRel R s t) :
    Refines allowed (SysRel R) (s.detectSBsIfSB0 L) (t.detectSBsIfSB0 M) := by
  rw [Ext2Sys.detectSBsIfSB0, Ext2Sys.detectSBsIfSB0, hst.metaCtr]
  refine (h.allElementsMapped_refines hst _).bind ?_
  rintro c - rfl
  split_ifs
  · refine (h.checkSuperBlks_refines hst _).bind ?_
    rintro ⟨legal, s⟩ ⟨legal', t⟩ ⟨rfl, hst⟩
    dsimp only
    rw [hst.metaCtr]
    split_ifs
    · exact h.detectBgDescsIfSBs_refines (hst.setCtr _)
    · exact (hst.setCtr _)
  · exact hst

theorem detectSB0IfNoSB0_refines (h : LayerSim L M allowed R) (hst : SysRel R s t) (buf : Block)
    (blkNo : ℕ) : Refines allowed (SysRel R) (s.detectSB0IfNoSB0 L buf blkNo)
      (t.detectSB0IfNoSB0 M buf blkNo) := by
  rw [Ext2Sys.detectSB0IfNoSB0, Ext2Sys.detectSB0IfNoSB0, hst.metaCtr]
  dsimp only
  split_ifs
  · refine Refines.bind (R := Eq) ?_ ?_
    · generalize Ext2MetaCtr.recordSuperBlks _ _ = x
      cases x with
      | ok m => exact rfl
      | error e => exact refines_error
    · rintro m - rfl
      exact h.detectSBsIfSB0_refines (hst.setCtr _)
  · exact hst

theorem recheckSB0_refines (h : LayerSim L M allowed R) (hst : SysRel R s t) (buf : Block) :
    Refines allowed (SysRel R) (s.recheckSB0 L buf) (t.recheckSB0 M buf) := by
  rw [Ext2Sys.recheckSB0, Ext2Sys.recheckSB0, hst.metaCtr]
  dsimp only
  split_ifs
  · exact (hst.setCtr _)
  · exact h.markMetaBlks_refines (hst.setCtr _) _

theorem detectExt2Fs_refines (h : LayerSim L M allowed R) (hst : SysRel R s t) (buf : Block)
    (blkNo : ℕ) : Refines allowed (SysRel R) (s.detectExt2Fs L buf blkNo)
      (t.detectExt2Fs M buf blkNo) := by
  rw [Ext2Sys.detectExt2Fs, Ext2Sys.detectExt2Fs, hst.metaCtr]
  cases t.metaCtr.status with
  | ext2Detected =>
    dsimp only
    split_ifs
    · exact h.recheckSB0_refines hst buf
    · exact hst
  | noSb0 => exact h.detectSB0IfNoSB0_refines hst buf blkNo
  | sb0Detected => exact h.detectSBsIfSB0_refines hst
  | sbsDetected => exact h.detectBgDescsIfSBs_refines hst
  | bgDescsDetected => exact h.detectBlkBmpIfBgDescs_refines hst
  | blkBitmapDetected => exact h.detectInoBmpIfBlkBmp_refines hst
  | inoBitmapDetected => exact h.detectInoTableIfInoBmp_refines hst
  | inodeTableDetected => exact refines_error
  | undefined code => exact refines_error

/-! The block driver. -/

theorem writeOne_refines (h : LayerSim L M allowed R) (aware : Bool) (hst : SysRel R s t)
    (buf : Block) (blkNo : ℕ) :
    Refines allowed (SysRel R) (s.writeOne L aware buf blkNo) (t.writeOne M aware buf blkNo) := by
  rw [Ext2Sys.writeOne, Ext2Sys.writeOne]
  have hstore : ∀ {s : Ext2Sys σ} {t : Ext2Sys τ}, SysRel R s t →
      Refines allowed (SysRel R)
        (do checkIndex blkNo
            let dev ← L.storeBlock s.dev blkNo buf
            return { s with dev := dev })
        (do checkIndex blkNo
            let dev ← M.storeBlock t.dev blkNo buf
            return { t with dev := dev }) := fun hst => by
    refine (checkIndex_refines blkNo).bind fun _ _ hb => ?_
    refine (h.store buf hst.dev hb).bind fun d e hde => ?_
    exact ⟨hde, hst.metaCtr, hst.sbsBuf, hst.bgDescsBuf, hst.blkBmp⟩
  split_ifs
  · exact (h.detectExt2Fs_refines hst buf blkNo).bind fun s t hst => hstore hst
  · exact hstore hst

end Pieces

/-- **`write_smr_blocks` does the same over both layers.** -/
theorem writeSmrBlocks_refines (h : LayerSim L M allowed R) (aware : Bool) {s : Ext2Sys σ}
    {t : Ext2Sys τ} (hst : SysRel R s t) (bufs : List Block) (blkNo : ℕ) :
    Refines allowed (SysRel R) (s.writeSmrBlocks L aware bufs blkNo)
      (t.writeSmrBlocks M aware bufs blkNo) := by
  induction bufs generalizing s t blkNo with
  | nil => exact hst
  | cons buf bufs ih =>
    rw [Ext2Sys.writeSmrBlocks, Ext2Sys.writeSmrBlocks]
    exact (h.writeOne_refines aware hst buf blkNo).bind fun s t hst => ih hst (blkNo + 1)

/-- **`read_smr_blocks` does the same over both layers.** -/
theorem readSmrBlocks_refines (h : LayerSim L M allowed R) {s : Ext2Sys σ} {t : Ext2Sys τ}
    (hst : SysRel R s t) (bufs : List Block) (blkNo : ℕ) :
    Refines allowed (fun x y => x.1 = y.1 ∧ SysRel R x.2 y.2) (s.readSmrBlocks L bufs blkNo)
      (t.readSmrBlocks M bufs blkNo) := by
  rw [Ext2Sys.readSmrBlocks, Ext2Sys.readSmrBlocks]
  split_ifs with hlt
  · obtain ⟨h1, h2⟩ := h.read (fun i => bufs.getD i 0) hst.dev hlt
    exact ⟨by rw [h1], h2, hst.metaCtr, hst.sbsBuf, hst.bgDescsBuf, hst.blkBmp⟩
  · exact refines_error

end LayerSim

end MemSmr
