import MemSmr.Phases
import MemSmr.Positions

/-!
# The inode tables

`do_group_descriptor` computes the length of an inode table from `sizeof(struct ext2_inode)`.

* `ReachesBgDescs`: a call of the detector sets the status to `BG_DESCs_DETECTED`, and the state in
  which it does.  `ReachesBgDescs.detect` relates it to `detect_ext2_fs`.
* `extents_eq_iff`: overlapping extents determine their common length.
* `inode_tables_recorded`: which blocks are then in `INO_TABLE_IDX`.
-/

namespace MemSmr

open Outcome Ext2MetaCtr

/-! ## When the descriptors have been read -/

namespace Ext2Sys

section Reaches

variable {σ : Type} (L : BlockLayer σ)

/-- `detect_BG_DESCs_if_SBs` gets to the next stage, which it calls in state `s'`. -/
def ReadsBgDescs (s s' : Ext2Sys σ) : Prop :=
  s.allElementsMapped L (s.metaCtr.metaBlks .tmpIdx).toList = .ok true ∧
    ∃ s₁, (s.metaCtr.metaBlks .tmpIdx).toList.foldlM (readBgDescBlk L) s = .ok s₁ ∧
      s' = { s₁ with metaCtr := (s₁.metaCtr.setStatus .bgDescsDetected).refillTmp .blkBmpIdx }

/-- `detect_SBs_if_SB0` gets that far. -/
def ReadsSBs (s s' : Ext2Sys σ) : Prop :=
  s.allElementsMapped L (s.metaCtr.metaBlks .tmpIdx).toList = .ok true ∧
    ∃ s₁, s.checkSuperBlks L (s.metaCtr.metaBlks .tmpIdx).toList = .ok (true, s₁) ∧
      ReadsBgDescs L { s₁ with metaCtr := s₁.metaCtr.takeBgDescs } s'

/-- A call of the detector sets the status to `BG_DESCs_DETECTED`, and `s'` is the state in which the
next stage begins. -/
def ReachesBgDescs (s : Ext2Sys σ) (buf : Block) (blkNo : ℕ) (s' : Ext2Sys σ) : Prop :=
  match s.metaCtr.status with
  | .noSb0 => blkNo = sb0BlockNo ∧
      (Ext2SuperBlock.ofBlock buf firstSuperBlockOffset).isLegal = true ∧
      ∃ m, s.metaCtr.takeSuperBlk (Ext2SuperBlock.ofBlock buf firstSuperBlockOffset) = .ok m ∧
        ReadsSBs L { s with metaCtr := m } s'
  | .sb0Detected => ReadsSBs L s s'
  | .sbsDetected => ReadsBgDescs L s s'
  | _ => False

variable {L} {s s' : Ext2Sys σ} {buf : Block} {blkNo : ℕ}

theorem ReadsBgDescs.detect (h : ReadsBgDescs L s s') :
    s.detectBgDescsIfSBs L = s'.detectBlkBmpIfBgDescs L := by
  obtain ⟨hmapped, s₁, hloop, rfl⟩ := h
  rw [detectBgDescsIfSBs, hmapped, ok_bind, if_pos rfl, hloop]
  rfl

theorem ReadsSBs.detect (h : ReadsSBs L s s') :
    s.detectSBsIfSB0 L = s'.detectBlkBmpIfBgDescs L := by
  obtain ⟨hmapped, s₁, hcheck, hread⟩ := h
  rw [detectSBsIfSB0_eq, hmapped, ok_bind, if_pos rfl, hcheck, ok_bind, ← hread.detect]
  exact if_pos rfl

/-- The rest of the call is the next stage. -/
theorem ReachesBgDescs.detect (h : ReachesBgDescs L s buf blkNo s') :
    s.detectExt2Fs L buf blkNo = s'.detectBlkBmpIfBgDescs L := by
  rw [ReachesBgDescs] at h
  rw [detectExt2Fs]
  cases hs : s.metaCtr.status with
  | noSb0 =>
    rw [hs] at h
    obtain ⟨rfl, hlegal, m, hm, hread⟩ := h
    dsimp only
    rw [detectSB0IfNoSB0_eq, if_pos hlegal, hm, ok_bind, hread.detect]
  | sb0Detected =>
    rw [hs] at h
    exact ReadsSBs.detect h
  | sbsDetected =>
    rw [hs] at h
    exact ReadsBgDescs.detect h
  | _ =>
    rw [hs] at h
    exact h.elim

end Reaches

/-! ## Over two layers -/

section Refines

variable {σ τ : Type} {L : BlockLayer σ} {M : BlockLayer τ} {allowed : Fault → Prop}
  {R : σ → τ → Prop} {s s' : Ext2Sys σ} {t : Ext2Sys τ} {buf : Block} {blkNo : ℕ}

theorem ReadsBgDescs.refines (hsim : LayerSim L M allowed R) (hst : SysRel R s t)
    (h : ReadsBgDescs L s s') : ∃ t', ReadsBgDescs M t t' ∧ SysRel R s' t' := by
  obtain ⟨hmapped, s₁, hloop, rfl⟩ := h
  rw [hst.metaCtr] at hmapped hloop
  obtain ⟨c, hc, rfl⟩ := (hsim.allElementsMapped_refines hst _).ok_of_ok hmapped
  obtain ⟨t₁, ht₁, hst₁⟩ := (Refines.foldlM hst fun blk _ s t hst =>
    hsim.readBgDescBlk_refines hst blk).ok_of_ok hloop
  refine ⟨_, ⟨hc, t₁, ht₁, rfl⟩, ?_⟩
  rw [hst₁.metaCtr]
  exact hst₁.setCtr _

theorem ReadsSBs.refines (hsim : LayerSim L M allowed R) (hst : SysRel R s t)
    (h : ReadsSBs L s s') : ∃ t', ReadsSBs M t t' ∧ SysRel R s' t' := by
  obtain ⟨hmapped, s₁, hcheck, hread⟩ := h
  rw [hst.metaCtr] at hmapped hcheck
  obtain ⟨c, hc, rfl⟩ := (hsim.allElementsMapped_refines hst _).ok_of_ok hmapped
  obtain ⟨⟨legal, t₁⟩, ht₁, hlegal, hst₁⟩ := (hsim.checkSuperBlks_refines hst _).ok_of_ok hcheck
  obtain rfl : true = legal := hlegal
  have hctr : s₁.metaCtr = t₁.metaCtr := hst₁.metaCtr
  rw [hctr] at hread
  obtain ⟨t', ht', hst'⟩ := ReadsBgDescs.refines hsim (hst₁.setCtr _) hread
  exact ⟨t', ⟨hc, t₁, ht₁, ht'⟩, hst'⟩

theorem ReachesBgDescs.refines (hsim : LayerSim L M allowed R) (hst : SysRel R s t)
    (h : ReachesBgDescs L s buf blkNo s') :
    ∃ t', ReachesBgDescs M t buf blkNo t' ∧ SysRel R s' t' := by
  rw [ReachesBgDescs, hst.metaCtr] at h
  simp only [ReachesBgDescs]
  cases hs : t.metaCtr.status with
  | noSb0 =>
    rw [hs] at h
    obtain ⟨hblk, hlegal, m, hm, hread⟩ := h
    obtain ⟨t', ht', hst'⟩ := ReadsSBs.refines hsim (hst.setCtr m) hread
    exact ⟨t', ⟨hblk, hlegal, m, hm, ht'⟩, hst'⟩
  | sb0Detected =>
    rw [hs] at h
    exact ReadsSBs.refines hsim hst h
  | sbsDetected =>
    rw [hs] at h
    exact ReadsBgDescs.refines hsim hst h
  | _ =>
    rw [hs] at h
    exact h.elim

end Refines

/-! ## Over the plain array -/

section Array

variable {s s' : Ext2Sys ArrayDisk} {desc buf : Block} {blkNo : ℕ}

/-- The descriptors have been read from the disk and decoded. -/
def HasDecoded (a : ArrayDisk) (s' : Ext2Sys ArrayDisk) : Prop :=
  ∃ desc, a (sb0BlockNo + 1) = some desc ∧ Decoded a desc s'.metaCtr

theorem ReadsBgDescs.decoded (hphase : SbsPhase s.dev s.metaCtr)
    (h : ReadsBgDescs arrayLayer s s') : HasDecoded s.dev s' := by
  obtain ⟨hmapped, s₁, hloop, rfl⟩ := h
  have hone := ((vectMapped_spec s _).of_ok hmapped).mp rfl _ ((hphase.tmp _).mpr rfl)
  obtain ⟨desc, hdesc⟩ := Option.isSome_iff_exists.mp hone.2
  exact ⟨desc, hdesc, ((readBgDescBlks_spec hphase hone hdesc).of_ok hloop).2.2⟩

theorem ReadsSBs.decoded (hphase : Sb0Phase s.metaCtr) (h : ReadsSBs arrayLayer s s') :
    HasDecoded s.dev s' := by
  obtain ⟨hmapped, s₁, hcheck, hread⟩ := h
  have hall := ((vectMapped_spec s _).of_ok hmapped).mp rfl
  obtain ⟨hdev, hctr, -⟩ := (checkSuperBlks_spec s fun x hx =>
    hall x (SortedVector.mem_toList.mp hx)).of_ok hcheck
  dsimp only at hdev hctr
  rw [hctr] at hread
  have hsbs := (sbsPhase_recordBgDescs hphase (hphase.small_of_mapped hall) hall rfl).1
  rw [← hdev] at hsbs ⊢
  exact ReadsBgDescs.decoded (s := { s₁ with metaCtr := s.metaCtr.takeBgDescs }) hsbs hread

theorem ReachesBgDescs.decoded (hphase : Phase s.dev desc s.metaCtr)
    (h : ReachesBgDescs arrayLayer s buf blkNo s') : HasDecoded s.dev s' := by
  rw [ReachesBgDescs] at h
  cases hphase with
  | noSb0 hs =>
    rw [hs] at h
    obtain ⟨-, hlegal, m, hm, hread⟩ := h
    obtain ⟨m', hm', -, hrec⟩ := recordSuperBlks_start s.metaCtr
      (Ext2SuperBlock.ofBlock buf firstSuperBlockOffset)
    obtain rfl := Except.ok.inj (hm.symm.trans hm')
    exact ReadsSBs.decoded (s := { s with metaCtr := m }) (hrec.sb0Phase hlegal) hread
  | sb0 hphase =>
    rw [hphase.status] at h
    exact ReadsSBs.decoded hphase h
  | sbs hphase =>
    rw [hphase.status] at h
    exact ReadsBgDescs.decoded hphase h
  | descs hphase =>
    cases hphase with
    | bgDescs hs => rw [hs] at h; exact h.elim
    | blkBitmap hs => rw [hs] at h; exact h.elim
    | inoBitmap hs => rw [hs] at h; exact h.elim
  | ext2 hs => rw [hs] at h; exact h.elim

end Array

end Ext2Sys

/-! ## Extents -/

/-- Extents of the same length, one from each of the given starts. -/
def InExtents (n : ℕ) (start : ℕ → ℕ) (len x : ℕ) : Prop :=
  ∃ g < n, start g ≤ x ∧ x < start g + len

/-- The last of the starts decides how far the extents go. -/
theorem InExtents.le_of_forall {n a b : ℕ} {start : ℕ → ℕ} (hn : 0 < n)
    (h : ∀ x, InExtents n start b x → InExtents n start a x) : b ≤ a := by
  obtain ⟨g, hg, hmax⟩ := (Finset.range n).exists_max_image start ⟨0, Finset.mem_range.mpr hn⟩
  by_contra hlt
  obtain ⟨g', hg', -, hlast⟩ := h (start g + b - 1)
    ⟨g, Finset.mem_range.mp hg, by omega, by omega⟩
  have hle := hmax g' (Finset.mem_range.mpr hg')
  omega

theorem extents_eq_iff {n a b : ℕ} {start : ℕ → ℕ} (hn : 0 < n) :
    (∀ x, InExtents n start a x ↔ InExtents n start b x) ↔ a = b := by
  refine ⟨fun h => ?_, fun h x => by rw [h]⟩
  exact le_antisymm (InExtents.le_of_forall hn fun x => (h x).mp)
    (InExtents.le_of_forall hn fun x => (h x).mpr)

/-! ## What is recorded -/

/-- The number of blocks of an inode table with inodes of `size` bytes. -/
def Ext2SuperBlock.inoTableLen (sb : Ext2SuperBlock) (size : ℕ) : ℕ :=
  (sb.sInodesPerGroup * size + (ext2BlockSize - 1)) / ext2BlockSize

/-- The blocks of all inode tables, for inodes of `size` bytes. -/
def Ext2SuperBlock.InInoTables (sb : Ext2SuperBlock) (desc : Block) (size x : ℕ) : Prop :=
  InExtents sb.gdCnt (fun g => (groupDesc (fun _ => desc) g).bgInodeTable) (sb.inoTableLen size) x

/-- Tables that start inside the device do not wrap around. -/
theorem isInoTablePos_iff {sb : Ext2SuperBlock} {desc : Block} (hdesc : ∀ g < sb.gdCnt,
    (groupDesc (fun _ => desc) g).bgInodeTable < totalSmrBlocksCnt) (x : ℕ) :
    sb.IsInoTablePos (fun _ => desc) x ↔ sb.InInoTables desc sizeofInode x := by
  refine exists_congr fun g => and_congr_right fun hg => ?_
  have hlt := hdesc g hg
  have hlen : sb.tableBlks ≤ 2 ^ 27 := sb.tableBlks_le
  change (∃ i < sb.tableBlks, x = ((groupDesc (fun _ => desc) g).bgInodeTable + i) % 2 ^ 32) ↔
    (groupDesc (fun _ => desc) g).bgInodeTable ≤ x ∧
      x < (groupDesc (fun _ => desc) g).bgInodeTable + sb.tableBlks
  rw [totalSmrBlocksCnt_eq] at hlt
  constructor
  · rintro ⟨i, hi, rfl⟩
    omega
  · rintro ⟨h1, h2⟩
    exact ⟨x - (groupDesc (fun _ => desc) g).bgInodeTable, by omega, by omega⟩

/-- What the detector has recorded when it reaches `BG_DESCs_DETECTED`. -/
theorem decoded_of_reaches {env : Env} {data : ℕ → Block} {ops : List HostOp}
    {outs : List (List Block)} {s s' : Ext2Sys SmrDev} {buf : Block} {blkNo : ℕ}
    (hrun : runModule env data ops = .ok (outs, s))
    (hreach : s.ReachesBgDescs (smrLayer env) buf blkNo s') :
    ∃ desc, s.dev.contents (sb0BlockNo + 1) = some desc ∧ s'.metaCtr.sb0.isLegal = true ∧
      ∀ x, x ∈ s'.metaCtr.metaBlks .inoTableIdx ↔
        s'.metaCtr.sb0.IsInoTablePos (fun _ => desc) x := by
  obtain ⟨⟨outs', t⟩, hr, -, hst⟩ := (runModule_refines env data ops).ok_of_ok hrun
  obtain ⟨desc₀, hphase⟩ := (meets_runOps_array env.aware inPhase_freshArray ops).of_ok hr
  obtain ⟨t', ht', hst'⟩ := hreach.refines (smrLayer_sim env) hst
  obtain ⟨desc, hdesc, hdecoded⟩ := ht'.decoded hphase
  rw [← hst'.metaCtr] at hdecoded
  have hcontents : s.dev.contents (sb0BlockNo + 1) = t.dev (sb0BlockNo + 1) :=
    hst.dev.contents _ descBlk_lt
  exact ⟨desc, hcontents.trans hdesc, hdecoded.legal, hdecoded.inoTable⟩

/-- When the tables are those for inodes of another size. -/
theorem inInoTables_size_iff (sb : Ext2SuperBlock) (desc : Block) (size size' : ℕ) :
    (∀ x, sb.InInoTables desc size x ↔ sb.InInoTables desc size' x) ↔
      sb.inoTableLen size = sb.inoTableLen size' := extents_eq_iff sb.gdCnt_pos

/-- **The inode tables.**  When a call of the detector reaches `BG_DESCs_DETECTED` in any run, the
blocks of the tables are recorded for inodes of `sizeof(struct ext2_inode)` bytes.  These are the
tables that the super block describes just when inodes of the size that it states fill the same number
of blocks. -/
theorem inode_tables_recorded (env : Env) (data : ℕ → Block) (ops : List HostOp)
    (outs : List (List Block)) (s s' : Ext2Sys SmrDev) (buf : Block) (blkNo : ℕ)
    (hrun : runModule env data ops = .ok (outs, s))
    (hreach : s.ReachesBgDescs (smrLayer env) buf blkNo s') :
    ∃ desc, s.dev.contents (sb0BlockNo + 1) = some desc ∧ s'.metaCtr.sb0.isLegal = true ∧
      ((∀ g < s'.metaCtr.sb0.gdCnt,
          (groupDesc (fun _ => desc) g).bgInodeTable < totalSmrBlocksCnt) →
        (∀ x, x ∈ s'.metaCtr.metaBlks .inoTableIdx ↔
          s'.metaCtr.sb0.InInoTables desc sizeofInode x) ∧
        ((∀ x, x ∈ s'.metaCtr.metaBlks .inoTableIdx ↔
            s'.metaCtr.sb0.InInoTables desc s'.metaCtr.sb0.sInodeSize x) ↔
          s'.metaCtr.sb0.inoTableLen sizeofInode =
            s'.metaCtr.sb0.inoTableLen s'.metaCtr.sb0.sInodeSize)) := by
  obtain ⟨desc, hdesc, hlegal, htable⟩ := decoded_of_reaches hrun hreach
  refine ⟨desc, hdesc, hlegal, fun hinside => ?_⟩
  have hmem := fun x => (htable x).trans (isInoTablePos_iff hinside x)
  refine ⟨hmem, ?_⟩
  rw [← inInoTables_size_iff]
  exact forall_congr' fun x => iff_congr (hmem x) Iff.rfl

/-! ## Inodes of another size -/

/-- A call of the detector in status `SBs_DETECTED` over the module does what it does over the
plain array. -/
theorem Ext2Sys.ReadsBgDescs.lift {σ τ : Type} {L : BlockLayer σ} {M : BlockLayer τ}
    {allowed : Fault → Prop} {R : σ → τ → Prop} (hsim : LayerSim L M allowed R)
    (hno : ∀ e, ¬ allowed e) {s : Ext2Sys σ} {t t' : Ext2Sys τ} (hst : SysRel R s t)
    (h : t.ReadsBgDescs M t') : ∃ s', s.ReadsBgDescs L s' ∧ SysRel R s' t' := by
  obtain ⟨hmapped, t₁, hloop, rfl⟩ := h
  rw [← hst.metaCtr] at hmapped hloop
  obtain ⟨c, hc, rfl⟩ := (hsim.allElementsMapped_refines hst _).ok_of_ok_right hno hmapped
  obtain ⟨s₁, hs₁, hst₁⟩ := (Refines.foldlM hst fun blk _ s t hst =>
    hsim.readBgDescBlk_refines hst blk).ok_of_ok_right hno hloop
  refine ⟨_, ⟨hc, s₁, hs₁, rfl⟩, ?_⟩
  rw [hst₁.metaCtr]
  exact hst₁.setCtr _

/-- Block 0 of a small file system with 32 inodes of 256 bytes. -/
def wideSuperBlk : Block :=
  Block.ofBytes [(0x405, 0x80), (0x418, 2), (0x421, 0x80), (0x428, 32), (0x438, 0x53),
    (0x439, 0xEF), (0x459, 1)]

/-- The numbers that decide which blocks the tables take. -/
def IsWide (sb : Ext2SuperBlock) : Prop :=
  sb.gdCnt = 1 ∧ sb.sInodeSize = 256 ∧ sb.inoTableLen sizeofInode = 1 ∧ sb.inoTableLen 256 = 2

instance (sb : Ext2SuperBlock) : Decidable (IsWide sb) := inferInstanceAs (Decidable (_ ∧ _))

/-- Over the plain array the next write makes the detector read the descriptors. -/
theorem wide_reaches_array :
    ∃ outs t t', runOps arrayLayer true freshArray [.write 0 [wideSuperBlk, smallDescBlk]] =
        .ok (outs, t) ∧ t.metaCtr.status = .sbsDetected ∧
      (t.dev (sb0BlockNo + 1)).map (fun b => (groupDesc (fun _ => b) 0).bgInodeTable) = some 4 ∧
      t.ReadsBgDescs arrayLayer t' ∧ IsWide t'.metaCtr.sb0 := by
  have hok : ∀ {α : Type} {x : Except Fault α} {P : α → Bool}, x.toOption.any P = true →
      ∃ a, x = .ok a ∧ P a = true := by
    intro α x P h
    cases x with
    | ok a => exact ⟨a, rfl, h⟩
    | error e => cases h
  have hrun : (runOps arrayLayer true freshArray
      [.write 0 [wideSuperBlk, smallDescBlk]]).toOption.any (fun r =>
        decide (r.2.metaCtr.status = .sbsDetected) &&
        (decide ((r.2.dev (sb0BlockNo + 1)).map
          (fun b => (groupDesc (fun _ => b) 0).bgInodeTable) = some 4) &&
        ((r.2.allElementsMapped arrayLayer (r.2.metaCtr.metaBlks .tmpIdx).toList).toOption.any
            (fun c => c) &&
          ((r.2.metaCtr.metaBlks .tmpIdx).toList.foldlM (Ext2Sys.readBgDescBlk arrayLayer)
            r.2).toOption.any (fun t₁ => decide (IsWide t₁.metaCtr.sb0))))) = true := by
    decide +kernel
  obtain ⟨⟨outs, t⟩, hrun, hall⟩ := hok hrun
  simp only [Bool.and_eq_true] at hall
  obtain ⟨hstatus, hdesc, hmapped, hloop⟩ := hall
  obtain ⟨c, hmapped, rfl⟩ := hok hmapped
  obtain ⟨t₁, hloop, hwide⟩ := hok hloop
  exact ⟨outs, t, _, hrun, of_decide_eq_true hstatus, of_decide_eq_true hdesc,
    ⟨hmapped, t₁, hloop, rfl⟩, of_decide_eq_true hwide⟩

/-- The same over the module. -/
theorem wide_reaches :
    ∃ outs s s' desc, runModule awareEnv (fun _ => 0)
        [.write 0 [wideSuperBlk, smallDescBlk]] = .ok (outs, s) ∧
      s.ReachesBgDescs (smrLayer awareEnv) 0 2 s' ∧ IsWide s'.metaCtr.sb0 ∧
      s.dev.contents (sb0BlockNo + 1) = some desc ∧
      (groupDesc (fun _ => desc) 0).bgInodeTable = 4 := by
  obtain ⟨outs, t, t', hrun, hstatus, hdesc, hread, hwide⟩ := wide_reaches_array
  have hno := not_pastEndFault awareEnv_pastEndNotFree
  obtain ⟨⟨outs', s⟩, hrun', -, hst⟩ :=
    (runModule_refines awareEnv (fun _ => 0) _).ok_of_ok_right hno hrun
  obtain ⟨s', hread', hst'⟩ := hread.lift (smrLayer_sim awareEnv) hno hst
  obtain ⟨desc, hdesc, htable⟩ := Option.map_eq_some_iff.mp hdesc
  refine ⟨outs', s, s', desc, hrun', ?_, ?_, (hst.dev.contents _ descBlk_lt).trans hdesc, htable⟩
  · rw [Ext2Sys.ReachesBgDescs, hst.metaCtr, hstatus]
    exact hread'
  · rw [hst'.metaCtr]
    exact hwide

theorem inode_tables_recorded_wide :
    ∃ s' : Ext2Sys SmrDev, IsWide s'.metaCtr.sb0 ∧ ∃ desc, s'.metaCtr.sb0.isLegal = true ∧
      ((∀ g < s'.metaCtr.sb0.gdCnt,
          (groupDesc (fun _ => desc) g).bgInodeTable < totalSmrBlocksCnt) →
        (∀ x, x ∈ s'.metaCtr.metaBlks .inoTableIdx ↔
          s'.metaCtr.sb0.InInoTables desc sizeofInode x) ∧
        ((∀ x, x ∈ s'.metaCtr.metaBlks .inoTableIdx ↔
            s'.metaCtr.sb0.InInoTables desc s'.metaCtr.sb0.sInodeSize x) ↔
          s'.metaCtr.sb0.inoTableLen sizeofInode =
            s'.metaCtr.sb0.inoTableLen s'.metaCtr.sb0.sInodeSize)) := by
  obtain ⟨outs, s, s', -, hrun, hreach, hwide, -, -⟩ := wide_reaches
  obtain ⟨desc, -, h⟩ := inode_tables_recorded awareEnv _ _ outs s s' 0 2 hrun hreach
  exact ⟨s', hwide, desc, h⟩

/-- **Inodes of 256 bytes.**  Only the first half of their table is recorded. -/
theorem wide_table_missed :
    ∃ outs s s' desc, runModule awareEnv (fun _ => 0)
        [.write 0 [wideSuperBlk, smallDescBlk]] = .ok (outs, s) ∧
      s.ReachesBgDescs (smrLayer awareEnv) 0 2 s' ∧
      s.dev.contents (sb0BlockNo + 1) = some desc ∧ s'.metaCtr.sb0.isLegal = true ∧
      (∀ g < s'.metaCtr.sb0.gdCnt,
        (groupDesc (fun _ => desc) g).bgInodeTable < totalSmrBlocksCnt) ∧
      ¬ ∀ x, x ∈ s'.metaCtr.metaBlks .inoTableIdx ↔
        s'.metaCtr.sb0.InInoTables desc s'.metaCtr.sb0.sInodeSize x := by
  obtain ⟨outs, s, s', desc, hrun, hreach, ⟨hcnt, hsize, hlen, hlen'⟩, hdesc, htable⟩ := wide_reaches
  obtain ⟨desc', hdesc', hlegal, hmem⟩ := decoded_of_reaches hrun hreach
  obtain rfl := Option.some.inj (hdesc.symm.trans hdesc')
  have hinside : ∀ g < s'.metaCtr.sb0.gdCnt,
      (groupDesc (fun _ => desc) g).bgInodeTable < totalSmrBlocksCnt := by
    intro g hg
    obtain rfl : g = 0 := by omega
    rw [htable, totalSmrBlocksCnt_eq]
    decide
  refine ⟨outs, s, s', desc, hrun, hreach, hdesc, hlegal, hinside, fun hall => ?_⟩
  have hsame := (inInoTables_size_iff s'.metaCtr.sb0 desc sizeofInode s'.metaCtr.sb0.sInodeSize).mp
    fun x => ((hmem x).trans (isInoTablePos_iff hinside x)).symm.trans (hall x)
  rw [hsize, hlen, hlen'] at hsame
  omega

end MemSmr
