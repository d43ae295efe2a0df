import MemSmr.ArrayDisk
import MemSmr.Layout

/-!
# What the detector has found out

The detector over a plain array of blocks.  In each status the vectors hold the positions that the
super block and the descriptors read so far give, and the stages wait for the blocks in `TMP_IDX`.

* `Sb0Phase`, `SbsPhase`, `DescsPhase`: what holds in the statuses between `NO_SB0` and
  `EXT2_DETECTED`; `Phase` puts them together.
* `Finished`: the outcome of a detection that has gone through.  Only then have blocks been trimmed.
* `markOneBlkBmp_rule`: the invariant rule for the loop over a bitmap.
* `Waits`, `Restarts`: a call that stays in its stage, and one that leads back to `NO_SB0`.
* `detectExt2Fs_spec`: what one call of the detector does.  It stops on no other fault than an index
  past the table.
* `Detects.phase`, `Detects.sub`: it leads from phase to phase, and changes no contents.
-/

namespace MemSmr

open Outcome Ext2MetaCtr

/-- The only fault of the detector: a block number past the end of `mapping_table`. -/
def TableFault (e : Fault) : Prop := ∃ i, e = .tableIndex i

theorem checkIndex_spec (l : ℕ) :
    Meets TableFault (fun _ => l < totalSmrBlocksCnt) (checkIndex l) := by
  rw [checkIndex]
  split_ifs with h
  · exact h
  · exact ⟨l, rfl⟩

/-! ## Phases -/

/-- A block of the device has contents. -/
def HasBlock (a : ArrayDisk) (x : ℕ) : Prop := x < totalSmrBlocksCnt ∧ (a x).isSome = true

/-- Every block in a vector is in the device and has contents. -/
def Mapped (a : ArrayDisk) (v : SortedVector) : Prop := ∀ x ∈ v, HasBlock a x

/-- The copies of the super block that the detector waits for are legal. -/
def OthersLegal (a : ArrayDisk) (m : Ext2MetaCtr) : Prop :=
  ∀ x ∈ m.metaBlks .tmpIdx, ∀ b, a x = some b → (Ext2SuperBlock.ofBlock b 0).isLegal = true

/-- `TMP_IDX` is a copy of another vector. -/
def Ext2MetaCtr.TmpIs (m : Ext2MetaCtr) (idx : MetaVectIndex) : Prop :=
  ∀ x, x ∈ m.metaBlks .tmpIdx ↔ x ∈ m.metaBlks idx

/-- `SB0_DETECTED`: the positions of the super blocks are known. -/
structure Sb0Phase (m : Ext2MetaCtr) : Prop where
  status : m.status = .sb0Detected
  legal : m.sb0.isLegal = true
  super : ∀ x, x ∈ m.metaBlks .sbIdx ↔ x = sb0BlockNo ∨ x ∈ m.metaBlks .tmpIdx
  rest : ∀ idx, idx ≠ .sbIdx → idx ≠ .tmpIdx → ∀ x, x ∉ m.metaBlks idx
  small : m.sb0.gdCnt ≤ 8 → ∀ x, x ∈ m.metaBlks .tmpIdx ↔
    ∃ g < m.sb0.gdCnt, IsSparseGroup g ∧ x = m.sb0.groupStart g
  wrapped : m.sb0.gdCnt = 131072 → m.sb0.groupStart 9 ∈ m.metaBlks .tmpIdx
  groups : ∀ x ∈ m.metaBlks .tmpIdx, ∃ g < m.sb0.gdCnt, IsSparseGroup g ∧ x = m.sb0.groupStart g

/-- After the super blocks have been recorded. -/
theorem Ext2MetaCtr.SuperBlksRecorded.sb0Phase {m m' : Ext2MetaCtr} {sbp : Ext2SuperBlock}
    (h : SuperBlksRecorded sbp { m.setStatus .sb0Detected with sb0 := sbp } m')
    (hlegal : sbp.isLegal = true) : Sb0Phase m' := by
  have hsb0 : m'.sb0 = sbp := h.only.sb0
  refine ⟨h.only.status, ?_, h.super, h.rest, ?_, ?_, ?_⟩
  · rw [hsb0]
    exact hlegal
  · rw [hsb0]
    exact h.small
  · rw [hsb0]
    exact h.wrapped
  · rw [hsb0]
    exact h.groups

/-- The detector does not wait for block 0. -/
theorem Sb0Phase.zero_notMem {m : Ext2MetaCtr} (h : Sb0Phase m) : sb0BlockNo ∉ m.metaBlks .tmpIdx := by
  intro hmem
  obtain ⟨g, hg, hsparse, heq⟩ := h.groups _ hmem
  exact Ext2SuperBlock.groupStart_ne_zero h.legal hg hsparse heq.symm

/-- From `SBs_DETECTED` on: all the super blocks have been read. -/
structure SupersKnown (a : ArrayDisk) (m : Ext2MetaCtr) : Prop where
  legal : m.sb0.isLegal = true
  small : m.sb0.gdCnt ≤ 8
  super : ∀ x, x ∈ m.metaBlks .sbIdx ↔ m.sb0.IsSuperPos x
  bgDesc : ∀ x, x ∈ m.metaBlks .bgDescIdx ↔ m.sb0.IsDescPos x
  mapped : ∀ x ∈ m.metaBlks .sbIdx, x ≠ sb0BlockNo → HasBlock a x

/-- `SBs_DETECTED`. -/
structure SbsPhase (a : ArrayDisk) (m : Ext2MetaCtr) : Prop extends SupersKnown a m where
  status : m.status = .sbsDetected
  tmp : ∀ x, x ∈ m.metaBlks .tmpIdx ↔ x = sb0BlockNo + 1
  rest : ∀ idx, idx ≠ .sbIdx → idx ≠ .tmpIdx → idx ≠ .bgDescIdx → ∀ x, x ∉ m.metaBlks idx

/-- From `BG_DESCs_DETECTED` on: the vectors are what the super block and the descriptors in `desc`
say. -/
structure Decoded (a : ArrayDisk) (desc : Block) (m : Ext2MetaCtr) : Prop
    extends SupersKnown a m where
  descMapped : HasBlock a (sb0BlockNo + 1)
  blkBmp : ∀ x, x ∈ m.metaBlks .blkBmpIdx ↔ m.sb0.IsBlkBmpPos (fun _ => desc) x
  inoBmp : ∀ x, x ∈ m.metaBlks .inoBmpIdx ↔ m.sb0.IsInoBmpPos (fun _ => desc) x
  inoTable : ∀ x, x ∈ m.metaBlks .inoTableIdx ↔ m.sb0.IsInoTablePos (fun _ => desc) x

/-- The statuses after the descriptors have been read and before the end. -/
inductive DescsPhase (a : ArrayDisk) (desc : Block) (m : Ext2MetaCtr) : Prop
  | bgDescs (hs : m.status = .bgDescsDetected) (h : Decoded a desc m) (htmp : m.TmpIs .blkBmpIdx)
  | blkBitmap (hs : m.status = .blkBitmapDetected) (h : Decoded a desc m)
      (htmp : m.TmpIs .inoBmpIdx) (hblk : Mapped a (m.metaBlks .blkBmpIdx))
  | inoBitmap (hs : m.status = .inoBitmapDetected) (h : Decoded a desc m)
      (htmp : m.TmpIs .inoTableIdx) (hblk : Mapped a (m.metaBlks .blkBmpIdx))
      (hino : Mapped a (m.metaBlks .inoBmpIdx))

/-- What holds of the detector between two writes. -/
inductive Phase (a : ArrayDisk) (desc : Block) (m : Ext2MetaCtr) : Prop
  | noSb0 (hs : m.status = .noSb0)
  | sb0 (h : Sb0Phase m)
  | sbs (h : SbsPhase a m)
  | descs (h : DescsPhase a desc m)
  | ext2 (hs : m.status = .ext2Detected) (htmp : ∀ x, x ∉ m.metaBlks .tmpIdx)

/-- After a detection has gone through the detector waits for nothing. -/
theorem Phase.tmp_empty {a : ArrayDisk} {desc : Block} {m : Ext2MetaCtr} (h : Phase a desc m)
    (hs : m.status = .ext2Detected) (x : ℕ) : x ∉ m.metaBlks .tmpIdx := by
  cases h with
  | noSb0 hs' => exact absurd (hs.symm.trans hs') (by decide)
  | sb0 h => exact absurd (hs.symm.trans h.status) (by decide)
  | sbs h => exact absurd (hs.symm.trans h.status) (by decide)
  | descs h =>
    cases h with
    | bgDescs hs' => exact absurd (hs.symm.trans hs') (by decide)
    | blkBitmap hs' => exact absurd (hs.symm.trans hs') (by decide)
    | inoBitmap hs' => exact absurd (hs.symm.trans hs') (by decide)
  | ext2 _ htmp => exact htmp x

/-- Everything that the layout names has contents. -/
structure AllMapped (a : ArrayDisk) (m : Ext2MetaCtr) : Prop where
  blkBmp : Mapped a (m.metaBlks .blkBmpIdx)
  inoBmp : Mapped a (m.metaBlks .inoBmpIdx)
  inoTable : Mapped a (m.metaBlks .inoTableIdx)

/-- The detection has gone through over the contents `a`, and the blocks that are free have been
trimmed. -/
structure Finished (a : ArrayDisk) (desc : Block) (s : Ext2Sys ArrayDisk) : Prop where
  status : s.metaCtr.status = .ext2Detected
  decoded : Decoded a desc s.metaCtr
  mapped : AllMapped a s.metaCtr
  tmp : ∀ x, x ∉ s.metaCtr.metaBlks .tmpIdx
  trimmed : ∃ (s' : Ext2Sys ArrayDisk) (c : ℕ), s'.dev = a ∧ s'.metaCtr = s.metaCtr ∧
    s'.markAllFreeBlks arrayLayer = .ok (c, s)

/-! ## The pieces -/

section Pieces

variable {s : Ext2Sys ArrayDisk}

/-- `all_elements_mapped` says whether the blocks have contents, and has checked the index of each
of them if they do. -/
theorem allElementsMapped_spec (s : Ext2Sys ArrayDisk) (l : List ℕ) :
    Meets TableFault (fun c => c = true ↔ ∀ x ∈ l, HasBlock s.dev x)
      (s.allElementsMapped arrayLayer l) := by
  induction l with
  | nil => exact ⟨fun _ _ hx => absurd hx List.not_mem_nil, fun _ => rfl⟩
  | cons b l ih =>
    rw [Ext2Sys.allElementsMapped]
    refine (checkIndex_spec b).bind fun _ hb => ?_
    change Meets _ _ (if (s.dev b).isSome = true then _ else _)
    split_ifs with hmap
    · refine ih.mono fun c hc => ?_
      rw [hc, List.forall_mem_cons, and_iff_right ⟨hb, hmap⟩]
    · exact ⟨fun hf => absurd hf Bool.false_ne_true,
        fun h => absurd (h b List.mem_cons_self).2 hmap⟩

/-- The same for a vector. -/
theorem vectMapped_spec (s : Ext2Sys ArrayDisk) (v : SortedVector) :
    Meets TableFault (fun c => c = true ↔ Mapped s.dev v)
      (s.allElementsMapped arrayLayer v.toList) := by
  refine (allElementsMapped_spec s v.toList).mono fun c hc => ?_
  rw [hc, Mapped]
  simp only [SortedVector.mem_toList]

theorem readOne_spec (a : ArrayDisk) (buf : Block) (blkNo : ℕ) :
    Meets TableFault (fun r => r = ((a blkNo).getD buf, a))
      (Ext2Sys.readOne arrayLayer a buf blkNo) := by
  rw [Ext2Sys.readOne]
  exact (checkIndex_spec blkNo).bind fun _ _ => rfl

/-- The meta flags are not part of the array. -/
theorem markMetaBlks_spec (s : Ext2Sys ArrayDisk) (action : MarkAction) :
    Meets TableFault (· = s) (s.markMetaBlks arrayLayer action) := by
  refine meets_foldlM (· = s) rfl fun entry _ s' hs' => ?_
  subst hs'
  refine meets_foldlM (· = s') rfl fun blkNo _ s hs => ?_
  subst hs
  exact (checkIndex_spec blkNo).bind fun _ _ => rfl

end Pieces

/-! ## Trimming -/

/-- Bit `i` of a bitmap block. -/
def getBit (bmp : Block) (i : ℕ) : Bool := (bmp.le32 (4 * (i / 32))).testBit (i % 32)

theorem wordsPerBlock_eq : Ext2Sys.wordsPerBlock = 1024 := by
  rw [Ext2Sys.wordsPerBlock]
  decide

theorem getBit_eq (bmp : Block) (i : ℕ) {j : ℕ} (hj : j < 32) :
    getBit bmp (32 * i + j) = (bmp.le32 (4 * i)).testBit j := by
  have hdiv : (32 * i + j) / 32 = i := by omega
  have hmod : (32 * i + j) % 32 = j := by omega
  rw [getBit, hdiv, hmod]

section Bitmap

variable {σ : Type} (L : BlockLayer σ)

/-- Looking at the bits of a word that is all ones. -/
theorem foldlM_markBit_ones (st : ℕ × ℕ × σ) {n : ℕ} (hn : n ≤ 32) :
    (List.range n).foldlM (Ext2Sys.markBit L (2 ^ 32 - 1)) st = .ok (st.1 + n, st.2) := by
  induction n with
  | zero => rfl
  | succ n ih =>
    have hbit : (2 ^ 32 - 1).testBit n = true := by
      rw [Nat.testBit_two_pow_sub_one]
      exact decide_eq_true hn
    rw [List.range_succ, List.foldlM_append, ih (Nat.le_of_succ_le hn), ok_bind, List.foldlM_cons,
      Ext2Sys.markBit, if_pos hbit]
    rfl

/-- **The shortcut for a word that is all ones** gives what its bits give. -/
theorem markWord_eq (bmp : Block) (st : ℕ × ℕ × σ) (i : ℕ) :
    Ext2Sys.markWord L bmp st i =
      (List.range 32).foldlM (Ext2Sys.markBit L (bmp.le32 (4 * i))) st := by
  rw [Ext2Sys.markWord]
  split_ifs with hones
  · rw [hones, foldlM_markBit_ones L st (le_refl 32)]
  · rfl

/-- **The rule for `mark_one_blk_bmp`.**  What holds at the start and is kept by every bit holds at the
end, and the count is the number of clear bits. -/
theorem markOneBlkBmp_rule {allowed : Fault → Prop} {I : ℕ → σ → Prop} {dev : σ} (bmp : Block)
    (start : ℕ) (h0 : I 0 dev)
    (hset : ∀ n < 32768, getBit bmp n = true → ∀ d, I n d → I (n + 1) d)
    (hclear : ∀ n < 32768, getBit bmp n = false → start + n < totalSmrBlocksCnt →
      ∀ d, I n d → I (n + 1) (L.trimBlock d (start + n)))
    (hout : ∀ n < 32768, getBit bmp n = false → totalSmrBlocksCnt ≤ start + n →
      allowed (.tableIndex (start + n))) :
    Meets allowed (fun r => r.1 = Nat.count (fun k => getBit bmp k = false) 32768 ∧ I 32768 r.2)
      (Ext2Sys.markOneBlkBmp L .ext2Detected dev bmp start) := by
  -- The state of the loops after `n` bits.
  let P : ℕ → ℕ × ℕ × σ → Prop := fun n st =>
    st.1 = start + n ∧ st.2.1 = Nat.count (fun k => getBit bmp k = false) n ∧ I n st.2.2
  have hword : ∀ i < 1024, ∀ st, P (32 * i) st →
      Meets allowed (P (32 * (i + 1))) (Ext2Sys.markWord L bmp st i) := by
    intro i hi st hst
    rw [markWord_eq]
    refine meets_foldlM_range (fun j => P (32 * i + j)) hst ?_
    rintro j hj ⟨b, c, d⟩ ⟨rfl, rfl, hd⟩
    have hlt : 32 * i + j < 32768 := by omega
    have hcount := Nat.count_succ (fun k => getBit bmp k = false) (32 * i + j)
    dsimp only at hd
    rw [Ext2Sys.markBit, ← getBit_eq bmp i hj]
    split_ifs with hbit
    · rw [if_neg (by rw [hbit]; decide)] at hcount
      exact ⟨rfl, hcount.symm, hset _ hlt hbit d hd⟩
    · have hbit' := Bool.eq_false_iff.mpr hbit
      rw [checkIndex]
      split_ifs with hin
      · rw [if_pos hbit'] at hcount
        exact ⟨rfl, hcount.symm, hclear _ hlt hbit' hin d hd⟩
      · exact hout _ hlt hbit' (Nat.not_lt.mp hin)
  have hwords : ∀ w ≤ 1024, Meets allowed (P (32 * w))
      ((List.range w).foldlM (Ext2Sys.markWord L bmp) (start, 0, dev)) := fun w hw =>
    meets_foldlM_range (fun i => P (32 * i)) ⟨rfl, rfl, h0⟩
      fun i hi st hst => hword i (hi.trans_le hw) st hst
  rw [Ext2Sys.markOneBlkBmp, if_pos rfl]
  refine (hwords Ext2Sys.wordsPerBlock wordsPerBlock_eq.le).bind fun st h => meets_pure.mpr ?_
  have hbits : 32 * Ext2Sys.wordsPerBlock = 32768 := by rw [wordsPerBlock_eq]
  rw [hbits] at h
  exact h.2

end Bitmap

/-- The array after the first `n` bits of a bitmap have been looked at, the first of them being the
bit of block `start`. -/
def ArrayDisk.trimFree (a : ArrayDisk) (bmp : Block) (start n : ℕ) : ArrayDisk := fun x =>
  if start ≤ x ∧ x < start + n ∧ getBit bmp (x - start) = false then none else a x

namespace ArrayDisk

theorem trimFree_zero (a : ArrayDisk) (bmp : Block) (start : ℕ) : a.trimFree bmp start 0 = a := by
  funext x
  exact if_neg (by omega)

theorem trimFree_set {a : ArrayDisk} {bmp : Block} {start n : ℕ} (h : getBit bmp n = true) :
    a.trimFree bmp start (n + 1) = a.trimFree bmp start n := by
  funext x
  refine if_congr ⟨fun ⟨h1, h2, h3⟩ => ⟨h1, ?_, h3⟩, fun ⟨h1, h2, h3⟩ => ⟨h1, by omega, h3⟩⟩ rfl rfl
  by_contra hge
  have hx : x - start = n := by omega
  rw [hx, h] at h3
  exact Bool.false_ne_true h3.symm

theorem trimFree_clear {a : ArrayDisk} {bmp : Block} {start n : ℕ} (h : getBit bmp n = false) :
    a.trimFree bmp start (n + 1) = Function.update (a.trimFree bmp start n) (start + n) none := by
  funext x
  by_cases hx : x = start + n
  · subst hx
    rw [Function.update_self]
    exact if_pos ⟨by omega, by omega, by rw [Nat.add_sub_cancel_left]; exact h⟩
  · rw [Function.update_of_ne hx]
    exact if_congr ⟨fun ⟨h1, h2, h3⟩ => ⟨h1, by omega, h3⟩, fun ⟨h1, h2, h3⟩ => ⟨h1, by omega, h3⟩⟩
      rfl rfl

end ArrayDisk

/-- **`mark_one_blk_bmp` trims the blocks whose bits are clear.** -/
theorem markOneBlkBmp_spec (a : ArrayDisk) (bmp : Block) (start : ℕ) :
    Meets TableFault (fun r => r.2 = a.trimFree bmp start 32768)
      (Ext2Sys.markOneBlkBmp arrayLayer .ext2Detected a bmp start) := by
  refine (markOneBlkBmp_rule arrayLayer (I := fun n d => d = a.trimFree bmp start n) bmp start
    (a.trimFree_zero bmp start).symm (fun n _ hbit d hd => ?_) (fun n _ hbit _ d hd => ?_)
    fun n _ _ _ => ⟨_, rfl⟩).mono fun r hr => hr.2
  · rw [hd, ArrayDisk.trimFree_set hbit]
  · rw [hd, ArrayDisk.trimFree_clear hbit]
    rfl

/-- Trimming leaves the control struct alone. -/
theorem markAllFreeBlks_spec {s : Ext2Sys ArrayDisk} (hs : s.metaCtr.status = .ext2Detected) :
    Meets TableFault (fun r => r.2.metaCtr = s.metaCtr) (s.markAllFreeBlks arrayLayer) := by
  refine meets_foldlM (fun r : ℕ × Ext2Sys ArrayDisk => r.2.metaCtr = s.metaCtr) rfl
    fun pos _ st hst => ?_
  rw [Ext2Sys.markGroup]
  refine (readOne_spec _ _ _).bind ?_
  rintro - rfl
  rw [hst, hs]
  refine (markOneBlkBmp_spec _ _ _).bind ?_
  rintro ⟨c, d⟩ -
  exact meets_pure.mpr rfl

/-- Trimming takes contents away and changes none. -/
theorem markAllFreeBlks_sub {s : Ext2Sys ArrayDisk} (hs : s.metaCtr.status = .ext2Detected) :
    Meets TableFault (fun r => ∀ x, r.2.dev x = s.dev x ∨ r.2.dev x = none)
      (s.markAllFreeBlks arrayLayer) := by
  refine (meets_foldlM (fun r : ℕ × Ext2Sys ArrayDisk => r.2.metaCtr.status = .ext2Detected ∧
    ∀ x, r.2.dev x = s.dev x ∨ r.2.dev x = none) ⟨hs, fun _ => Or.inl rfl⟩
    fun pos _ st hst => ?_).mono fun r hr => hr.2
  rw [Ext2Sys.markGroup]
  refine (readOne_spec _ _ _).bind ?_
  rintro - rfl
  rw [hst.1]
  refine (markOneBlkBmp_spec _ _ _).bind ?_
  rintro ⟨c, d⟩ hd
  refine meets_pure.mpr ⟨hst.1, fun x => ?_⟩
  change d x = _ ∨ d x = none
  rw [show d = _ from hd, ArrayDisk.trimFree]
  split_ifs
  · exact Or.inr rfl
  · exact hst.2 x

/-! ## The stages -/

/-- The layout that two control structs record is the same, whatever they are waiting for. -/
structure SameLayout (m m' : Ext2MetaCtr) : Prop where
  sb0 : m'.sb0 = m.sb0
  mem : ∀ idx, idx ≠ .tmpIdx → ∀ x, x ∈ m'.metaBlks idx ↔ x ∈ m.metaBlks idx

theorem sameLayout_refillTmp (m : Ext2MetaCtr) (status : MetaStatus) (idx : MetaVectIndex) :
    SameLayout m ((m.setStatus status).refillTmp idx) :=
  ⟨rfl, fun idx' h x => by rw [mem_refillTmp, if_neg h]; rfl⟩

theorem sameLayout_clearTmp (m : Ext2MetaCtr) (status : MetaStatus) :
    SameLayout m ((m.clearBlks .tmpIdx).setStatus status) :=
  ⟨rfl, fun _ h _ => mem_clearBlks.trans (and_iff_right h)⟩

theorem tmpIs_refillTmp (m : Ext2MetaCtr) {idx : MetaVectIndex} (h : idx ≠ .tmpIdx) :
    (m.refillTmp idx).TmpIs idx := fun x => by
  rw [mem_refillTmp, mem_refillTmp, if_pos rfl, if_neg h]

theorem Mapped.congr {a : ArrayDisk} {v w : SortedVector} (h : Mapped a v)
    (hvw : ∀ x, x ∈ w ↔ x ∈ v) : Mapped a w := fun x hx => h x ((hvw x).mp hx)

theorem SupersKnown.congr {a : ArrayDisk} {m m' : Ext2MetaCtr} (h : SupersKnown a m)
    (hm : SameLayout m m') : SupersKnown a m' where
  legal := by rw [hm.sb0]; exact h.legal
  small := by rw [hm.sb0]; exact h.small
  super x := by rw [hm.mem _ (by decide), hm.sb0]; exact h.super x
  bgDesc x := by rw [hm.mem _ (by decide), hm.sb0]; exact h.bgDesc x
  mapped x hx := h.mapped x ((hm.mem _ (by decide) x).mp hx)

theorem Decoded.congr {a : ArrayDisk} {desc : Block} {m m' : Ext2MetaCtr} (h : Decoded a desc m)
    (hm : SameLayout m m') : Decoded a desc m' where
  toSupersKnown := h.toSupersKnown.congr hm
  descMapped := h.descMapped
  blkBmp x := by rw [hm.mem _ (by decide), hm.sb0]; exact h.blkBmp x
  inoBmp x := by rw [hm.mem _ (by decide), hm.sb0]; exact h.inoBmp x
  inoTable x := by rw [hm.mem _ (by decide), hm.sb0]; exact h.inoTable x

/-- The detector has gone on until it has to wait, or to the end, with the descriptors in `desc`. -/
def Advanced (a : ArrayDisk) (desc : Block) (sb0 : Ext2SuperBlock) (s : Ext2Sys ArrayDisk) : Prop :=
  s.metaCtr.sb0 = sb0 ∧ (s.dev = a ∧ DescsPhase a desc s.metaCtr ∧
    ¬ Mapped a (s.metaCtr.metaBlks .tmpIdx) ∨ Finished a desc s)

section Stages

variable {s : Ext2Sys ArrayDisk} {desc : Block}

theorem detectInoTableIfInoBmp_spec (hs : s.metaCtr.status = .inoBitmapDetected)
    (h : Decoded s.dev desc s.metaCtr) (htmp : s.metaCtr.TmpIs .inoTableIdx)
    (hblk : Mapped s.dev (s.metaCtr.metaBlks .blkBmpIdx))
    (hino : Mapped s.dev (s.metaCtr.metaBlks .inoBmpIdx)) :
    Meets TableFault (Advanced s.dev desc s.metaCtr.sb0) (s.detectInoTableIfInoBmp arrayLayer) := by
  rw [Ext2Sys.detectInoTableIfInoBmp]
  refine (vectMapped_spec s _).bind fun c hc => ?_
  split_ifs with hmapped
  · have htable := hc.mp hmapped
    have hsame := sameLayout_clearTmp s.metaCtr .ext2Detected
    refine (markMetaBlks_spec _ _).bind ?_
    rintro - rfl
    let s' : Ext2Sys ArrayDisk := { s with
      metaCtr := (s.metaCtr.clearBlks .tmpIdx).setStatus .ext2Detected }
    cases hres : s'.markAllFreeBlks arrayLayer with
    | error e =>
      exact (markAllFreeBlks_spec (s := s') rfl).of_error hres
    | ok r =>
      have hctr := (markAllFreeBlks_spec (s := s') rfl).of_ok hres
      refine ⟨by rw [hctr]; exact hsame.sb0, Or.inr ⟨by rw [hctr]; rfl, ?_, ?_, ?_, s', r.1, rfl,
        hctr.symm, hres⟩⟩
      · rw [hctr]
        exact h.congr hsame
      · rw [hctr]
        exact ⟨hblk.congr (hsame.mem _ (by decide)), hino.congr (hsame.mem _ (by decide)),
          (htable.congr fun x => (htmp x).symm).congr (hsame.mem _ (by decide))⟩
      · rw [hctr]
        exact fun x hx => (mem_clearBlks.mp hx).1 rfl
  · exact ⟨rfl, Or.inl ⟨rfl, .inoBitmap hs h htmp hblk hino, mt hc.mpr hmapped⟩⟩

theorem detectInoBmpIfBlkBmp_spec (hs : s.metaCtr.status = .blkBitmapDetected)
    (h : Decoded s.dev desc s.metaCtr) (htmp : s.metaCtr.TmpIs .inoBmpIdx)
    (hblk : Mapped s.dev (s.metaCtr.metaBlks .blkBmpIdx)) :
    Meets TableFault (Advanced s.dev desc s.metaCtr.sb0) (s.detectInoBmpIfBlkBmp arrayLayer) := by
  rw [Ext2Sys.detectInoBmpIfBlkBmp]
  refine (vectMapped_spec s _).bind fun c hc => ?_
  split_ifs with hmapped
  · have hsame := sameLayout_refillTmp s.metaCtr .inoBitmapDetected .inoTableIdx
    exact detectInoTableIfInoBmp_spec rfl (h.congr hsame)
      (tmpIs_refillTmp _ (by decide)) (hblk.congr (hsame.mem _ (by decide)))
      (((hc.mp hmapped).congr fun x => (htmp x).symm).congr (hsame.mem _ (by decide)))
  · exact ⟨rfl, Or.inl ⟨rfl, .blkBitmap hs h htmp hblk, mt hc.mpr hmapped⟩⟩

theorem detectBlkBmpIfBgDescs_spec (hs : s.metaCtr.status = .bgDescsDetected)
    (h : Decoded s.dev desc s.metaCtr) (htmp : s.metaCtr.TmpIs .blkBmpIdx) :
    Meets TableFault (Advanced s.dev desc s.metaCtr.sb0) (s.detectBlkBmpIfBgDescs arrayLayer) := by
  rw [Ext2Sys.detectBlkBmpIfBgDescs]
  refine (vectMapped_spec s _).bind fun c hc => ?_
  split_ifs with hmapped
  · have hsame := sameLayout_refillTmp s.metaCtr .blkBitmapDetected .inoBmpIdx
    exact detectInoBmpIfBlkBmp_spec rfl (h.congr hsame)
      (tmpIs_refillTmp _ (by decide))
      (((hc.mp hmapped).congr fun x => (htmp x).symm).congr (hsame.mem _ (by decide)))
  · exact ⟨rfl, Or.inl ⟨rfl, .bgDescs hs h htmp, mt hc.mpr hmapped⟩⟩

/-- The detector has read the super blocks: it waits for the descriptors after block 0, or has read
them and gone on. -/
def AfterSBs (a : ArrayDisk) (sb0 : Ext2SuperBlock) (s : Ext2Sys ArrayDisk) : Prop :=
  (s.dev = a ∧ s.metaCtr.sb0 = sb0 ∧ SbsPhase a s.metaCtr ∧ ¬ HasBlock a (sb0BlockNo + 1)) ∨
    ∃ desc, a (sb0BlockNo + 1) = some desc ∧ Advanced a desc sb0 s

/-- All the descriptors of a small file system are in one block. -/
theorem groupDesc_const (desc : Block) {g : ℕ} (h : g < 8) :
    groupDesc (fun _ => desc) g = Ext2GroupDesc.ofBlock desc g := by
  have hmod : g % (ext2BlockSize / sizeofGroupDesc) = g := Nat.mod_eq_of_lt (by
    have : ext2BlockSize / sizeofGroupDesc = 128 := by decide
    omega)
  rw [groupDesc, hmod]

/-- The vectors after the descriptors in a block have been read. -/
theorem decoded_doGroupDescriptors (desc : Block) (h : SbsPhase s.dev s.metaCtr)
    (hdesc : HasBlock s.dev (sb0BlockNo + 1)) :
    Decoded s.dev desc ((List.range s.metaCtr.sb0.gdCnt).foldl
      (fun m k => m.doGroupDescriptor (Ext2GroupDesc.ofBlock desc k)) s.metaCtr) := by
  obtain ⟨honly, hmem⟩ := mem_doGroupDescriptors s.metaCtr s.metaCtr.sb0.gdCnt
    (Ext2GroupDesc.ofBlock desc)
  have hold : ∀ idx, idx = .sbIdx ∨ idx = .bgDescIdx → ∀ x, x ∈ (((List.range
      s.metaCtr.sb0.gdCnt).foldl (fun m k => m.doGroupDescriptor (Ext2GroupDesc.ofBlock desc k))
        s.metaCtr).metaBlks idx) ↔ x ∈ s.metaCtr.metaBlks idx := by
    rintro idx (rfl | rfl) x
    · rw [hmem]
      simp
    · rw [hmem]
      simp
  have hgroup : ∀ k, k < s.metaCtr.sb0.gdCnt →
      groupDesc (fun _ => desc) k = Ext2GroupDesc.ofBlock desc k := fun k hk =>
    groupDesc_const desc (by have := h.small; omega)
  refine ⟨⟨?_, ?_, fun x => ?_, fun x => ?_, fun x hx => ?_⟩, hdesc, fun x => ?_, fun x => ?_,
    fun x => ?_⟩
  · rw [honly.sb0]
    exact h.legal
  · rw [honly.sb0]
    exact h.small
  · rw [hold _ (Or.inl rfl), honly.sb0]
    exact h.super x
  · rw [hold _ (Or.inr rfl), honly.sb0]
    exact h.bgDesc x
  · exact h.mapped x ((hold _ (Or.inl rfl) x).mp hx)
  · rw [hmem, honly.sb0, or_iff_right (h.rest .blkBmpIdx (by decide) (by decide) (by decide) x)]
    refine exists_congr fun k => and_congr_right fun hk => ?_
    rw [hgroup k hk]
    simp
  · rw [hmem, honly.sb0, or_iff_right (h.rest .inoBmpIdx (by decide) (by decide) (by decide) x)]
    refine exists_congr fun k => and_congr_right fun hk => ?_
    rw [hgroup k hk]
    simp
  · rw [hmem, honly.sb0, or_iff_right (h.rest .inoTableIdx (by decide) (by decide) (by decide) x)]
    refine exists_congr fun k => and_congr_right fun hk => ?_
    rw [hgroup k hk]
    simp

/-- In status `SBs_DETECTED` the detector waits for the block after block 0. -/
theorem SbsPhase.toList_tmp {a : ArrayDisk} {m : Ext2MetaCtr} (h : SbsPhase a m) :
    (m.metaBlks .tmpIdx).toList = [sb0BlockNo + 1] :=
  SortedVector.toList_eq (List.pairwise_singleton _ _) fun b => by
    rw [h.tmp, List.mem_singleton]

/-- The loop of `detect_BG_DESCs_if_SBs`, and the assignments after it. -/
theorem readBgDescBlks_spec (h : SbsPhase s.dev s.metaCtr)
    (hsome : HasBlock s.dev (sb0BlockNo + 1)) (hdesc : s.dev (sb0BlockNo + 1) = some desc) :
    Meets TableFault (fun s' => s'.dev = s.dev ∧ s'.metaCtr.sb0 = s.metaCtr.sb0 ∧
        Decoded s.dev desc ((s'.metaCtr.setStatus .bgDescsDetected).refillTmp .blkBmpIdx))
      ((s.metaCtr.metaBlks .tmpIdx).toList.foldlM (Ext2Sys.readBgDescBlk arrayLayer) s) := by
  have hdecoded := decoded_doGroupDescriptors desc h hsome
  rw [h.toList_tmp, List.foldlM_cons]
  simp only [List.foldlM_nil, bind_pure]
  rw [Ext2Sys.readBgDescBlk]
  refine (readOne_spec _ _ _).bind ?_
  rintro - rfl
  rw [getNumberOfBgDescs_eq (Ext2SuperBlock.gdBlks_eq_one h.small).le, hdesc]
  exact ⟨rfl, (mem_doGroupDescriptors _ _ _).1.sb0,
    hdecoded.congr (sameLayout_refillTmp _ .bgDescsDetected .blkBmpIdx)⟩

theorem detectBgDescsIfSBs_spec (h : SbsPhase s.dev s.metaCtr) :
    Meets TableFault (AfterSBs s.dev s.metaCtr.sb0) (s.detectBgDescsIfSBs arrayLayer) := by
  rw [Ext2Sys.detectBgDescsIfSBs]
  refine (vectMapped_spec s _).bind fun c hc => ?_
  have hone : Mapped s.dev (s.metaCtr.metaBlks .tmpIdx) ↔ HasBlock s.dev (sb0BlockNo + 1) := by
    simp only [Mapped, h.tmp, forall_eq]
  split_ifs with hmapped
  · have hsome := hone.mp (hc.mp hmapped)
    obtain ⟨desc, hdesc⟩ := Option.isSome_iff_exists.mp hsome.2
    refine (readBgDescBlks_spec h hsome hdesc).bind fun s' hs' => ?_
    obtain ⟨hdev, hsb0, hdecoded⟩ := hs'
    rw [← hdev] at hdecoded
    refine (detectBlkBmpIfBgDescs_spec (s := { s' with
      metaCtr := (s'.metaCtr.setStatus .bgDescsDetected).refillTmp .blkBmpIdx })
      rfl hdecoded (tmpIs_refillTmp _ (by decide))).mono fun s'' hs'' =>
        Or.inr ⟨desc, hdesc, ?_⟩
    rw [← hdev, ← hsb0]
    exact hs''
  · exact Or.inl ⟨rfl, rfl, h, fun hsome => hmapped (hc.mpr (hone.mpr hsome))⟩

/-- `detect_SBs_if_SB0` reads the copies of the super block until one of them is not legal. -/
theorem checkSuperBlks_spec (s : Ext2Sys ArrayDisk) {l : List ℕ}
    (hl : ∀ x ∈ l, HasBlock s.dev x) :
    Meets TableFault (fun r => r.2.dev = s.dev ∧ r.2.metaCtr = s.metaCtr ∧
      (r.1 = true ↔ ∀ x ∈ l, ∀ b, s.dev x = some b → (Ext2SuperBlock.ofBlock b 0).isLegal = true))
      (s.checkSuperBlks arrayLayer l) := by
  induction l generalizing s with
  | nil => exact ⟨rfl, rfl, by simp⟩
  | cons blkNo l ih =>
    obtain ⟨hb, hl⟩ := List.forall_mem_cons.mp hl
    obtain ⟨b, hb⟩ := Option.isSome_iff_exists.mp hb.2
    rw [Ext2Sys.checkSuperBlks]
    refine (readOne_spec _ _ _).bind ?_
    rintro - rfl
    dsimp only
    rw [hb, Option.getD_some]
    have hhere : (∀ b', s.dev blkNo = some b' → (Ext2SuperBlock.ofBlock b' 0).isLegal = true) ↔
        (Ext2SuperBlock.ofBlock b 0).isLegal = true := by
      rw [hb]
      simp
    split_ifs with hlegal
    · refine (ih { s with dev := s.dev, sbsBuf := b } hl).mono fun r hr => ?_
      obtain ⟨h1, h2, h3⟩ := hr
      refine ⟨h1, h2, ?_⟩
      rw [h3, List.forall_mem_cons, hhere, and_iff_right hlegal]
    · refine ⟨rfl, rfl, fun h => absurd h Bool.false_ne_true, fun h => ?_⟩
      exact absurd (hhere.mp (h blkNo List.mem_cons_self)) hlegal

/-- Some copy of the super block was not legal: the detector starts again. -/
def FellBack (a : ArrayDisk) (m : Ext2MetaCtr) (s : Ext2Sys ArrayDisk) : Prop :=
  s.dev = a ∧ (s.metaCtr.status = .noSb0 ∧ s.metaCtr.metaBlks = m.metaBlks) ∧
    Mapped a (m.metaBlks .tmpIdx) ∧ ¬ OthersLegal a m

/-- A file system whose group count has wrapped around never gets past `SB0_DETECTED`: one of its
super blocks would be past the end of the device. -/
theorem Sb0Phase.small_of_mapped {a : ArrayDisk} {m : Ext2MetaCtr} (h : Sb0Phase m)
    (hmapped : Mapped a (m.metaBlks .tmpIdx)) : m.sb0.gdCnt ≤ 8 := by
  refine (Ext2SuperBlock.gdCnt_cases h.legal).resolve_right fun hw => ?_
  have h9 := (hmapped _ (h.wrapped hw)).1
  rw [Ext2SuperBlock.groupStart_eq h.legal (Nat.le_refl 9), totalSmrBlocksCnt_eq] at h9
  omega

theorem Sb0Phase.super_iff {m : Ext2MetaCtr} (h : Sb0Phase m) (hsmall : m.sb0.gdCnt ≤ 8) (x : ℕ) :
    x ∈ m.metaBlks .sbIdx ↔ m.sb0.IsSuperPos x := by
  rw [h.super, h.small hsmall, Ext2SuperBlock.IsSuperPos]

/-- The vectors when the descriptor blocks have been recorded. -/
theorem sbsPhase_recordBgDescs (h : Sb0Phase s.metaCtr) (hsmall : s.metaCtr.sb0.gdCnt ≤ 8)
    (hmapped : Mapped s.dev (s.metaCtr.metaBlks .tmpIdx)) {m : Ext2MetaCtr}
    (hm : m = (s.metaCtr.clearBlks .tmpIdx).setStatus .sbsDetected) :
    SbsPhase s.dev ((m.metaBlks .sbIdx).toList.foldl (recordBgDescs m.sb0.gdBlks) m) ∧
      ((m.metaBlks .sbIdx).toList.foldl (recordBgDescs m.sb0.gdBlks) m).sb0 = s.metaCtr.sb0 := by
  obtain ⟨honly, hmem⟩ := mem_foldl_recordBgDescs (n := m.sb0.gdBlks)
    (l := (m.metaBlks .sbIdx).toList) (m := m)
  have hsb0 : m.sb0 = s.metaCtr.sb0 := by
    rw [hm]
    rfl
  have hold : ∀ idx x, x ∈ m.metaBlks idx ↔ idx ≠ .tmpIdx ∧ x ∈ s.metaCtr.metaBlks idx := by
    intro idx x
    rw [hm]
    exact mem_clearBlks
  have hblks : m.sb0.gdBlks = 1 := by
    rw [hsb0]
    exact Ext2SuperBlock.gdBlks_eq_one hsmall
  have hsuper : ∀ x, x ∈ m.metaBlks .sbIdx ↔ s.metaCtr.sb0.IsSuperPos x := fun x => by
    rw [hold, and_iff_right (by decide), h.super_iff hsmall]
  generalize hm' : (m.metaBlks .sbIdx).toList.foldl (recordBgDescs m.sb0.gdBlks) m = m' at *
  have hkeep : ∀ idx, idx ≠ .tmpIdx → idx ≠ .bgDescIdx → ∀ x,
      x ∈ m'.metaBlks idx ↔ x ∈ s.metaCtr.metaBlks idx := by
    intro idx h1 h2 x
    rw [hmem, hold]
    simp [h1, h2]
  have hsb0' := honly.sb0.trans hsb0
  refine ⟨⟨⟨?_, ?_, fun x => ?_, fun x => ?_, fun x hx hne => ?_⟩, ?_, fun x => ?_,
    fun idx h1 h2 h3 x hx => ?_⟩, hsb0'⟩
  · rw [hsb0']
    exact h.legal
  · rw [hsb0']
    exact hsmall
  · rw [hkeep _ (by decide) (by decide), hsb0', h.super_iff hsmall]
  · rw [hmem, hold, hsb0', Ext2SuperBlock.IsDescPos, hsb0]
    simp only [SortedVector.mem_toList, hsuper, true_or, true_and]
    refine or_iff_right fun hx => ?_
    exact h.rest .bgDescIdx (by decide) (by decide) x hx.2
  · rw [hkeep _ (by decide) (by decide), h.super] at hx
    exact hmapped x (hx.resolve_left hne)
  · rw [honly.status, hm]
    rfl
  · rw [hmem, hold, hblks]
    constructor
    · rintro (⟨hne, -⟩ | ⟨sb, -, hsb, i, hi, rfl⟩)
      · exact absurd rfl hne
      · obtain ⟨-, rfl⟩ := hsb.resolve_left (by decide)
        omega
    · rintro rfl
      refine Or.inr ⟨sb0BlockNo, ?_, Or.inr ⟨rfl, rfl⟩, 0, Nat.one_pos, rfl⟩
      rw [SortedVector.mem_toList, hsuper]
      exact Or.inl rfl
  · exact h.rest idx h1 h2 x ((hkeep idx h2 h3 x).mp hx)

theorem detectSBsIfSB0_spec (h : Sb0Phase s.metaCtr) :
    Meets TableFault (fun s' => s' = s ∧ ¬ Mapped s.dev (s.metaCtr.metaBlks .tmpIdx) ∨
      FellBack s.dev s.metaCtr s' ∨
      (Mapped s.dev (s.metaCtr.metaBlks .tmpIdx) ∧ OthersLegal s.dev s.metaCtr ∧
        AfterSBs s.dev s.metaCtr.sb0 s')) (s.detectSBsIfSB0 arrayLayer) := by
  rw [Ext2Sys.detectSBsIfSB0]
  refine (vectMapped_spec s _).bind fun c hc => ?_
  split_ifs with htrue
  · have hmapped := hc.mp htrue
    have hsmall := h.small_of_mapped hmapped
    refine (checkSuperBlks_spec s fun x hx => hmapped x (SortedVector.mem_toList.mp hx)).bind ?_
    rintro ⟨legal, s'⟩ ⟨hdev, hctr, hlegal⟩
    dsimp only at hdev hctr hlegal ⊢
    have hlegal' : legal = true ↔ OthersLegal s.dev s.metaCtr := by
      rw [hlegal, OthersLegal]
      simp only [SortedVector.mem_toList]
    split_ifs with hl
    · rw [hctr]
      obtain ⟨h1, h2⟩ := sbsPhase_recordBgDescs h hsmall hmapped rfl
      rw [← hdev] at h1
      refine (detectBgDescsIfSBs_spec (s := { s' with metaCtr := _ }) h1).mono fun s'' hs'' =>
        Or.inr (Or.inr ⟨hmapped, hlegal'.mp hl, ?_⟩)
      rw [← hdev, ← h2]
      exact hs''
    · refine Or.inr (Or.inl ⟨hdev, ⟨rfl, ?_⟩, hmapped, fun h' => hl (hlegal'.mpr h')⟩)
      rw [hctr]
      rfl
  · exact Or.inl ⟨rfl, fun h' => htrue (hc.mpr h')⟩

/-- The copies of the super block are legal as far as they have contents. -/
def SupersLegal (a : ArrayDisk) (sb : Ext2SuperBlock) : Prop :=
  ∀ x, sb.IsSuperPos x → x ≠ sb0BlockNo → ∀ b, a x = some b →
    (Ext2SuperBlock.ofBlock b 0).isLegal = true

theorem Advanced.small {a : ArrayDisk} {sb0 : Ext2SuperBlock} (h : Advanced a desc sb0 s) :
    sb0.gdCnt ≤ 8 := by
  obtain ⟨hsb0, ⟨-, hphase, -⟩ | hfin⟩ := h
  · rw [← hsb0]
    cases hphase with
    | bgDescs _ h => exact h.small
    | blkBitmap _ h => exact h.small
    | inoBitmap _ h => exact h.small
  · rw [← hsb0]
    exact hfin.decoded.small

theorem AfterSBs.small {a : ArrayDisk} {sb0 : Ext2SuperBlock} (h : AfterSBs a sb0 s) :
    sb0.gdCnt ≤ 8 := by
  obtain ⟨-, hsb0, hphase, -⟩ | ⟨desc, -, h⟩ := h
  · rw [← hsb0]
    exact hphase.small
  · exact h.small

/-! ## One call of the detector -/

/-- When a call of the detector does nothing. -/
inductive Waits (a : ArrayDisk) (m : Ext2MetaCtr) (buf : Block) (blkNo : ℕ) : Prop
  | noSb0 (hs : m.status = .noSb0) (h : ¬ (blkNo = sb0BlockNo ∧
      (Ext2SuperBlock.ofBlock buf firstSuperBlockOffset).isLegal = true))
  | sb0 (hs : m.status = .sb0Detected) (h : ¬ Mapped a (m.metaBlks .tmpIdx))
  | ext2 (hs : m.status = .ext2Detected) (h : blkNo ≠ sb0BlockNo)

theorem Waits.not_mapped {a : ArrayDisk} {m : Ext2MetaCtr} {buf : Block} {blkNo : ℕ}
    (h : Waits a m buf blkNo) (hs : m.status = .sb0Detected) : ¬ Mapped a (m.metaBlks .tmpIdx) := by
  cases h with
  | noSb0 hs' => exact absurd (hs.symm.trans hs') (by decide)
  | sb0 _ h => exact h
  | ext2 hs' => exact absurd (hs.symm.trans hs') (by decide)

/-- When a call of the detector ends in status `NO_SB0` with work undone. -/
inductive Restarts (a : ArrayDisk) (m : Ext2MetaCtr) (buf : Block) (blkNo : ℕ) : Prop
  | noSb0 (hs : m.status = .noSb0) (hblk : blkNo = sb0BlockNo)
      (h : ¬ SupersLegal a (Ext2SuperBlock.ofBlock buf firstSuperBlockOffset))
  | sb0 (hs : m.status = .sb0Detected) (hmapped : Mapped a (m.metaBlks .tmpIdx))
      (h : ¬ OthersLegal a m)
  | ext2 (hs : m.status = .ext2Detected) (h : blkNo = sb0BlockNo)

/-- What one call of the detector can do.  `desc` is the descriptor block that has been read, if
one has. -/
inductive Detects (s : Ext2Sys ArrayDisk) (desc buf : Block) (blkNo : ℕ) (s' : Ext2Sys ArrayDisk) :
    Prop
  | idle (hs : Waits s.dev s.metaCtr buf blkNo) (h : s' = s)
  | recheck (hs : s.metaCtr.status = .ext2Detected) (hdev : s'.dev = s.dev)
      (hs' : s'.metaCtr.status = .ext2Detected) (hblks : s'.metaCtr.metaBlks = s.metaCtr.metaBlks)
  | back (hs : Restarts s.dev s.metaCtr buf blkNo) (hdev : s'.dev = s.dev)
      (hs' : s'.metaCtr.status = .noSb0)
      (hvects : s'.metaCtr.metaBlks = s.metaCtr.metaBlks ∨
        ∃ m, Sb0Phase m ∧ s'.metaCtr.metaBlks = m.metaBlks)
  | start (hs : s.metaCtr.status = .noSb0) (hblk : blkNo = sb0BlockNo)
      (hlegal : (Ext2SuperBlock.ofBlock buf firstSuperBlockOffset).isLegal = true)
      (hdev : s'.dev = s.dev)
      (hsb0 : s'.metaCtr.sb0 = Ext2SuperBlock.ofBlock buf firstSuperBlockOffset)
      (h : Sb0Phase s'.metaCtr) (hwait : ¬ Mapped s.dev (s'.metaCtr.metaBlks .tmpIdx))
  | startOn (hs : s.metaCtr.status = .noSb0) (hblk : blkNo = sb0BlockNo)
      (hlegal : (Ext2SuperBlock.ofBlock buf firstSuperBlockOffset).isLegal = true)
      (hsupers : SupersLegal s.dev (Ext2SuperBlock.ofBlock buf firstSuperBlockOffset))
      (h : AfterSBs s.dev (Ext2SuperBlock.ofBlock buf firstSuperBlockOffset) s')
  | supers (hphase : Sb0Phase s.metaCtr) (hmapped : Mapped s.dev (s.metaCtr.metaBlks .tmpIdx))
      (hlegal : OthersLegal s.dev s.metaCtr) (h : AfterSBs s.dev s.metaCtr.sb0 s')
  | descs (hphase : SbsPhase s.dev s.metaCtr) (h : AfterSBs s.dev s.metaCtr.sb0 s')
  | rest (hphase : DescsPhase s.dev desc s.metaCtr) (h : Advanced s.dev desc s.metaCtr.sb0 s')

theorem detectSB0IfNoSB0_spec (hs : s.metaCtr.status = .noSb0) (buf : Block) (blkNo : ℕ) :
    Meets TableFault (Detects s desc buf blkNo) (s.detectSB0IfNoSB0 arrayLayer buf blkNo) := by
  rw [Ext2Sys.detectSB0IfNoSB0]
  dsimp only
  split_ifs with hcond
  · obtain ⟨hblk, hlegal⟩ := hcond
    obtain ⟨m, hm, hsb0, hrec⟩ := recordSuperBlks_start s.metaCtr
      (Ext2SuperBlock.ofBlock buf firstSuperBlockOffset)
    have hphase := hrec.sb0Phase hlegal
    rw [hm]
    refine (detectSBsIfSB0_spec (s := { s with metaCtr := m }) hphase).mono fun s' hs' => ?_
    rcases hs' with ⟨rfl, hwait⟩ | ⟨h1, ⟨h2, hvects⟩, hmapped, hothers⟩ | ⟨-, h2, h3⟩
    · exact .start hs hblk hlegal rfl hsb0 hphase hwait
    · refine .back (.noSb0 hs hblk fun hall => hothers fun x hx b hb => hall x ?_ ?_ b hb) h1 h2
        (Or.inr ⟨m, hphase, hvects⟩)
      · rw [← hsb0, ← hphase.super_iff (hphase.small_of_mapped hmapped)]
        exact (hphase.super x).mpr (Or.inr hx)
      · rintro rfl
        exact hphase.zero_notMem hx
    · rw [hsb0] at h3
      refine .startOn hs hblk hlegal (fun x hx hne b hb => h2 x ?_ b hb) h3
      have hsmall := h3.small
      rw [← hsb0] at hx hsmall
      exact ((hphase.super x).mp ((hphase.super_iff hsmall x).mpr hx)).resolve_left hne
  · exact .idle (.noSb0 hs hcond) rfl

/-- **One call of the detector.** -/
theorem detectExt2Fs_spec (h : Phase s.dev desc s.metaCtr) (buf : Block) (blkNo : ℕ) :
    Meets TableFault (Detects s desc buf blkNo) (s.detectExt2Fs arrayLayer buf blkNo) := by
  rw [Ext2Sys.detectExt2Fs]
  cases h with
  | noSb0 hs =>
    rw [hs]
    exact detectSB0IfNoSB0_spec hs buf blkNo
  | sb0 hphase =>
    rw [hphase.status]
    refine (detectSBsIfSB0_spec hphase).mono fun s' hs' => ?_
    rcases hs' with ⟨rfl, hwait⟩ | ⟨h1, ⟨h2, hvects⟩, h3, h4⟩ | ⟨h1, h2, h3⟩
    · exact .idle (.sb0 hphase.status hwait) rfl
    · exact .back (.sb0 hphase.status h3 h4) h1 h2 (Or.inl hvects)
    · exact .supers hphase h1 h2 h3
  | sbs hphase =>
    rw [hphase.status]
    exact (detectBgDescsIfSBs_spec hphase).mono fun s' hs' => .descs hphase hs'
  | descs hphase =>
    cases hphase with
    | bgDescs hs hdec htmp =>
      rw [hs]
      exact (detectBlkBmpIfBgDescs_spec hs hdec htmp).mono fun s' hs' =>
        .rest (.bgDescs hs hdec htmp) hs'
    | blkBitmap hs hdec htmp hblk =>
      rw [hs]
      exact (detectInoBmpIfBlkBmp_spec hs hdec htmp hblk).mono fun s' hs' =>
        .rest (.blkBitmap hs hdec htmp hblk) hs'
    | inoBitmap hs hdec htmp hblk hino =>
      rw [hs]
      exact (detectInoTableIfInoBmp_spec hs hdec htmp hblk hino).mono fun s' hs' =>
        .rest (.inoBitmap hs hdec htmp hblk hino) hs'
  | ext2 hs =>
    rw [hs]
    dsimp only
    split_ifs with hblk
    · rw [Ext2Sys.recheckSB0]
      dsimp only
      split_ifs
      · exact .recheck hs rfl hs rfl
      · refine (markMetaBlks_spec _ _).mono ?_
        rintro - rfl
        exact .back (.ext2 hs hblk) rfl rfl (Or.inl rfl)
    · exact .idle (.ext2 hs hblk) rfl

/-- A call of the detector leads from phase to phase. -/
theorem Detects.phase {buf : Block} {blkNo : ℕ} {s' : Ext2Sys ArrayDisk}
    (h : Detects s desc buf blkNo s') (hphase : Phase s.dev desc s.metaCtr) :
    ∃ desc', Phase s'.dev desc' s'.metaCtr := by
  have hadv : ∀ {desc sb0}, Advanced s.dev desc sb0 s' → Phase s'.dev desc s'.metaCtr := by
    rintro desc sb0 ⟨-, ⟨hdev, h, -⟩ | h⟩
    · rw [hdev]
      exact .descs h
    · exact .ext2 h.status h.tmp
  have hafter : ∀ {sb0}, AfterSBs s.dev sb0 s' → ∃ desc', Phase s'.dev desc' s'.metaCtr := by
    rintro sb0 (⟨hdev, -, h, -⟩ | ⟨desc', -, h⟩)
    · rw [hdev]
      exact ⟨desc, .sbs h⟩
    · exact ⟨desc', hadv h⟩
  cases h with
  | idle _ h => exact ⟨desc, by rw [h]; exact hphase⟩
  | recheck hs _ hs' hblks =>
    refine ⟨desc, .ext2 hs' ?_⟩
    rw [hblks]
    exact hphase.tmp_empty hs
  | back _ _ hs' => exact ⟨desc, .noSb0 hs'⟩
  | start _ _ _ _ _ h _ => exact ⟨desc, .sb0 h⟩
  | startOn _ _ _ _ h => exact hafter h
  | supers _ _ _ h => exact hafter h
  | descs _ h => exact hafter h
  | rest _ h => exact ⟨desc, hadv h⟩

theorem Finished.sub {a : ArrayDisk} (h : Finished a desc s) (x : ℕ) :
    s.dev x = a x ∨ s.dev x = none := by
  obtain ⟨hs, -, -, -, s', c, rfl, hctr, hmark⟩ := h
  exact (markAllFreeBlks_sub (by rw [hctr]; exact hs)).of_ok hmark x

/-- **A call of the detector takes contents away and changes none.** -/
theorem Detects.sub {buf : Block} {blkNo : ℕ} {s' : Ext2Sys ArrayDisk}
    (h : Detects s desc buf blkNo s') (x : ℕ) : s'.dev x = s.dev x ∨ s'.dev x = none := by
  have hadv : ∀ {desc sb0}, Advanced s.dev desc sb0 s' → s'.dev x = s.dev x ∨ s'.dev x = none := by
    rintro desc sb0 ⟨-, ⟨hdev, -, -⟩ | hfin⟩
    · exact Or.inl (by rw [hdev])
    · exact hfin.sub x
  have hafter : ∀ {sb0}, AfterSBs s.dev sb0 s' → s'.dev x = s.dev x ∨ s'.dev x = none := by
    rintro sb0 (⟨hdev, -⟩ | ⟨desc', -, h⟩)
    · exact Or.inl (by rw [hdev])
    · exact hadv h
  cases h with
  | idle _ h => exact Or.inl (by rw [h])
  | recheck _ hdev => exact Or.inl (by rw [hdev])
  | back _ hdev => exact Or.inl (by rw [hdev])
  | start _ _ _ hdev => exact Or.inl (by rw [hdev])
  | startOn _ _ _ _ h => exact hafter h
  | supers _ _ _ h => exact hafter h
  | descs _ h => exact hafter h
  | rest _ h => exact hadv h

end Stages

end MemSmr
