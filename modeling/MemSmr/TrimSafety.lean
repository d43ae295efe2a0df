import MemSmr.DetectedLayout
import MemSmr.ReadYourWrites

/-!
# Trimming and the data of the host

With the detector on a block can lose its contents: the end of a detection trims the blocks whose
bits are clear.

* `HostView`: what the host has written last to each block, and which blocks its own bitmap has
  marked free at the end of a detection.
* `markAllFreeBlks_trims`: what is trimmed, if the bitmaps are in the order of the groups.
* `TrimSafe`, `allocated_data_kept`: under a condition on the writes, a read returns what was written
  last to a block that was not marked free since.
* `allocated_data_lost`: the write that ends the detection allocates a block, which is trimmed.
-/

namespace MemSmr

open Outcome Ext2MetaCtr

/-! ## The view of the host -/

/-- The bit of block `x` in the block bitmap that a disk holds for it: the bitmap that the descriptor
of its group names. -/
def hostBit (D : ArrayDisk) (x : ℕ) : Option Bool := do
  let b0 ← D sb0BlockNo
  let sb := Ext2SuperBlock.ofBlock b0 firstSuperBlockOffset
  let g := (x - sb.sFirstDataBlock) / sb.sBlocksPerGroup
  let desc ← D (sb0BlockNo + 1 + g / (ext2BlockSize / sizeofGroupDesc))
  let bmp ← D (Ext2GroupDesc.ofBlock desc (g % (ext2BlockSize / sizeofGroupDesc))).bgBlockBitmap
  if sb.sFirstDataBlock ≤ x ∧ g < sb.gdCnt then
    return getBit bmp ((x - sb.sFirstDataBlock) % sb.sBlocksPerGroup)
  else none

/-- What the host knows: what it has written last to each block, and whether, after that, the free
blocks were trimmed while its bitmap had the bit of the block clear. -/
structure HostView where
  latest : ArrayDisk
  markedFree : ℕ → Bool

/-- Before the first write. -/
def HostView.init : HostView := ⟨fun _ => none, fun _ => false⟩

/-- `mark_all_free_blks` runs in this write. -/
def WriteStep.Marks {σ : Type} (st : WriteStep σ) : Prop :=
  st.before.metaCtr.status ≠ .ext2Detected ∧ st.after.metaCtr.status = .ext2Detected

instance {σ : Type} (st : WriteStep σ) : Decidable st.Marks := inferInstanceAs (Decidable (_ ∧ _))

/-- The disk that the host sees with a write applied. -/
def HostView.disk {σ : Type} (v : HostView) (st : WriteStep σ) : ArrayDisk :=
  Function.update v.latest st.blkNo (some st.buf)

/-- After a write; the write that ends a detection counts as done before the trimming. -/
def HostView.next {σ : Type} (v : HostView) (st : WriteStep σ) : HostView where
  latest := v.disk st
  markedFree x := decide (x ≠ st.blkNo) && v.markedFree x ||
    decide (st.Marks ∧ hostBit (v.disk st) x = some false)

/-- After a sequence of writes. -/
def hostView {σ : Type} (steps : List (WriteStep σ)) : HostView := steps.foldl HostView.next .init

theorem HostView.next_congr {σ τ : Type} {R : σ → τ → Prop} {st : WriteStep σ} {st' : WriteStep τ}
    (h : StepRel R st st') (v : HostView) : v.next st = v.next st' := by
  have hmarks : st.Marks ↔ st'.Marks := by
    rw [WriteStep.Marks, WriteStep.Marks, h.before.metaCtr, h.after.metaCtr]
  rw [HostView.next, HostView.next, HostView.disk, HostView.disk, h.blkNo, h.buf]
  simp only [hmarks]

/-- Two runs that make the same writes look the same to the host. -/
theorem hostView_congr {σ τ : Type} {R : σ → τ → Prop} {l : List (WriteStep σ)}
    {l' : List (WriteStep τ)} (h : List.Forall₂ (StepRel R) l l') : hostView l = hostView l' := by
  suffices hv : ∀ v, l.foldl HostView.next v = l'.foldl HostView.next v from hv _
  induction h with
  | nil => exact fun v => rfl
  | cons hst _ ih =>
    intro v
    rw [List.foldl_cons, List.foldl_cons, HostView.next_congr hst, ih]

section Latest

variable {σ : Type} {L : BlockLayer σ} {aware : Bool} {s s' : Ext2Sys σ}

theorem latest_traceWrites {bufs : List Block} {blkNo : ℕ}
    (hrun : s.writeSmrBlocks L aware bufs blkNo = .ok s') (v : HostView) :
    ((traceWrites L aware s bufs blkNo).foldl HostView.next v).latest =
      HostOp.apply v.latest (.write blkNo bufs) := by
  induction bufs generalizing s blkNo v with
  | nil =>
    funext x
    exact (if_neg (by simp only [List.length_nil]; omega)).symm
  | cons buf bufs ih =>
    rw [Ext2Sys.writeSmrBlocks] at hrun
    obtain ⟨s₁, hone, hrest⟩ := bind_eq_ok.mp hrun
    rw [traceWrites_cons hone, List.foldl_cons, ih hrest, ← HostOp.apply_write_cons]
    rfl

/-- The blocks that a run has written last. -/
theorem latest_trace {ops : List HostOp} {outs : List (List Block)}
    (hrun : runOps L aware s ops = .ok (outs, s')) (v : HostView) :
    ((trace L aware s ops).foldl HostView.next v).latest = ops.foldl HostOp.apply v.latest := by
  induction ops generalizing s outs v with
  | nil => rfl
  | cons op ops ih =>
    obtain ⟨out, s₁, outs', hop, hrest, -⟩ := runOps_cons_ok.mp hrun
    rw [trace_cons hop, List.foldl_append, ih hrest, List.foldl_cons]
    cases op with
    | write blkNo bufs => rw [traceOp, latest_traceWrites (runOp_write_ok.mp hop).1]
    | read blkNo bufs => rfl

end Latest

/-! ## What is trimmed -/

/-- The bit of block `x` is clear in the bitmap at `bmp g`, taken for the bitmap of group `g`. -/
def ClearIn (a : ArrayDisk) (sb : Ext2SuperBlock) (bmp : ℕ → ℕ) (g x : ℕ) : Prop :=
  ∃ b, a (bmp g) = some b ∧ sb.groupStart g ≤ x ∧ x < sb.groupStart g + 32768 ∧
    getBit b (x - sb.groupStart g) = false

/-- **The blocks that are trimmed**, if the vector holds the bitmaps in the order of the groups and no
bitmap has been trimmed when it is read. -/
theorem markAllFreeBlks_trims {s : Ext2Sys ArrayDisk} {bmp : ℕ → ℕ} {n : ℕ}
    (hs : s.metaCtr.status = .ext2Detected)
    (hsize : (s.metaCtr.metaBlks .blkBmpIdx).size = n)
    (hget : ∀ g < n, (s.metaCtr.metaBlks .blkBmpIdx).get g = bmp g)
    (hsome : ∀ g < n, (s.dev (bmp g)).isSome = true)
    (hkept : ∀ g g', g' < g → g < n → ¬ ClearIn s.dev s.metaCtr.sb0 bmp g' (bmp g)) :
    Meets TableFault (fun r => (∀ x b, r.2.dev x = some b → s.dev x = some b) ∧
      ∀ x b, s.dev x = some b → r.2.dev x = some b ∨ ∃ g < n, ClearIn s.dev s.metaCtr.sb0 bmp g x)
      (s.markAllFreeBlks arrayLayer) := by
  rw [Ext2Sys.markAllFreeBlks, hsize]
  refine (meets_foldlM_range (fun k (r : ℕ × Ext2Sys ArrayDisk) => r.2.metaCtr = s.metaCtr ∧
    (∀ x b, r.2.dev x = some b → s.dev x = some b) ∧
      ∀ x b, s.dev x = some b → r.2.dev x = some b ∨
        ∃ g < k, ClearIn s.dev s.metaCtr.sb0 bmp g x)
    ⟨rfl, fun _ _ h => h, fun _ _ h => Or.inl h⟩ ?_).mono fun r hr => hr.2
  rintro g hg ⟨c, s'⟩ ⟨hctr, hold, htrim⟩
  replace hctr : s'.metaCtr = s.metaCtr := hctr
  obtain ⟨b, hb⟩ := Option.isSome_iff_exists.mp (hsome g hg)
  -- The bitmap is still there.
  have hread : s'.dev (bmp g) = some b := by
    refine (htrim (bmp g) b hb).resolve_right ?_
    rintro ⟨g', hg', hclear⟩
    exact hkept g g' hg' hg hclear
  have hstart : (g * s.metaCtr.sb0.sBlocksPerGroup + s.metaCtr.sb0.sFirstDataBlock) % 2 ^ 32 =
      s.metaCtr.sb0.groupStart g := by
    rw [Ext2SuperBlock.groupStart, Nat.add_comm]
  rw [Ext2Sys.markGroup]
  simp only [hctr, hs, hstart, hget g hg]
  refine (readOne_spec _ _ _).bind ?_
  rintro - rfl
  simp only [hread, Option.getD_some]
  refine (markOneBlkBmp_spec _ _ _).bind ?_
  rintro ⟨c', d⟩ hd
  replace hd : d = s'.dev.trimFree b (s.metaCtr.sb0.groupStart g) 32768 := hd
  refine meets_pure.mpr ⟨rfl, fun x b' hx => ?_, fun x b' hx => ?_⟩
  · replace hx : d x = some b' := hx
    rw [hd, ArrayDisk.trimFree] at hx
    split_ifs at hx
    exact hold x b' hx
  · change d x = some b' ∨ _
    rcases htrim x b' hx with h | ⟨g', hg', hclear⟩
    · rw [hd, ArrayDisk.trimFree]
      split_ifs with hfree
      · exact Or.inr ⟨g, Nat.lt_succ_self g, b, hb, hfree⟩
      · exact Or.inl h
    · exact Or.inr ⟨g', Nat.lt_succ_of_lt hg', hclear⟩

/-! ## The condition on a write -/

/-- The super block stays the same in what the detector computes group numbers from, and the
descriptors go on naming the same block bitmaps. -/
def bitmapLikeness : Likeness where
  sameSb sb sb' := sb.sFirstDataBlock = sb'.sFirstDataBlock ∧
    sb.sBlocksPerGroup = sb'.sBlocksPerGroup ∧ sb.gdCnt = sb'.gdCnt
  sameDesc sb desc desc' := ∀ g < sb.gdCnt, (groupDesc (fun _ => desc) g).bgBlockBitmap =
    (groupDesc (fun _ => desc') g).bgBlockBitmap
  sb_refl _ := ⟨rfl, rfl, rfl⟩
  desc_refl _ _ _ _ := rfl
  desc_trans h h' g hg := (h g hg).trans (h' g hg)

/-- The descriptors are there, and so is all the metadata that they name. -/
structure LayoutThere (a : ArrayDisk) (sb : Ext2SuperBlock) (desc : Block) : Prop where
  descs : a (sb0BlockNo + 1) = some desc
  blkBmp : ∀ x, sb.IsBlkBmpPos (fun _ => desc) x → HasBlock a x
  inoBmp : ∀ x, sb.IsInoBmpPos (fun _ => desc) x → HasBlock a x
  inoTable : ∀ x, sb.IsInoTablePos (fun _ => desc) x → HasBlock a x

/-- All that the detector waits for is there: a write of `buf` to block `blkNo` ends the detection. -/
inductive Completes (a : ArrayDisk) (m : Ext2MetaCtr) (blkNo : ℕ) (buf : Block) : Prop
  | start (hs : m.status = .noSb0) (hblk : blkNo = sb0BlockNo)
      (hlegal : (Ext2SuperBlock.ofBlock buf firstSuperBlockOffset).isLegal = true)
      (hmapped : ∀ x, (Ext2SuperBlock.ofBlock buf firstSuperBlockOffset).IsSuperPos x →
        x ≠ sb0BlockNo → HasBlock a x)
      (hothers : SupersLegal a (Ext2SuperBlock.ofBlock buf firstSuperBlockOffset)) (desc : Block)
      (h : LayoutThere a (Ext2SuperBlock.ofBlock buf firstSuperBlockOffset) desc)
  | supers (hs : m.status = .sb0Detected) (hmapped : Mapped a (m.metaBlks .tmpIdx))
      (hothers : OthersLegal a m) (desc : Block) (h : LayoutThere a m.sb0 desc)
  | descs (hs : m.status = .sbsDetected) (desc : Block) (h : LayoutThere a m.sb0 desc)
  | rest (hs : m.HasDescs) (h : AllMapped a m)

theorem LayoutThere.congr {a a' : ArrayDisk} {sb : Ext2SuperBlock} {desc : Block}
    (h : LayoutThere a sb desc) (ha : ∀ l < totalSmrBlocksCnt, a l = a' l) :
    LayoutThere a' sb desc where
  descs := by rw [← ha _ descBlk_lt]; exact h.descs
  blkBmp x hx := (h.blkBmp x hx).congr ha
  inoBmp x hx := (h.inoBmp x hx).congr ha
  inoTable x hx := (h.inoTable x hx).congr ha

/-- The condition depends on what the blocks of the device hold only. -/
theorem Completes.congr {a a' : ArrayDisk} {m : Ext2MetaCtr} {blkNo : ℕ} {buf : Block}
    (h : Completes a m blkNo buf) (ha : ∀ l < totalSmrBlocksCnt, a l = a' l) :
    Completes a' m blkNo buf := by
  cases h with
  | start hs hblk hlegal hmapped hothers desc h =>
    refine .start hs hblk hlegal (fun x hx hne => (hmapped x hx hne).congr ha)
      (fun x hx hne b hb => hothers x hx hne b ?_) desc (h.congr ha)
    rw [ha x (hmapped x hx hne).1]
    exact hb
  | supers hs hmapped hothers desc h =>
    refine .supers hs (fun x hx => (hmapped x hx).congr ha) (fun x hx b hb => hothers x hx b ?_) desc
      (h.congr ha)
    rw [ha x (hmapped x hx).1]
    exact hb
  | descs hs desc h => exact .descs hs desc (h.congr ha)
  | rest hs h =>
    exact .rest hs ⟨fun x hx => (h.blkBmp x hx).congr ha, fun x hx => (h.inoBmp x hx).congr ha,
      fun x hx => (h.inoTable x hx).congr ha⟩

theorem Completes.descs_or {a : ArrayDisk} {m : Ext2MetaCtr} {blkNo : ℕ} {buf : Block}
    (h : Completes a m blkNo buf) : (a (sb0BlockNo + 1)).isSome = true ∨ m.HasDescs := by
  cases h with
  | start _ _ _ _ _ desc h => exact Or.inl (Option.isSome_iff_exists.mpr ⟨desc, h.descs⟩)
  | supers _ _ _ desc h => exact Or.inl (Option.isSome_iff_exists.mpr ⟨desc, h.descs⟩)
  | descs _ desc h => exact Or.inl (Option.isSome_iff_exists.mpr ⟨desc, h.descs⟩)
  | rest hs _ => exact Or.inr hs

section Completes

variable {t t₁ : Ext2Sys ArrayDisk} {desc buf : Block} {blkNo : ℕ}

theorem Finished.layoutThere {a : ArrayDisk} (h : Finished a desc t₁)
    (hdesc : a (sb0BlockNo + 1) = some desc) : LayoutThere a t₁.metaCtr.sb0 desc := by
  obtain ⟨-, hdec, hmapped, -⟩ := h
  exact ⟨hdesc, fun x hx => hmapped.blkBmp x ((hdec.blkBmp x).mpr hx),
    fun x hx => hmapped.inoBmp x ((hdec.inoBmp x).mpr hx),
    fun x hx => hmapped.inoTable x ((hdec.inoTable x).mpr hx)⟩

/-- A call that ends the detection and reads the descriptors. -/
theorem AfterSBs.layoutThere {sb0 : Ext2SuperBlock} (h : AfterSBs t.dev sb0 t₁)
    (heq : t₁.metaCtr.status = .ext2Detected) :
    (∀ x, sb0.IsSuperPos x → x ≠ sb0BlockNo → HasBlock t.dev x) ∧
      ∃ desc, LayoutThere t.dev sb0 desc := by
  obtain ⟨-, -, hphase, -⟩ | ⟨desc, hdesc, rfl, ⟨-, hphase, -⟩ | hfin⟩ := h
  · exact absurd (hphase.status.symm.trans heq) (by decide)
  · exact absurd heq hphase.hasDescs.inDetection.2
  · exact ⟨fun x hx hne => hfin.decoded.mapped x ((hfin.decoded.super x).mpr hx) hne, desc,
      hfin.layoutThere hdesc⟩

/-- A write that ends the detection completes the layout. -/
theorem Detects.completes (h : Detects t desc buf blkNo t₁)
    (hne : t.metaCtr.status ≠ .ext2Detected) (heq : t₁.metaCtr.status = .ext2Detected) :
    Completes t.dev t.metaCtr blkNo buf := by
  cases h with
  | idle _ h => exact absurd (by rw [← h]; exact heq) hne
  | recheck hs => exact absurd hs hne
  | back _ _ hs' => exact absurd (hs'.symm.trans heq) (by decide)
  | start _ _ _ _ _ hphase => exact absurd (hphase.status.symm.trans heq) (by decide)
  | startOn hs hblk hlegal hsupers h =>
    obtain ⟨hmapped, desc, h⟩ := h.layoutThere heq
    exact .start hs hblk hlegal hmapped hsupers desc h
  | supers hphase hmapped hlegal h =>
    obtain ⟨-, desc, h⟩ := h.layoutThere heq
    exact .supers hphase.status hmapped hlegal desc h
  | descs hphase h =>
    obtain ⟨-, desc, h⟩ := h.layoutThere heq
    exact .descs hphase.status desc h
  | rest hphase h =>
    obtain ⟨hsb0, ⟨-, hphase', -⟩ | ⟨-, hdec, hmapped, -⟩⟩ := h
    · exact absurd heq hphase'.hasDescs.inDetection.2
    · have hold := hphase.decoded
      refine .rest hphase.hasDescs ⟨hmapped.blkBmp.congr fun x => ?_,
        hmapped.inoBmp.congr fun x => ?_, hmapped.inoTable.congr fun x => ?_⟩
      · rw [hold.blkBmp, hdec.blkBmp, hsb0]
      · rw [hold.inoBmp, hdec.inoBmp, hsb0]
      · rw [hold.inoTable, hdec.inoTable, hsb0]

end Completes

/-- The block bitmaps and the write that ends the detection.  The bitmaps are in the order of the
groups, none of them is marked free in the bitmap of an earlier group, and the write does not set a
bit that is clear in the bitmap that it replaces. -/
structure BitmapsSafe (a : ArrayDisk) (sb : Ext2SuperBlock) (bmp : ℕ → ℕ) (blkNo : ℕ) (buf : Block) :
    Prop where
  ascending : ∀ g g', g < g' → g' < sb.gdCnt → bmp g < bmp g'
  kept : ∀ g g', g' < g → g < sb.gdCnt → ¬ ClearIn a sb bmp g' (bmp g)
  current : ∀ g < sb.gdCnt, blkNo = bmp g → ∀ x, ClearIn a sb bmp g x →
    getBit buf (x - sb.groupStart g) = false

/-- The condition depends on where the groups and their bitmaps are and on what these hold. -/
theorem BitmapsSafe.congr {a a' : ArrayDisk} {sb sb' : Ext2SuperBlock} {bmp bmp' : ℕ → ℕ} {blkNo : ℕ}
    {buf : Block} (h : BitmapsSafe a sb bmp blkNo buf) (hcnt : sb'.gdCnt = sb.gdCnt)
    (hstart : ∀ g, sb'.groupStart g = sb.groupStart g) (hbmp : ∀ g < sb.gdCnt, bmp' g = bmp g)
    (ha : ∀ g < sb.gdCnt, a' (bmp g) = a (bmp g)) : BitmapsSafe a' sb' bmp' blkNo buf := by
  have hclear : ∀ g < sb.gdCnt, ∀ x, ClearIn a' sb' bmp' g x → ClearIn a sb bmp g x := by
    rintro g hg x ⟨b, hb, hx⟩
    rw [hbmp g hg, ha g hg] at hb
    rw [hstart] at hx
    exact ⟨b, hb, hx⟩
  refine ⟨fun g g' hlt hg' => ?_, fun g g' hlt hg hx => ?_, fun g hg hblk x hx => ?_⟩
  · rw [hcnt] at hg'
    rw [hbmp g (hlt.trans hg'), hbmp g' hg']
    exact h.ascending g g' hlt hg'
  · rw [hcnt] at hg
    rw [hbmp g hg] at hx
    exact h.kept g g' hlt hg (hclear g' (hlt.trans hg) _ hx)
  · rw [hcnt] at hg
    rw [hbmp g hg] at hblk
    rw [hstart]
    exact h.current g hg hblk x (hclear g hg x hx)

/-- The super block of a disk. -/
def ArrayDisk.superBlock (D : ArrayDisk) : Ext2SuperBlock :=
  Ext2SuperBlock.ofBlock (D.disk sb0BlockNo) firstSuperBlockOffset

/-- The block bitmap of group `g`, as the descriptors of a disk name it. -/
def ArrayDisk.bitmapOf (D : ArrayDisk) (g : ℕ) : ℕ := (groupDesc D.disk g).bgBlockBitmap

/-- A write after which the data of the host is as safe as before. -/
structure TrimSafe (a : ArrayDisk) (m : Ext2MetaCtr) (blkNo : ℕ) (buf : Block) : Prop where
  keeps : Keeps bitmapLikeness a m blkNo buf
  bitmaps : Completes a m blkNo buf →
    BitmapsSafe a (ArrayDisk.superBlock (Function.update a blkNo (some buf)))
      (ArrayDisk.bitmapOf (Function.update a blkNo (some buf))) blkNo buf

/-! ## The end of a detection -/

/-- The bit of a block of a small file system. -/
theorem hostBit_eq {D : ArrayDisk} {b0 desc bmp : Block} {g i : ℕ} (h0 : D sb0BlockNo = some b0)
    (hper : (Ext2SuperBlock.ofBlock b0 firstSuperBlockOffset).sBlocksPerGroup = 32768)
    (hg : g < (Ext2SuperBlock.ofBlock b0 firstSuperBlockOffset).gdCnt) (hg8 : g < 8)
    (hdesc : D (sb0BlockNo + 1) = some desc)
    (hbmp : D (groupDesc (fun _ => desc) g).bgBlockBitmap = some bmp) (hi : i < 32768) :
    hostBit D ((Ext2SuperBlock.ofBlock b0 firstSuperBlockOffset).sFirstDataBlock + g * 32768 + i) =
      some (getBit bmp i) := by
  generalize hsb : Ext2SuperBlock.ofBlock b0 firstSuperBlockOffset = sb at *
  have hper' : ext2BlockSize / sizeofGroupDesc = 128 := by decide
  have hsub : sb.sFirstDataBlock + g * 32768 + i - sb.sFirstDataBlock = 32768 * g + i := by omega
  have hdiv : (32768 * g + i) / 32768 = g := by omega
  have hmod : (32768 * g + i) % 32768 = i := by omega
  have hblk : g / 128 = 0 := by omega
  have hslot : g % 128 = g := by omega
  rw [groupDesc_const desc hg8] at hbmp
  rw [hostBit, h0]
  simp only [Option.bind_eq_bind, Option.bind_some, hsb, hper, hper', hsub, hdiv, hmod, hblk, hslot,
    Nat.add_zero, hdesc, hbmp]
  rw [if_pos ⟨by omega, hg⟩]
  rfl

/-- The elements of a vector that holds an ascending sequence. -/
theorem SortedVector.eq_of_ascending {v : SortedVector} {f : ℕ → ℕ} {n : ℕ}
    (hf : ∀ i j, i < j → j < n → f i < f j) (hv : ∀ x, x ∈ v ↔ ∃ i < n, x = f i) :
    v.size = n ∧ ∀ i < n, v.get i = f i := by
  have hlist : v.toList = (List.range n).map f := by
    refine SortedVector.toList_eq (List.pairwise_map.mpr ?_) fun x => ?_
    · refine List.pairwise_iff_getElem.mpr fun i j hi hj hij => ?_
      rw [List.length_range] at hj
      rw [List.getElem_range, List.getElem_range]
      exact hf i j hij hj
    · rw [hv, List.mem_map]
      simp only [List.mem_range, eq_comm (a := x)]
  have hsize : v.size = n := by
    rw [← SortedVector.length_toList, hlist, List.length_map, List.length_range]
  refine ⟨hsize, fun i hi => ?_⟩
  rw [SortedVector.toList, hsize] at hlist
  exact List.map_inj_left.mp hlist i (List.mem_range.mpr hi)

section Finish

variable {t t₁ : Ext2Sys ArrayDisk} {desc buf : Block} {blkNo : ℕ} {c D : ArrayDisk}

/-- **What the end of a detection trims**: only blocks whose bits are clear in the bitmap of the
host. -/
theorem Finished.trims (h : Finished t.dev desc t₁)
    (hrec : Recorded bitmapLikeness desc (Function.update t.dev blkNo (some buf)) t₁.metaCtr)
    (hc : ∀ l < totalSmrBlocksCnt, c l = t.dev l)
    (hsafe : BitmapsSafe c (ArrayDisk.superBlock (Function.update c blkNo (some buf)))
      (ArrayDisk.bitmapOf (Function.update c blkNo (some buf))) blkNo buf)
    (hD : ∀ x b, Function.update t.dev blkNo (some buf) x = some b → D x = some b) :
    (∀ x b, t₁.dev x = some b → t.dev x = some b) ∧
      ∀ x b, t.dev x = some b → t₁.dev x = some b ∨ hostBit D x = some false := by
  obtain ⟨hstatus, hdec, hmapped, -, s', count, hdev, hctr, hmark⟩ := h
  obtain ⟨b0, hb0, hfirst, hper, hcnt⟩ := hrec.super
  obtain ⟨b1, hb1, hdescs⟩ := hrec.descs
  obtain ⟨-, hle, -, hper', hmax⟩ := Ext2SuperBlock.isLegal_iff.mp hdec.legal
  have hsuper : ArrayDisk.superBlock (Function.update c blkNo (some buf)) =
      Ext2SuperBlock.ofBlock b0 firstSuperBlockOffset := by
    rw [ArrayDisk.superBlock, ArrayDisk.disk,
      update_agree hc _ _ (Nat.lt_of_succ_lt descBlk_lt), hb0, Option.getD_some]
  have hdisk1 : ArrayDisk.disk (Function.update c blkNo (some buf)) (sb0BlockNo + 1) = b1 := by
    rw [ArrayDisk.disk, update_agree hc _ _ descBlk_lt, hb1, Option.getD_some]
  -- The condition, in terms of what the detector has recorded.
  let sb := t₁.metaCtr.sb0
  let bmp : ℕ → ℕ := fun g => (groupDesc (fun _ => desc) g).bgBlockBitmap
  have hthere : ∀ g < sb.gdCnt, HasBlock t.dev (bmp g) := fun g hg =>
    hmapped.blkBmp _ ((hdec.blkBmp _).mpr ⟨g, hg, rfl⟩)
  have hbmp : ∀ g < sb.gdCnt,
      bmp g = ArrayDisk.bitmapOf (Function.update c blkNo (some buf)) g := fun g hg => by
    rw [ArrayDisk.bitmapOf, groupDesc_small _ (hg.trans_le hdec.small), hdisk1]
    exact hdescs g hg
  have hsafe' : BitmapsSafe t.dev sb bmp blkNo buf := by
    rw [hsuper] at hsafe
    refine hsafe.congr hcnt (fun g => ?_) (fun g hg => hbmp g (hg.trans_eq hcnt.symm)) fun g hg => ?_
    · rw [Ext2SuperBlock.groupStart, Ext2SuperBlock.groupStart, hfirst, hper]
    · rw [← hbmp g (hg.trans_eq hcnt.symm)]
      exact (hc _ (hthere g (hg.trans_eq hcnt.symm)).1).symm
  have hmem : ∀ x, x ∈ t₁.metaCtr.metaBlks .blkBmpIdx ↔ ∃ g < sb.gdCnt, x = bmp g := hdec.blkBmp
  obtain ⟨hsize, hget⟩ := SortedVector.eq_of_ascending hsafe'.ascending hmem
  rw [← hdev] at hthere hsafe' ⊢
  rw [← hctr] at hstatus hsize hget
  have hsb : s'.metaCtr.sb0 = sb := congrArg Ext2MetaCtr.sb0 hctr
  have htrims := (markAllFreeBlks_trims hstatus hsize hget (fun g hg => (hthere g hg).2)
    (by rw [hsb]; exact hsafe'.kept)).of_ok hmark
  refine ⟨htrims.1, fun x b hb => (htrims.2 x b hb).imp_right ?_⟩
  rintro ⟨g, hg, hclear⟩
  rw [hsb] at hclear
  obtain ⟨old, hold, hlow, hhigh, hbit⟩ := id hclear
  have hg8 : g < 8 := hg.trans_le hdec.small
  have hstart : sb.groupStart g = sb.sFirstDataBlock + g * 32768 :=
    Ext2SuperBlock.groupStart_eq hdec.legal (by omega)
  obtain ⟨i, rfl⟩ := Nat.exists_eq_add_of_le hlow
  -- The bitmap that the host sees is the one that was read or the one that is being written.
  have hnew : ∃ new, D (bmp g) = some new ∧ getBit new i = false := by
    rw [Nat.add_sub_cancel_left] at hbit
    by_cases hblk : blkNo = bmp g
    · refine ⟨buf, hD _ _ (by rw [hblk, Function.update_self]), ?_⟩
      have := hsafe'.current g hg hblk _ hclear
      rwa [Nat.add_sub_cancel_left] at this
    · refine ⟨old, hD _ _ ?_, hbit⟩
      rw [Function.update_of_ne (Ne.symm hblk), ← hdev]
      exact hold
  obtain ⟨new, hnew, hbit'⟩ := hnew
  have hfirst' : sb.sFirstDataBlock =
      (Ext2SuperBlock.ofBlock b0 firstSuperBlockOffset).sFirstDataBlock := hfirst
  have hname : bmp g = (groupDesc (fun _ => b1) g).bgBlockBitmap := hdescs g hg
  have hbit := hostBit_eq (hD _ _ hb0) (hper.symm.trans hper') (hg.trans_eq hcnt) hg8 (hD _ _ hb1)
    (hname ▸ hnew) (show i < 32768 by omega)
  rw [hstart, hfirst', hbit, hbit']

theorem Advanced.dev_eq {a : ArrayDisk} {sb0 : Ext2SuperBlock} (h : Advanced a desc sb0 t₁)
    (hne : t₁.metaCtr.status ≠ .ext2Detected) : t₁.dev = a := by
  obtain ⟨-, ⟨hdev, -⟩ | hfin⟩ := h
  · exact hdev
  · exact absurd hfin.status hne

theorem AfterSBs.dev_eq {a : ArrayDisk} {sb0 : Ext2SuperBlock} (h : AfterSBs a sb0 t₁)
    (hne : t₁.metaCtr.status ≠ .ext2Detected) : t₁.dev = a := by
  obtain ⟨hdev, -⟩ | ⟨desc, -, h⟩ := h
  · exact hdev
  · exact h.dev_eq hne

/-- Nothing is trimmed before the end of a detection. -/
theorem Detects.dev_eq (h : Detects t desc buf blkNo t₁)
    (hnot : ¬ (t.metaCtr.status ≠ .ext2Detected ∧ t₁.metaCtr.status = .ext2Detected)) :
    t₁.dev = t.dev := by
  have hend : t.metaCtr.status ≠ .ext2Detected → t₁.metaCtr.status ≠ .ext2Detected :=
    fun h1 h2 => hnot ⟨h1, h2⟩
  cases h with
  | idle _ h => rw [h]
  | recheck _ hdev => exact hdev
  | back _ hdev => exact hdev
  | start _ _ _ hdev => exact hdev
  | startOn hs _ _ _ h => exact h.dev_eq (hend (by rw [hs]; decide))
  | supers hphase _ _ h => exact h.dev_eq (hend (by rw [hphase.status]; decide))
  | descs hphase h => exact h.dev_eq (hend (by rw [hphase.status]; decide))
  | rest hphase h => exact h.dev_eq (hend hphase.hasDescs.inDetection.2)

end Finish

/-! ## Runs -/

/-- The array holds what the host has written last, but for blocks marked free since. -/
structure HostInv (t : Ext2Sys ArrayDisk) (v : HostView) : Prop where
  tracks : ∃ desc, Tracks bitmapLikeness desc t.dev t.metaCtr
  written : ∀ x b, t.dev x = some b → v.latest x = some b
  stored : ∀ x b, v.latest x = some b → t.dev x = some b ∨ v.markedFree x = true

theorem hostInv_freshArray : HostInv freshArray .init :=
  ⟨⟨0, tracks_freshArray⟩, fun _ _ h => h, fun _ _ h => Or.inl h⟩

/-- **The step**: a write that is safe keeps the invariant. -/
theorem hostInv_step {σ : Type} {R : σ → ArrayDisk → Prop} (contents : σ → ArrayDisk)
    (hcontents : ∀ {d a}, R d a → ∀ l < totalSmrBlocksCnt, contents d l = a l) :
    StepRule true R HostInv HostView.next
      (fun st => TrimSafe (contents st.before.dev) st.before.metaCtr st.blkNo st.buf)
      (fun _ => True) := by
  rintro st t t' v hbefore hafter hwrite ⟨⟨desc, ht⟩, hwritten, hstored⟩ hsafe
  rw [hbefore.metaCtr] at hsafe
  have hagree := hcontents hbefore.dev
  obtain ⟨t₁, hdet, rfl, desc', ht', hend⟩ := writeOne_steady ht (hsafe.keeps.congr hagree) hwrite
  have hmarks : st.Marks ↔
      t.metaCtr.status ≠ .ext2Detected ∧ t₁.metaCtr.status = .ext2Detected := by
    rw [WriteStep.Marks, hbefore.metaCtr, hafter.metaCtr]
  have hview : ∀ x b, Function.update t.dev st.blkNo (some st.buf) x = some b →
      v.disk st x = some b := by
    intro x b hx
    rw [HostView.disk, Function.update_apply] at *
    split_ifs at hx ⊢
    · exact hx
    · exact hwritten x b hx
  have htrim : (∀ x b, t₁.dev x = some b → t.dev x = some b) ∧ ∀ x b, t.dev x = some b →
      t₁.dev x = some b ∨ st.Marks ∧ hostBit (v.disk st) x = some false := by
    by_cases hm : st.Marks
    · obtain ⟨hne, heq⟩ := hmarks.mp hm
      obtain ⟨hfin, hrec⟩ := hend hne heq
      obtain ⟨h1, h2⟩ := hfin.trims hrec hagree
        (hsafe.bitmaps ((hdet.completes hne heq).congr fun l hl => (hagree l hl).symm)) hview
      exact ⟨h1, fun x b hx => (h2 x b hx).imp_right fun h => ⟨hm, h⟩⟩
    · have hdev := hdet.dev_eq (mt hmarks.mpr hm)
      rw [hdev]
      exact ⟨fun _ _ h => h, fun _ _ h => Or.inl h⟩
  refine ⟨⟨⟨desc', ht'⟩, fun x b hx => ?_, fun x b hx => ?_⟩, trivial⟩
  · change v.disk st x = some b
    refine hview x b ?_
    replace hx : Function.update t₁.dev st.blkNo (some st.buf) x = some b := hx
    rw [Function.update_apply] at hx ⊢
    split_ifs at hx ⊢
    · exact hx
    · exact htrim.1 x b hx
  · replace hx : Function.update v.latest st.blkNo (some st.buf) x = some b := hx
    change Function.update t₁.dev st.blkNo (some st.buf) x = some b ∨ (v.next st).markedFree x = true
    simp only [HostView.next, Bool.or_eq_true, Bool.and_eq_true, decide_eq_true_eq]
    rw [Function.update_apply] at hx ⊢
    split_ifs at hx ⊢ with hblk
    · exact Or.inl hx
    · rcases hstored x b hx with h | h
      · exact (htrim.2 x b h).imp_right Or.inr
      · exact Or.inr (Or.inl ⟨hblk, h⟩)

/-- What a read returns, block by block. -/
theorem runOp_read_getElem {σ : Type} {L : BlockLayer σ} {allowed : Fault → Prop}
    {R : σ → ArrayDisk → Prop} {aware : Bool} (hsim : LayerSim L arrayLayer allowed R)
    {s s' : Ext2Sys σ} {t : Ext2Sys ArrayDisk} (hst : SysRel R s t) {blkNo : ℕ} {bufs out : List Block}
    (hop : runOp L aware s (.read blkNo bufs) = .ok (out, s')) {i : ℕ} (hi : i < bufs.length) :
    out[i]? = some ((t.dev (blkNo + i)).getD (bufs.getD i 0)) := by
  obtain ⟨r, hread, hsame, -⟩ := (hsim.readSmrBlocks_refines hst bufs blkNo).ok_of_ok hop
  have hr := ((readSmrBlocks_array_spec t bufs blkNo).of_ok hread).2
  rw [show out = r.1 from hsame, hr, List.getElem?_map, List.getElem?_range hi, Option.map_some,
    ArrayDisk.readOver, if_pos hi]

/-- **Allocated data is kept.**  With the detector on, if every write of a run is safe, a read
returns what was written last to a block, unless since then the free blocks have been trimmed while
the bitmap of the host had the bit of the block clear. -/
theorem allocated_data_kept (env : Env) (haware : env.aware = true) (hpast : env.PastEndNotFree)
    (data : ℕ → Block) (ops : List HostOp)
    (hindex : ∀ i, runModule env data ops ≠ .error (.tableIndex i))
    (hsafe : ∀ st ∈ trace (smrLayer env) env.aware (initSmrDisk (freshModule data)) ops,
      TrimSafe st.before.dev.contents st.before.metaCtr st.blkNo st.buf) :
    ∃ outs s, runModule env data ops = .ok (outs, s) ∧
      ∀ k blkNo bufs, ops[k]? = some (HostOp.read blkNo bufs) → ∃ out, outs[k]? = some out ∧
        ∀ i < bufs.length, ∀ b, latest (ops.take k) (blkNo + i) = some b → out[i]? = some b ∨
          (hostView (trace (smrLayer env) env.aware (initSmrDisk (freshModule data))
            (ops.take k))).markedFree (blkNo + i) = true := by
  obtain ⟨outs, s, hrun⟩ := runModule_ok hpast hindex
  refine ⟨outs, s, hrun, fun k blkNo bufs hk => ?_⟩
  obtain ⟨outs₁, s₁, out, s₂, hrun₁, hop, hout⟩ := runOps_getElem hrun hk
  have hstep := hostInv_step (R := Shows) SmrDev.contents fun h => h.contents
  rw [← haware] at hstep
  obtain ⟨-, t, hst, hinv⟩ := trace_rule (smrLayer_sim env) hstep (shows_init data)
    hostInv_freshArray (fun st hmem => hsafe st (mem_trace_of_take hmem)) hrun₁
  refine ⟨out, hout, fun i hi b hb => ?_⟩
  have hlatest : (hostView (trace (smrLayer env) env.aware (initSmrDisk (freshModule data))
      (ops.take k))).latest (blkNo + i) = some b := by
    rw [hostView, latest_trace hrun₁]
    exact hb
  refine (hinv.stored _ b hlatest).imp_left fun hdev => ?_
  rw [runOp_read_getElem (smrLayer_sim env) hst hop hi, hdev, Option.getD_some]

/-- The small file system with a block of data, written by the write that ends the detection. -/
theorem allocated_data_kept_small :
    let ops := [HostOp.write 0 [smallSuperBlk 0, smallDescBlk, fun _ => 0xFF, 0, 0],
      .write 100 [fun _ => 7], .read 100 [0]]
    ∃ outs s, runModule awareEnv (fun _ => 0) ops = .ok (outs, s) ∧
      ∀ k blkNo bufs, ops[k]? = some (HostOp.read blkNo bufs) → ∃ out, outs[k]? = some out ∧
        ∀ i < bufs.length, ∀ b, latest (ops.take k) (blkNo + i) = some b → out[i]? = some b ∨
          (hostView (trace (smrLayer awareEnv) true (initSmrDisk (freshModule fun _ => 0))
            (ops.take k))).markedFree (blkNo + i) = true := by
  intro ops
  obtain ⟨outs, s, hrun, hsame⟩ := aware_run_of_array ops (by decide +kernel)
  refine allocated_data_kept awareEnv rfl awareEnv_pastEndNotFree _ ops
    (fun i hres => by rw [hrun] at hres; cases hres) fun st hst => ?_
  -- Block 0 starts the detection, and no metadata is written twice.
  have harr : ∀ st ∈ trace arrayLayer true freshArray ops,
      (st.blkNo = 0 → st.before.metaCtr.status = .noSb0) ∧
        (st.blkNo = 1 ∨ st.blkNo = 2 → (st.before.dev st.blkNo).isNone = true) ∧
        ((st.before.dev 1).isNone = true →
          st.before.metaCtr.status = .noSb0 ∨ st.before.metaCtr.status = .sbsDetected) ∧
        ((st.before.dev 1).isSome = true →
          (Ext2SuperBlock.ofBlock ((Function.update st.before.dev st.blkNo (some st.buf) 0).getD 0)
            firstSuperBlockOffset).gdCnt = 1 ∧
          (groupDesc (fun _ => (Function.update st.before.dev st.blkNo (some st.buf) 1).getD 0)
            0).bgBlockBitmap = 2) := by
    decide +kernel
  obtain ⟨st', hst', hrel⟩ := exists_of_forall₂ hsame hst
  obtain ⟨h0, h12, hdescs, hlayout⟩ := harr st' hst'
  rw [← hrel.blkNo, ← hrel.before.metaCtr] at h0
  rw [← hrel.before.metaCtr] at hdescs
  rw [← hrel.blkNo] at h12 hlayout
  rw [← hrel.buf] at hlayout
  have hagree := hrel.before.dev.contents
  have h1 : st.before.dev.contents 1 = st'.before.dev 1 := hagree 1 descBlk_lt
  refine ⟨⟨fun hblk hin _ => absurd (h0 hblk) hin.1, fun hblk _ b hb => ?_⟩, fun hcomp => ?_⟩
  · replace hblk : st.blkNo = 1 := hblk
    rw [hblk] at h12
    replace hb : st.before.dev.contents 1 = some b := hb
    rw [h1, Option.isNone_iff_eq_none.mp (h12 (Or.inl rfl))] at hb
    cases hb
  · have hsome : (st'.before.dev 1).isSome = true := by
      rw [← Bool.not_eq_false, Option.isSome_eq_false_iff]
      intro hnone
      rcases hcomp.descs_or with hd | hd
      · replace hd : (st.before.dev.contents 1).isSome = true := hd
        rw [h1, Option.isNone_iff_eq_none.mp hnone] at hd
        cases hd
      · rcases hdescs hnone with hs | hs
        · exact hd.inDetection.1 hs
        · rcases hd with hd | hd | hd <;> rw [hs] at hd <;> cases hd
    obtain ⟨hcnt, hbmp⟩ := hlayout hsome
    have hcnt' : (ArrayDisk.superBlock
        (Function.update st.before.dev.contents st.blkNo (some st.buf))).gdCnt = 1 := by
      rw [ArrayDisk.superBlock, ArrayDisk.disk,
        update_agree hagree _ _ (Nat.lt_of_succ_lt descBlk_lt)]
      exact hcnt
    refine ⟨fun g g' hlt hg => by omega, fun g g' hlt hg => by omega, fun g hg hblk x hclear => ?_⟩
    obtain rfl : g = 0 := by omega
    obtain ⟨b, hb, -⟩ := hclear
    rw [← hblk] at hb
    have h2 : st.blkNo = 2 := by
      rw [hblk, ArrayDisk.bitmapOf, groupDesc_small _ (by decide), ArrayDisk.disk,
        update_agree hagree _ _ descBlk_lt]
      exact hbmp
    have hlt : st.blkNo < totalSmrBlocksCnt := by
      rw [h2, totalSmrBlocksCnt_eq]
      decide
    rw [hagree _ hlt, Option.isNone_iff_eq_none.mp (h12 (Or.inr h2))] at hb
    cases hb

/-- **Allocated data is lost.**  Block 100 is written, and then the bitmap that says that it is in
use; this write ends the detection, which trims block 100 by the bitmap that was there before. -/
theorem allocated_data_lost :
    let ops := [HostOp.write 0 [smallSuperBlk 0, smallDescBlk,
        fun i => if i.val = 12 then 0xEF else 0xFF, 0], .write 100 [fun _ => 7], .write 4 [0],
      .write 2 [fun _ => 0xFF], .read 100 [0]]
    awareEnv.PastEndNotFree ∧
      ∃ outs s out, runModule awareEnv (fun _ => 0) ops = .ok (outs, s) ∧ outs[4]? = some out ∧
        latest (ops.take 4) 100 = some (fun _ => 7) ∧ out[0]? ≠ some (fun _ => 7) ∧
        (hostView (trace (smrLayer awareEnv) true (initSmrDisk (freshModule fun _ => 0))
          (ops.take 4))).markedFree 100 = false := by
  intro ops
  obtain ⟨outs, s, hrun, -⟩ := aware_run_of_array ops (by decide +kernel)
  obtain ⟨outs₁, s₁, out, s₂, hrun₁, hop, hout⟩ := runOps_getElem hrun (k := 4) rfl
  obtain ⟨⟨outs', t⟩, harr, -, hst⟩ := ((smrLayer_sim awareEnv).runOps_refines true
    (shows_init _) (ops.take 4)).ok_of_ok hrun₁
  refine ⟨awareEnv_pastEndNotFree, outs, s, out, hrun, hout, ?_, fun hdata => ?_, ?_⟩
  · simp [ops, latest, HostOp.apply]
  · have hnone : ((runOps arrayLayer true freshArray (ops.take 4)).toOption.bind
        fun r => r.2.dev 100).isNone = true := by decide +kernel
    rw [harr] at hnone
    have hdev : t.dev (100 + 0) = none := Option.isNone_iff_eq_none.mp hnone
    rw [runOp_read_getElem (smrLayer_sim awareEnv) hst hop Nat.one_pos, hdev] at hdata
    exact absurd (congrFun (Option.some.inj hdata) 0) (by decide)
  · have hsame := hostView_congr (trace_refines (smrLayer_sim awareEnv) (shows_init _) hrun₁)
    change hostView (trace (smrLayer awareEnv) true _ _) = hostView (trace _ true _ _) at hsame
    rw [hsame]
    decide +kernel

end MemSmr
