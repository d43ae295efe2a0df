import MemSmr.Trace

/-!
# Rewriting the super block and the descriptors

The detector copies the super block when it is written to block 0 and reads the descriptors when all
the super blocks are there.  It does not look again, so what it has recorded is the layout on disk
only while the host does not change either of them.

* `Likeness`: what of the super block and of the descriptors has to stay the same.
* `Keeps`: a write changes neither of them, once the detector has them or is about to read them.
* `Tracks`: what the detector has recorded is like what is on disk; `Detects.steady` is the step.
-/

namespace MemSmr

/-- What of the super block and of the descriptors has to stay the same.  The descriptors are
compared for the groups that a super block describes. -/
structure Likeness where
  sameSb : Ext2SuperBlock → Ext2SuperBlock → Prop
  sameDesc : Ext2SuperBlock → Block → Block → Prop
  sb_refl : ∀ sb, sameSb sb sb
  desc_refl : ∀ sb desc, sameDesc sb desc desc
  desc_trans : ∀ {sb desc desc' desc''}, sameDesc sb desc desc' → sameDesc sb desc' desc'' →
    sameDesc sb desc desc''

/-! ## The condition on a write -/

/-- A detection is under way. -/
def Ext2MetaCtr.InDetection (m : Ext2MetaCtr) : Prop :=
  m.status ≠ .noSb0 ∧ m.status ≠ .ext2Detected

/-- The descriptors have been read. -/
def Ext2MetaCtr.HasDescs (m : Ext2MetaCtr) : Prop :=
  m.status = .bgDescsDetected ∨ m.status = .blkBitmapDetected ∨ m.status = .inoBitmapDetected

theorem Ext2MetaCtr.HasDescs.inDetection {m : Ext2MetaCtr} (h : m.HasDescs) : m.InDetection := by
  rcases h with h | h | h <;> exact ⟨by rw [h]; decide, by rw [h]; decide⟩

theorem DescsPhase.hasDescs {a : ArrayDisk} {desc : Block} {m : Ext2MetaCtr}
    (h : DescsPhase a desc m) : m.HasDescs := by
  cases h with
  | bgDescs hs => exact Or.inl hs
  | blkBitmap hs => exact Or.inr (Or.inl hs)
  | inoBitmap hs => exact Or.inr (Or.inr hs)

theorem DescsPhase.decoded {a : ArrayDisk} {desc : Block} {m : Ext2MetaCtr}
    (h : DescsPhase a desc m) : Decoded a desc m := by
  cases h with
  | bgDescs _ h => exact h
  | blkBitmap _ h => exact h
  | inoBitmap _ h => exact h

/-- The next call of the detector starts again, because a copy of the super block is not legal. -/
def FallsBack (a : ArrayDisk) (m : Ext2MetaCtr) : Prop :=
  m.status = .sb0Detected ∧ Mapped a (m.metaBlks .tmpIdx) ∧ ¬ OthersLegal a m

/-- The descriptors have been read, or the next call of the detector reads them if they are there. -/
def ReadsDescs (a : ArrayDisk) (m : Ext2MetaCtr) : Prop :=
  m.HasDescs ∨ m.status = .sbsDetected ∨
    m.status = .sb0Detected ∧ Mapped a (m.metaBlks .tmpIdx) ∧ OthersLegal a m

/-- A write keeps what the detector relies on. -/
structure Keeps (like : Likeness) (a : ArrayDisk) (m : Ext2MetaCtr) (blkNo : ℕ) (buf : Block) :
    Prop where
  super : blkNo = sb0BlockNo → m.InDetection → ¬ FallsBack a m →
    like.sameSb m.sb0 (Ext2SuperBlock.ofBlock buf firstSuperBlockOffset)
  descs : blkNo = sb0BlockNo + 1 → ReadsDescs a m →
    ∀ b, a (sb0BlockNo + 1) = some b → like.sameDesc m.sb0 b buf

/-- The block of the descriptors is in the device. -/
theorem descBlk_lt : sb0BlockNo + 1 < totalSmrBlocksCnt := by
  rw [totalSmrBlocksCnt_eq]
  decide

/-- The condition depends on what a block of the device holds only. -/
theorem Keeps.congr {like : Likeness} {a a' : ArrayDisk} {m : Ext2MetaCtr} {blkNo : ℕ}
    {buf : Block} (h : Keeps like a m blkNo buf) (ha : ∀ l < totalSmrBlocksCnt, a l = a' l) :
    Keeps like a' m blkNo buf := by
  have hmapped : ∀ v, Mapped a v ↔ Mapped a' v := fun v =>
    forall₂_congr fun x _ => and_congr_right fun hx => by rw [ha x hx]
  have hlegal : Mapped a' (m.metaBlks .tmpIdx) → (OthersLegal a m ↔ OthersLegal a' m) := fun hm =>
    forall₂_congr fun x hx => by rw [ha x (hm x hx).1]
  have hfalls : FallsBack a m ↔ FallsBack a' m := by
    refine and_congr_right fun _ => ?_
    rw [hmapped]
    exact and_congr_right fun hm => not_congr (hlegal hm)
  have hreads : ReadsDescs a m ↔ ReadsDescs a' m := by
    refine or_congr_right (or_congr_right (and_congr_right fun _ => ?_))
    rw [hmapped]
    exact and_congr_right fun hm => hlegal hm
  refine ⟨fun h1 h2 h3 => h.super h1 h2 (mt hfalls.mp h3), fun h1 h2 b hb => ?_⟩
  exact h.descs h1 (hreads.mpr h2) b ((ha _ descBlk_lt).trans hb)

/-! ## What has been recorded -/

/-- What the detector has recorded is like what is on disk. -/
structure Tracks (like : Likeness) (desc : Block) (a : ArrayDisk) (m : Ext2MetaCtr) : Prop where
  phase : Phase a desc m
  super : m.InDetection → ∃ b, a sb0BlockNo = some b ∧
    like.sameSb m.sb0 (Ext2SuperBlock.ofBlock b firstSuperBlockOffset)
  descs : m.HasDescs → ∃ b, a (sb0BlockNo + 1) = some b ∧ like.sameDesc m.sb0 desc b

/-- What one call of the detector has recorded, for the disk `D` after the write that calls it. -/
structure Recorded (like : Likeness) (desc : Block) (D : ArrayDisk) (m : Ext2MetaCtr) : Prop where
  super : ∃ b, D sb0BlockNo = some b ∧
    like.sameSb m.sb0 (Ext2SuperBlock.ofBlock b firstSuperBlockOffset)
  descs : ∃ b, D (sb0BlockNo + 1) = some b ∧ like.sameDesc m.sb0 desc b

/-- A write keeps two arrays alike. -/
theorem update_agree {a a' : ArrayDisk} (ha : ∀ l < totalSmrBlocksCnt, a' l = a l) (blkNo : ℕ)
    (b : Option Block) {l : ℕ} (hl : l < totalSmrBlocksCnt) :
    Function.update a' blkNo b l = Function.update a blkNo b l := by
  rw [Function.update_apply, Function.update_apply, ha l hl]

theorem Recorded.store_congr {like : Likeness} {desc buf : Block} {a a' : ArrayDisk} {blkNo : ℕ}
    {m : Ext2MetaCtr} (h : Recorded like desc (Function.update a blkNo (some buf)) m)
    (ha : ∀ l < totalSmrBlocksCnt, a' l = a l) :
    Recorded like desc (Function.update a' blkNo (some buf)) m where
  super := by
    rw [update_agree ha _ _ (Nat.lt_of_succ_lt descBlk_lt)]
    exact h.super
  descs := by
    rw [update_agree ha _ _ descBlk_lt]
    exact h.descs

theorem tracks_freshArray {like : Likeness} :
    Tracks like 0 freshArray.dev freshArray.metaCtr where
  phase := .noSb0 rfl
  super h := absurd rfl h.1
  descs h := by rcases h with h | h | h <;> cases h

section Step

variable {like : Likeness} {t t₁ : Ext2Sys ArrayDisk} {desc buf : Block} {blkNo : ℕ}

/-- Block 0 after the write, while a detection goes on. -/
theorem Tracks.super_after (h : Tracks like desc t.dev t.metaCtr)
    (hk : Keeps like t.dev t.metaCtr blkNo buf) (hin : t.metaCtr.InDetection)
    (hnot : ¬ FallsBack t.dev t.metaCtr) :
    ∃ b, Function.update t.dev blkNo (some buf) sb0BlockNo = some b ∧
      like.sameSb t.metaCtr.sb0 (Ext2SuperBlock.ofBlock b firstSuperBlockOffset) := by
  by_cases hblk : blkNo = sb0BlockNo
  · exact ⟨buf, by rw [hblk, Function.update_self], hk.super hblk hin hnot⟩
  · rw [Function.update_of_ne (Ne.symm hblk)]
    exact h.super hin

/-- Block 1 after the write, when it held `b` before. -/
theorem Keeps.descs_after (hk : Keeps like t.dev t.metaCtr blkNo buf)
    (hreads : ReadsDescs t.dev t.metaCtr) {b : Block} (hb : t.dev (sb0BlockNo + 1) = some b)
    (hlike : like.sameDesc t.metaCtr.sb0 desc b) :
    ∃ b, Function.update t.dev blkNo (some buf) (sb0BlockNo + 1) = some b ∧
      like.sameDesc t.metaCtr.sb0 desc b := by
  by_cases hblk : blkNo = sb0BlockNo + 1
  · exact ⟨buf, by rw [hblk, Function.update_self],
      like.desc_trans hlike (hk.descs hblk hreads b hb)⟩
  · rw [Function.update_of_ne (Ne.symm hblk)]
    exact ⟨b, hb, hlike⟩

/-- What a call of the detector hands on to the next one, and what it has recorded if it has come to
the end. -/
def Steady (like : Likeness) (t : Ext2Sys ArrayDisk) (blkNo : ℕ) (buf : Block)
    (t₁ : Ext2Sys ArrayDisk) : Prop :=
  ∃ desc, Tracks like desc (Function.update t₁.dev blkNo (some buf)) t₁.metaCtr ∧
    (t.metaCtr.status ≠ .ext2Detected → t₁.metaCtr.status = .ext2Detected →
      Finished t.dev desc t₁ ∧ Recorded like desc (Function.update t.dev blkNo (some buf)) t₁.metaCtr)

/-- A call after which no detection is under way. -/
theorem steady_of_not_inDetection (desc : Block)
    (hphase : Phase (Function.update t₁.dev blkNo (some buf)) desc t₁.metaCtr)
    (hout : ¬ t₁.metaCtr.InDetection)
    (hend : t.metaCtr.status ≠ .ext2Detected → t₁.metaCtr.status = .ext2Detected →
      Finished t.dev desc t₁ ∧
        Recorded like desc (Function.update t.dev blkNo (some buf)) t₁.metaCtr) :
    Steady like t blkNo buf t₁ := by
  exact ⟨desc, ⟨hphase, fun h => absurd h hout, fun h => absurd h.inDetection hout⟩, hend⟩

theorem Advanced.steady {sb0 : Ext2SuperBlock} (h : Advanced t.dev desc sb0 t₁)
    (hsuper : ∃ b, Function.update t.dev blkNo (some buf) sb0BlockNo = some b ∧
      like.sameSb sb0 (Ext2SuperBlock.ofBlock b firstSuperBlockOffset))
    (hdescs : ∃ b, Function.update t.dev blkNo (some buf) (sb0BlockNo + 1) = some b ∧
      like.sameDesc sb0 desc b) : Steady like t blkNo buf t₁ := by
  obtain ⟨rfl, ⟨hdev, hphase, -⟩ | hfin⟩ := h
  · rw [← hdev] at hphase hsuper hdescs
    exact ⟨desc, ⟨(Phase.descs hphase).store blkNo buf, fun _ => hsuper, fun _ => hdescs⟩,
      fun _ hend => absurd hend hphase.hasDescs.inDetection.2⟩
  · exact steady_of_not_inDetection desc (.ext2 hfin.status hfin.tmp) (fun h => h.2 hfin.status)
      fun _ _ =>
      ⟨hfin, hsuper, hdescs⟩

theorem AfterSBs.steady {sb0 : Ext2SuperBlock} (h : AfterSBs t.dev sb0 t₁)
    (hsuper : ∃ b, Function.update t.dev blkNo (some buf) sb0BlockNo = some b ∧
      like.sameSb sb0 (Ext2SuperBlock.ofBlock b firstSuperBlockOffset))
    (hdescs : ∀ desc, t.dev (sb0BlockNo + 1) = some desc →
      ∃ b, Function.update t.dev blkNo (some buf) (sb0BlockNo + 1) = some b ∧
        like.sameDesc sb0 desc b) : Steady like t blkNo buf t₁ := by
  obtain ⟨hdev, rfl, hphase, -⟩ | ⟨desc, hdesc, h⟩ := h
  · rw [← hdev] at hphase hsuper
    refine ⟨0, ⟨(Phase.sbs hphase).store blkNo buf, fun _ => hsuper, ?_⟩, fun _ hend => ?_⟩
    · rintro (h | h | h) <;> exact absurd (hphase.status.symm.trans h) (by decide)
    · exact absurd (hphase.status.symm.trans hend) (by decide)
  · exact h.steady hsuper (hdescs desc hdesc)

/-- **The step.**  A write that keeps what the detector relies on hands on a record of what is on
disk; if it ends the detection, what has been recorded is like what the host sees. -/
theorem Detects.steady (h : Detects t desc buf blkNo t₁) (ht : Tracks like desc t.dev t.metaCtr)
    (hk : Keeps like t.dev t.metaCtr blkNo buf) : Steady like t blkNo buf t₁ := by
  cases h with
  | idle hs h =>
    subst h
    refine ⟨desc, ⟨ht.phase.store blkNo buf, fun hin => ?_, fun hdescs => ?_⟩, fun hne heq =>
      absurd heq hne⟩
    · exact ht.super_after hk hin fun hf => hs.not_mapped hf.1 hf.2.1
    · obtain ⟨b, hb, hlike⟩ := ht.descs hdescs
      exact hk.descs_after (Or.inl hdescs) hb hlike
  | recheck hs hdev hs' hblks =>
    have htmp : ∀ x, x ∉ t₁.metaCtr.metaBlks .tmpIdx := by
      rw [hblks]
      exact ht.phase.tmp_empty hs
    exact steady_of_not_inDetection desc (.ext2 hs' htmp) (fun h => h.2 hs') fun hne _ =>
      absurd hs hne
  | back hs hdev hs' =>
    exact steady_of_not_inDetection desc (.noSb0 hs') (fun h => h.1 hs') fun _ heq =>
      absurd (hs'.symm.trans heq) (by decide)
  | start hs hblk hlegal hdev hsb0 hphase hwait =>
    refine ⟨0, ⟨(Phase.sb0 hphase).store blkNo buf, fun _ => ⟨buf, ?_, ?_⟩, ?_⟩, fun _ heq => ?_⟩
    · rw [hblk, Function.update_self]
    · rw [hsb0]
      exact like.sb_refl _
    · rintro (h | h | h) <;> exact absurd (hphase.status.symm.trans h) (by decide)
    · exact absurd (hphase.status.symm.trans heq) (by decide)
  | startOn hs hblk hlegal hsupers h =>
    refine h.steady ⟨buf, ?_, like.sb_refl _⟩ fun desc hdesc => ⟨desc, ?_, like.desc_refl _ _⟩
    · rw [hblk, Function.update_self]
    · rw [hblk, Function.update_of_ne (by decide)]
      exact hdesc
  | supers hphase hmapped hlegal h =>
    have hin : t.metaCtr.InDetection :=
      ⟨by rw [hphase.status]; decide, by rw [hphase.status]; decide⟩
    exact h.steady (ht.super_after hk hin fun hf => hf.2.2 hlegal) fun desc hdesc =>
      hk.descs_after (Or.inr (Or.inr ⟨hphase.status, hmapped, hlegal⟩)) hdesc (like.desc_refl _ _)
  | descs hphase h =>
    have hin : t.metaCtr.InDetection :=
      ⟨by rw [hphase.status]; decide, by rw [hphase.status]; decide⟩
    exact h.steady (ht.super_after hk hin fun hf => absurd (hphase.status.symm.trans hf.1)
      (by decide)) fun desc hdesc =>
        hk.descs_after (Or.inr (Or.inl hphase.status)) hdesc (like.desc_refl _ _)
  | rest hphase h =>
    have hdescs := hphase.hasDescs
    have hne : t.metaCtr.status ≠ .sb0Detected := by
      rcases hdescs with h | h | h <;> rw [h] <;> decide
    obtain ⟨b, hb, hlike⟩ := ht.descs hdescs
    exact h.steady (ht.super_after hk hdescs.inDetection fun hf => hne hf.1)
      (hk.descs_after (Or.inl hdescs) hb hlike)

/-- One write to the plain array, with the detector on. -/
theorem writeOne_steady {t' : Ext2Sys ArrayDisk} (ht : Tracks like desc t.dev t.metaCtr)
    (hk : Keeps like t.dev t.metaCtr blkNo buf)
    (hwrite : t.writeOne arrayLayer true buf blkNo = .ok t') :
    ∃ t₁, Detects t desc buf blkNo t₁ ∧
      t' = { t₁ with dev := Function.update t₁.dev blkNo (some buf) } ∧
      Steady like t blkNo buf t₁ := by
  obtain ⟨t₁, hdet, ht'⟩ := (writeOne_array_spec ht.phase buf blkNo).of_ok hwrite
  exact ⟨t₁, hdet, ht', Detects.steady hdet ht hk⟩

end Step

end MemSmr
