import MemSmr.DetectedLayout

/-!
# The phases of the detector, as the module shows them

* `PhaseInv`: the status, the scratch vector and the blocks that have a mapping.
* `phase_invariant`: every state between two writes satisfies it.
-/

namespace MemSmr

open Outcome

/-- What holds between two writes. -/
structure PhaseInv (s : Ext2Sys SmrDev) : Prop where
  status : s.metaCtr.status = .ext2Detected ∨ s.metaCtr.status ∈ [MetaStatus.noSb0, .sb0Detected,
    .sbsDetected, .bgDescsDetected, .blkBitmapDetected, .inoBitmapDetected]
  tmpSb0 : s.metaCtr.status = .sb0Detected →
    ∀ x, x ∈ s.metaCtr.metaBlks .tmpIdx ↔ x ∈ s.metaCtr.metaBlks .sbIdx ∧ x ≠ sb0BlockNo
  tmpSbs : s.metaCtr.status = .sbsDetected →
    ∀ x, x ∈ s.metaCtr.metaBlks .tmpIdx ↔ ∃ i < s.metaCtr.sb0.gdBlks, x = sb0BlockNo + 1 + i
  tmpBgDescs : s.metaCtr.status = .bgDescsDetected → s.metaCtr.TmpIs .blkBmpIdx
  tmpBlkBitmap : s.metaCtr.status = .blkBitmapDetected → s.metaCtr.TmpIs .inoBmpIdx
  tmpInoBitmap : s.metaCtr.status = .inoBitmapDetected → s.metaCtr.TmpIs .inoTableIdx
  tmpExt2 : s.metaCtr.status = .ext2Detected → ∀ x, x ∉ s.metaCtr.metaBlks .tmpIdx
  supers : s.metaCtr.status ∈ [MetaStatus.sbsDetected, .bgDescsDetected, .blkBitmapDetected,
    .inoBitmapDetected] → ∀ x ∈ s.metaCtr.metaBlks .sbIdx, x ≠ sb0BlockNo → s.dev.hasMapping x = true
  descs : s.metaCtr.status ∈ [MetaStatus.bgDescsDetected, .blkBitmapDetected, .inoBitmapDetected] →
    ∀ i < s.metaCtr.sb0.gdBlks, s.dev.hasMapping (sb0BlockNo + 1 + i) = true
  blkBmps : s.metaCtr.status ∈ [MetaStatus.blkBitmapDetected, .inoBitmapDetected] →
    ∀ x ∈ s.metaCtr.metaBlks .blkBmpIdx, s.dev.hasMapping x = true
  inoBmps : s.metaCtr.status = .inoBitmapDetected →
    ∀ x ∈ s.metaCtr.metaBlks .inoBmpIdx, s.dev.hasMapping x = true

section Fields

variable {s : Ext2Sys SmrDev} {t : Ext2Sys ArrayDisk} {desc : Block}

/-- A block that has contents in the array has a mapping. -/
theorem Shows.hasMapping {d : SmrDev} {a : ArrayDisk} (h : Shows d a) {x : ℕ} (hx : HasBlock a x) :
    d.hasMapping x = true := by
  rw [SmrDev.hasMapping_eq, h.contents x hx.1]
  exact hx.2

theorem SupersKnown.hasMapping (h : SupersKnown t.dev s.metaCtr) (hst : SysRel Shows s t) :
    ∀ x ∈ s.metaCtr.metaBlks .sbIdx, x ≠ sb0BlockNo → s.dev.hasMapping x = true :=
  fun x hx hne => hst.dev.hasMapping (h.mapped x hx hne)

theorem Mapped.hasMapping {v : SortedVector} (h : Mapped t.dev v) (hst : SysRel Shows s t) :
    ∀ x ∈ v, s.dev.hasMapping x = true := fun x hx => hst.dev.hasMapping (h x hx)

/-- There is one descriptor block after block 0. -/
theorem Decoded.descs_hasMapping (h : Decoded t.dev desc s.metaCtr) (hst : SysRel Shows s t) :
    ∀ i < s.metaCtr.sb0.gdBlks, s.dev.hasMapping (sb0BlockNo + 1 + i) = true := by
  intro i hi
  rw [Ext2SuperBlock.gdBlks_eq_one h.small] at hi
  obtain rfl : i = 0 := by omega
  exact hst.dev.hasMapping h.descMapped

/-- The phase, as a list of facts about each status. -/
theorem phaseInv_of_phase (hst : SysRel Shows s t) (h : Phase t.dev desc t.metaCtr) :
    PhaseInv s := by
  rw [← hst.metaCtr] at h
  cases h with
  | noSb0 hs => constructor <;> simp [hs]
  | ext2 hs htmp => constructor <;> simp [hs, htmp]
  | sb0 h =>
    have hs := h.status
    have htmp : ∀ x, x ∈ s.metaCtr.metaBlks .tmpIdx ↔
        x ∈ s.metaCtr.metaBlks .sbIdx ∧ x ≠ sb0BlockNo := by
      intro x
      rw [h.super]
      constructor
      · intro hx
        refine ⟨Or.inr hx, ?_⟩
        rintro rfl
        exact h.zero_notMem hx
      · rintro ⟨hx, hne⟩
        exact hx.resolve_left hne
    constructor <;> simp [hs, htmp]
  | sbs h =>
    have hs := h.status
    have htmp : ∀ x, x ∈ s.metaCtr.metaBlks .tmpIdx ↔
        ∃ i < s.metaCtr.sb0.gdBlks, x = sb0BlockNo + 1 + i := by
      intro x
      rw [h.tmp, Ext2SuperBlock.gdBlks_eq_one h.small]
      constructor
      · rintro rfl
        exact ⟨0, Nat.one_pos, rfl⟩
      · rintro ⟨i, hi, rfl⟩
        obtain rfl : i = 0 := by omega
        rfl
    have hsupers := h.toSupersKnown.hasMapping hst
    constructor <;> simp [hs] <;> assumption
  | descs h =>
    cases h with
    | bgDescs hs h htmp =>
      have hsupers := h.toSupersKnown.hasMapping hst
      have hdescs := h.descs_hasMapping hst
      constructor <;> simp [hs] <;> assumption
    | blkBitmap hs h htmp hblk =>
      have hsupers := h.toSupersKnown.hasMapping hst
      have hdescs := h.descs_hasMapping hst
      have hblk := hblk.hasMapping hst
      constructor <;> simp [hs] <;> assumption
    | inoBitmap hs h htmp hblk hino =>
      have hsupers := h.toSupersKnown.hasMapping hst
      have hdescs := h.descs_hasMapping hst
      have hblk := hblk.hasMapping hst
      have hino := hino.hasMapping hst
      constructor <;> simp [hs] <;> assumption

end Fields

/-- **The phases of the detector.**  Between two writes the status is one that `dectors` has a
function for or `EXT2_DETECTED`, the scratch vector is what the status says, and the blocks that have
been checked have a mapping. -/
theorem phase_invariant (env : Env) (data : ℕ → Block) (ops : List HostOp)
    (outs : List (List Block)) (s : Ext2Sys SmrDev)
    (hrun : runModule env data ops = .ok (outs, s)) : PhaseInv s := by
  obtain ⟨r, hr, -, hst⟩ := (runModule_refines env data ops).ok_of_ok hrun
  obtain ⟨desc, hphase⟩ := (meets_runOps_array env.aware inPhase_freshArray ops).of_ok hr
  exact phaseInv_of_phase hst hphase

/-- The detector has read the descriptors and waits for the block bitmap. -/
theorem phase_invariant_waiting :
    ∃ outs s, runModule awareEnv (fun _ => 0)
        [.write 0 [smallSuperBlk 0, smallDescBlk, fun _ => 0xFF]] = .ok (outs, s) ∧
      s.metaCtr.status = .bgDescsDetected ∧ s.metaCtr.TmpIs .blkBmpIdx ∧ PhaseInv s := by
  obtain ⟨outs, s, hrun, hend⟩ := aware_run_ctr
    [.write 0 [smallSuperBlk 0, smallDescBlk, fun _ => 0xFF]]
    (fun m => m.status = .bgDescsDetected) (by decide +kernel)
  have hstatus := of_decide_eq_true hend
  have hinv := phase_invariant awareEnv _ _ outs s hrun
  exact ⟨outs, s, hrun, hstatus, hinv.tmpBgDescs hstatus, hinv⟩

end MemSmr
