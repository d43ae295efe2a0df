import MemSmr.MetaFlags

/-!
# A new file system over an old one

The host formats the device again while the detector knows a file system: block 0 is written with a
super block that describes another layout.

* `Restarted`: the detector follows the new file system, as it would have done from `NO_SB0`.
* `reformat_not_followed`: it never does.
-/

namespace MemSmr

open Outcome

section Kept

variable {s s' : Ext2Sys FlagDisk} {buf : Block}

/-- Block 0 is written with a super block of another file system: the recorded one stays. -/
theorem detectExt2Fs_keeps_sb0 (hstatus : s.metaCtr.status ≠ .noSb0)
    (hdiff : s.metaCtr.sb0.isCompatible (Ext2SuperBlock.ofBlock buf firstSuperBlockOffset) = false)
    (h : s.detectExt2Fs flagLayer buf sb0BlockNo = .ok s') : s'.metaCtr.sb0 = s.metaCtr.sb0 := by
  have hstage : ∀ {f : Except Fault (Ext2Sys FlagDisk)}, Meets (fun _ => True) (Marked s) f →
      f = .ok s' → s'.metaCtr.sb0 = s.metaCtr.sb0 := fun hf hres => (hf.of_ok hres).ctr.sb0
  rw [Ext2Sys.detectExt2Fs] at h
  cases hs : s.metaCtr.status with
  | ext2Detected =>
    simp only [hs, if_true] at h
    rw [Ext2Sys.recheckSB0] at h
    dsimp only at h
    rw [if_neg fun hcond => by rw [hdiff] at hcond; exact Bool.false_ne_true hcond.2] at h
    rw [(markMetaBlks_flags _ _).of_ok h]
    rfl
  | noSb0 => exact absurd hs hstatus
  | sb0Detected =>
    rw [hs] at h
    exact hstage (detectSBsIfSB0_marked (by rw [hs]; decide)) h
  | sbsDetected =>
    rw [hs] at h
    exact hstage (detectBgDescsIfSBs_marked (by rw [hs]; decide)) h
  | bgDescsDetected =>
    rw [hs] at h
    exact hstage (detectBlkBmpIfBgDescs_marked (by rw [hs]; decide)) h
  | blkBitmapDetected =>
    rw [hs] at h
    exact hstage (detectInoBmpIfBlkBmp_marked (by rw [hs]; decide)) h
  | inoBitmapDetected =>
    rw [hs] at h
    exact hstage (detectInoTableIfInoBmp_marked (by rw [hs]; decide)) h
  | inodeTableDetected =>
    rw [hs] at h
    cases h
  | undefined code =>
    rw [hs] at h
    cases h

end Kept

/-- The same over the device. -/
theorem writeOne_keeps_sb0 {env : Env} {s s' : Ext2Sys SmrDev} {t : Ext2Sys FlagDisk} {buf : Block}
    (hst : SysRel ShowsFlags s t) (hstatus : s.metaCtr.status ≠ .noSb0)
    (hdiff : s.metaCtr.sb0.isCompatible (Ext2SuperBlock.ofBlock buf firstSuperBlockOffset) = false)
    (h : s.writeOne (smrLayer env) true buf sb0BlockNo = .ok s') :
    s'.metaCtr.sb0 = s.metaCtr.sb0 := by
  obtain ⟨t', ht', hrel⟩ :=
    ((smrLayer_flag_sim env).writeOne_refines true hst buf sb0BlockNo).ok_of_ok h
  rw [hst.metaCtr] at hstatus hdiff
  rw [Ext2Sys.writeOne, if_pos rfl] at ht'
  obtain ⟨t₁, ht₁, hstore⟩ := bind_eq_ok.mp ht'
  obtain ⟨_, -, hstore⟩ := bind_eq_ok.mp hstore
  obtain ⟨dev, -, hret⟩ := bind_eq_ok.mp hstore
  have hkeep := detectExt2Fs_keeps_sb0 hstatus hdiff ht₁
  rw [hrel.metaCtr, hst.metaCtr, ← Except.ok.inj hret]
  exact hkeep

/-- A super block of another layout is another super block. -/
theorem ne_of_not_isCompatible {old new : Ext2SuperBlock} (h : old.isCompatible new = false) :
    old ≠ new := by
  rintro rfl
  simp [Ext2SuperBlock.isCompatible] at h

/-- After the write of block 0 the detector follows the new file system: it has recorded its super
block, and its status and its vectors of super blocks and descriptor blocks are those that the same
write gives in status `NO_SB0`. -/
def Restarted (env : Env) (s s' : Ext2Sys SmrDev) (buf : Block) : Prop :=
  s'.metaCtr.sb0 = Ext2SuperBlock.ofBlock buf firstSuperBlockOffset ∧
    ∃ t, ({ s with metaCtr := s.metaCtr.setStatus .noSb0 } : Ext2Sys SmrDev).writeOne (smrLayer env)
        true buf sb0BlockNo = .ok t ∧ s'.metaCtr.status = t.metaCtr.status ∧
      ∀ idx ∈ [MetaVectIndex.sbIdx, .bgDescIdx, .tmpIdx], ∀ x,
        x ∈ s'.metaCtr.metaBlks idx ↔ x ∈ t.metaCtr.metaBlks idx

/-- **A reformat is never followed.**  In every state that a run reaches with a status other than
`NO_SB0`, no write of block 0 with a legal super block of another layout restarts the detection with
that super block. -/
theorem reformat_not_followed (env : Env) (haware : env.aware = true) (data : ℕ → Block)
    (ops : List HostOp) (outs : List (List Block)) (s : Ext2Sys SmrDev)
    (hrun : runModule env data ops = .ok (outs, s)) (hstatus : s.metaCtr.status ≠ .noSb0)
    (buf : Block) (_hlegal : (Ext2SuperBlock.ofBlock buf firstSuperBlockOffset).isLegal = true)
    (hdiff : s.metaCtr.sb0.isCompatible (Ext2SuperBlock.ofBlock buf firstSuperBlockOffset) =
      false) :
    ¬ ∃ s', s.writeOne (smrLayer env) env.aware buf sb0BlockNo = .ok s' ∧ Restarted env s s' buf := by
  rintro ⟨s', hwrite, hsb0, -⟩
  rw [haware] at hwrite
  obtain ⟨r, -, -, hrel⟩ := (runModule_flags env data ops).ok_of_ok hrun
  rw [writeOne_keeps_sb0 hrel hstatus hdiff hwrite] at hsb0
  exact ne_of_not_isCompatible hdiff hsb0

/-- The second write of block 0 comes when the detector waits for the descriptors. -/
theorem reformat_not_followed_waiting :
    ∃ outs s, runModule awareEnv (fun _ => 0) [.write 0 [smallSuperBlk 0]] = .ok (outs, s) ∧
      s.metaCtr.status = .sbsDetected ∧
      ¬ ∃ s', s.writeOne (smrLayer awareEnv) awareEnv.aware (smallSuperBlk 1) sb0BlockNo = .ok s' ∧
        Restarted awareEnv s s' (smallSuperBlk 1) := by
  obtain ⟨outs, s, hrun, hend⟩ := aware_run_ctr [.write 0 [smallSuperBlk 0]]
    (fun m => m.status = .sbsDetected ∧ m.sb0.isCompatible (Ext2SuperBlock.ofBlock
      (smallSuperBlk 1) firstSuperBlockOffset) = false) (by decide +kernel)
  obtain ⟨hstatus, hdiff⟩ := of_decide_eq_true hend
  refine ⟨outs, s, hrun, hstatus, ?_⟩
  exact reformat_not_followed awareEnv rfl _ _ outs s hrun (by rw [hstatus]; decide) _
    (by decide +kernel) hdiff

/-- **A reformat that is not followed.**  The file system has been detected, and block 0 is written
with another one: the old super block stays. -/
theorem reformat_missed :
    ∃ outs s, runModule awareEnv (fun _ => 0)
        [.write 0 [smallSuperBlk 0, smallDescBlk, fun _ => 0xFF, 0, 0], .write 9 [0]] =
          .ok (outs, s) ∧
      s.metaCtr.status = .ext2Detected ∧
      (Ext2SuperBlock.ofBlock (smallSuperBlk 1) firstSuperBlockOffset).isLegal = true ∧
      s.metaCtr.sb0.isCompatible (Ext2SuperBlock.ofBlock (smallSuperBlk 1) firstSuperBlockOffset) =
        false ∧
      ∃ s', s.writeOne (smrLayer awareEnv) true (smallSuperBlk 1) sb0BlockNo = .ok s' ∧
        ¬ Restarted awareEnv s s' (smallSuperBlk 1) := by
  obtain ⟨outs, s', hrun', -⟩ := aware_run_of_array
    ([.write 0 [smallSuperBlk 0, smallDescBlk, fun _ => 0xFF, 0, 0], .write 9 [0]] ++
      [.write sb0BlockNo [smallSuperBlk 1]]) (by decide +kernel)
  obtain ⟨outs₁, s, hrun, hwrite⟩ := runOps_write_ok hrun'
  obtain ⟨outs₂, s₂, hrun₂, hend⟩ := aware_run_ctr
    [.write 0 [smallSuperBlk 0, smallDescBlk, fun _ => 0xFF, 0, 0], .write 9 [0]]
    (fun m => m.status = .ext2Detected ∧ m.sb0.isCompatible (Ext2SuperBlock.ofBlock
      (smallSuperBlk 1) firstSuperBlockOffset) = false) (by decide +kernel)
  obtain ⟨-, rfl⟩ := Prod.mk.inj (Except.ok.inj (hrun₂.symm.trans hrun))
  obtain ⟨hstatus, hdiff⟩ := of_decide_eq_true hend
  refine ⟨outs₂, s₂, hrun₂, hstatus, by decide +kernel, hdiff, s', hwrite, fun hre => ?_⟩
  obtain ⟨r, -, -, hrel⟩ := (runModule_flags awareEnv _ _).ok_of_ok hrun₂
  have hkeep := writeOne_keeps_sb0 hrel (by rw [hstatus]; decide) hdiff hwrite
  exact ne_of_not_isCompatible hdiff (hkeep.symm.trans hre.1)

end MemSmr
