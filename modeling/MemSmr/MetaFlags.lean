import MemSmr.FlagDisk
import MemSmr.DetectedLayout

/-!
# The meta flags are exact

* `lastClassFlag`: the flag that the recorded vectors give to a block.
* `FlagsExact`: the invariant.  The flags are those of the vectors once the detection has gone
  through, and zero at all other times.
* `meta_flags_exact`: it holds in every state that a run reaches.
-/

namespace MemSmr

open Outcome Ext2MetaCtr

/-- The flag of the last class, in the order of `idx_2_flag`, whose vector contains block `b`, and
0 if there is none. -/
def lastClassFlag (m : Ext2MetaCtr) (b : ℕ) : ℕ :=
  ((idx2Flag.filter fun entry => (m.metaBlks entry.1).isExisting b).getLast?.map Prod.snd).getD 0

/-- A loop that overwrites leaves what the last entry has written. -/
theorem foldl_overwrite {α β : Type} (p : α → Bool) (g : α → β) (l : List α) (old : β) :
    l.foldl (fun b a => if p a then g a else b) old = ((l.filter p).getLast?.map g).getD old := by
  induction l generalizing old with
  | nil => rfl
  | cons a l ih =>
    rw [List.foldl_cons, ih]
    cases hp : p a with
    | true =>
      rw [List.filter_cons_of_pos hp, List.getLast?_cons]
      cases (l.filter p).getLast? with
      | none => rfl
      | some c => rfl
    | false => rw [List.filter_cons_of_neg (by rw [hp]; exact Bool.false_ne_true), if_neg
        Bool.false_ne_true]

theorem markedFlag_set (m : Ext2MetaCtr) (b : ℕ) :
    markedFlag m .setMetaFlag b 0 = lastClassFlag m b := by
  rw [lastClassFlag, ← foldl_overwrite]
  rfl

/-- What has been marked is unmarked, as long as the vectors are the same. -/
theorem markedFlag_clean (m : Ext2MetaCtr) (b : ℕ) :
    markedFlag m .cleanMetaFlag b (lastClassFlag m b) = 0 := by
  have hfold := foldl_overwrite (fun entry : MetaVectIndex × ℕ =>
    (m.metaBlks entry.1).isExisting b) (fun _ => 0) idx2Flag (lastClassFlag m b)
  refine hfold.trans ?_
  rw [lastClassFlag]
  cases (idx2Flag.filter fun entry => (m.metaBlks entry.1).isExisting b).getLast? with
  | none => rfl
  | some entry => rfl

/-- The meta flags are those that the vectors give, once the detection has gone through. -/
def FlagsExact (s : Ext2Sys FlagDisk) : Prop :=
  ∀ b, s.dev.flags b = if s.metaCtr.status = .ext2Detected then lastClassFlag s.metaCtr b else 0

namespace FlagsExact

variable {s s' : Ext2Sys FlagDisk}

/-- Outside `EXT2_DETECTED` no flag is set. -/
theorem zero (h : FlagsExact s) (hs : s.metaCtr.status ≠ .ext2Detected) (b : ℕ) :
    s.dev.flags b = 0 := by rw [h b, if_neg hs]

/-- After a stage. -/
theorem of_marked (h : Marked s s') (hzero : ∀ b, s.dev.flags b = 0) : FlagsExact s' := by
  intro b
  split_ifs with hs
  · rw [h.set hs, hzero, markedFlag_set]
  · rw [h.keep hs, hzero]

/-- The flags do not depend on the contents. -/
theorem congr (h : FlagsExact s) (hctr : s'.metaCtr = s.metaCtr)
    (hflags : s'.dev.flags = s.dev.flags) : FlagsExact s' := by
  intro b
  rw [hctr, hflags]
  exact h b

theorem recheckSB0 (h : FlagsExact s) (hs : s.metaCtr.status = .ext2Detected) (buf : Block) :
    Meets (fun _ => True) FlagsExact (s.recheckSB0 flagLayer buf) := by
  have hflags : ∀ b, s.dev.flags b = lastClassFlag s.metaCtr b := fun b => by rw [h b, if_pos hs]
  rw [Ext2Sys.recheckSB0]
  dsimp only
  split_ifs
  · refine meets_ok.mpr fun b => ?_
    rw [if_pos hs]
    exact hflags b
  · refine ((markMetaBlks_flags _ _).weaken fun _ _ => trivial).mono ?_
    rintro - rfl b
    refine Eq.trans ?_ (if_neg fun h => MetaStatus.noConfusion h).symm
    dsimp only
    rw [hflags b]
    exact markedFlag_clean _ b

theorem detectSB0IfNoSB0 (h : FlagsExact s) (hs : s.metaCtr.status ≠ .ext2Detected) (buf : Block)
    (blkNo : ℕ) : Meets (fun _ => True) FlagsExact (s.detectSB0IfNoSB0 flagLayer buf blkNo) := by
  rw [Ext2Sys.detectSB0IfNoSB0]
  dsimp only
  split_ifs with hcond
  · obtain ⟨m, hm, -, hrec⟩ := recordSuperBlks_start s.metaCtr
      (Ext2SuperBlock.ofBlock buf firstSuperBlockOffset)
    rw [hm]
    refine (detectSBsIfSB0_marked (s := { s with metaCtr := m }) fun h' => ?_).mono
      fun s' hs' => of_marked hs' fun b => h.zero hs b
    rw [hrec.only.status] at h'
    cases h'
  · exact h

/-- **One call of the detector** keeps the flags exact. -/
theorem detectExt2Fs (h : FlagsExact s) (buf : Block) (blkNo : ℕ) :
    Meets (fun _ => True) FlagsExact (s.detectExt2Fs flagLayer buf blkNo) := by
  have hstage : ∀ {f : Except Fault (Ext2Sys FlagDisk)}, s.metaCtr.status ≠ .ext2Detected →
      Meets (fun _ => True) (Marked s) f → Meets (fun _ => True) FlagsExact f := fun hs hf =>
    hf.mono fun s' hs' => of_marked hs' fun b => h.zero hs b
  rw [Ext2Sys.detectExt2Fs]
  cases hs : s.metaCtr.status with
  | ext2Detected =>
    dsimp only
    split_ifs
    · exact h.recheckSB0 hs buf
    · exact h
  | noSb0 => exact h.detectSB0IfNoSB0 (by rw [hs]; decide) buf blkNo
  | sb0Detected =>
    have hne : s.metaCtr.status ≠ .ext2Detected := by rw [hs]; decide
    exact hstage hne (detectSBsIfSB0_marked hne)
  | sbsDetected =>
    have hne : s.metaCtr.status ≠ .ext2Detected := by rw [hs]; decide
    exact hstage hne (detectBgDescsIfSBs_marked hne)
  | bgDescsDetected =>
    have hne : s.metaCtr.status ≠ .ext2Detected := by rw [hs]; decide
    exact hstage hne (detectBlkBmpIfBgDescs_marked hne)
  | blkBitmapDetected =>
    have hne : s.metaCtr.status ≠ .ext2Detected := by rw [hs]; decide
    exact hstage hne (detectInoBmpIfBlkBmp_marked hne)
  | inoBitmapDetected =>
    have hne : s.metaCtr.status ≠ .ext2Detected := by rw [hs]; decide
    exact hstage hne (detectInoTableIfInoBmp_marked hne)
  | inodeTableDetected => exact trivial
  | undefined code => exact trivial

/-- One write of a block. -/
theorem writeOne (aware : Bool) (h : FlagsExact s) (buf : Block) (blkNo : ℕ) :
    Meets (fun _ => True) FlagsExact (s.writeOne flagLayer aware buf blkNo) := by
  have hstore : ∀ s' : Ext2Sys FlagDisk, FlagsExact s' → Meets (fun _ => True) FlagsExact
      (do checkIndex blkNo
          let dev ← flagLayer.storeBlock s'.dev blkNo buf
          return { s' with dev := dev }) := fun s' hs' =>
    ((checkIndex_spec blkNo).weaken fun _ _ => trivial).bind fun _ _ => hs'.congr rfl rfl
  rw [Ext2Sys.writeOne]
  cases aware with
  | false => exact hstore s h
  | true => exact (h.detectExt2Fs buf blkNo).bind hstore

end FlagsExact

/-- **The meta flags are exact.**  In every state that a run reaches, a block has the flag of the
last class whose vector contains it if the status is `EXT2_DETECTED`, and no flag if not. -/
theorem meta_flags_exact (env : Env) (data : ℕ → Block) (ops : List HostOp)
    (outs : List (List Block)) (s : Ext2Sys SmrDev)
    (hrun : runModule env data ops = .ok (outs, s)) :
    ∀ b < totalSmrBlocksCnt, (s.dev.smr.mappingTable b).metaFlag =
      if s.metaCtr.status = .ext2Detected then lastClassFlag s.metaCtr b else 0 := by
  intro b _
  obtain ⟨r, hr, -, hrel⟩ := (runModule_flags env data ops).ok_of_ok hrun
  have hexact : FlagsExact r.2 := (meets_runOps (P := FlagsExact)
    (fun _ buf blkNo h => h.writeOne env.aware buf blkNo) (fun _ _ _ _ h => h)
    (fun _ => trivial) (fun _ => (if_neg fun h => MetaStatus.noConfusion h).symm) ops).of_ok hr
  rw [hrel.dev.flags, hexact b, hrel.metaCtr]

/-- A file system is detected, and its block bitmap has the flag of a block bitmap. -/
theorem meta_flags_exact_small :
    ∃ outs s, runModule awareEnv (fun _ => 0)
        [.write 0 [smallSuperBlk 0, smallDescBlk, fun _ => 0xFF, 0, 0], .write 9 [0]] =
          .ok (outs, s) ∧
      (s.dev.smr.mappingTable 2).metaFlag = metaBlockBitmap ∧
      ∀ b < totalSmrBlocksCnt, (s.dev.smr.mappingTable b).metaFlag =
        if s.metaCtr.status = .ext2Detected then lastClassFlag s.metaCtr b else 0 := by
  obtain ⟨outs, s, hrun, hend⟩ := aware_run_ctr
    [.write 0 [smallSuperBlk 0, smallDescBlk, fun _ => 0xFF, 0, 0], .write 9 [0]]
    (fun m => m.status = .ext2Detected ∧ lastClassFlag m 2 = metaBlockBitmap) (by decide +kernel)
  obtain ⟨hstatus, hflag⟩ := of_decide_eq_true hend
  have hflags := meta_flags_exact awareEnv _ _ outs s hrun
  refine ⟨outs, s, hrun, ?_, hflags⟩
  rw [hflags 2 (by rw [totalSmrBlocksCnt_eq]; decide), hflag, if_pos hstatus]

end MemSmr
