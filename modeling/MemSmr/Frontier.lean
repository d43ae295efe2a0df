import MemSmr.Wear

/-!
# The frontier check

`get_free_smr_block` looks at the slot at `cur_paddr` before it hands it out, without a test that
`cur_paddr` is inside the table.

* `appendedBlks`: the blocks that a run appends.
* `frontierAt_run`: where they have brought the frontier.
* `frontier_checks_in_table_iff`: the check stays inside the table in a run exactly if its appends fit
  on the device.
* `frontier_check_past_end`: a run in which they do not.
-/

namespace MemSmr

open Outcome Amortized

/-- The blocks that the writes of a run append: those that are written for the first time, and those
that are swapped out. -/
def appendedBlks (env : Env) (w : List (WriteStep SmrDev)) : ℕ := firstBlks env w + swappedBlks env w

/-- The detector does not append, and no free slot is taken. -/
theorem SmrDev.OnlyForgets.sameFrontier {d d' : SmrDev} (h : d.OnlyForgets d') (hinv : DevInv d) :
    d.SameFrontier d' := by
  refine ⟨h.cur, fun p _ hfree => h.free_slot (fun ⟨l, hin, hun⟩ => ?_) hfree, fun e _ => by rw [h.log]⟩
  rcases h.entry l with ⟨hflag, -⟩ | ⟨hl, -⟩
  · exact hun.2 (hflag.trans hin.1)
  · have hrev := (hinv.stl.fwd l hl hin.1).2
    rw [hin.2] at hrev
    rw [hrev] at hfree
    cases hfree

theorem quiet_frontier (env : Env) : Quiet env SmrDev.SameFrontier where
  refl := .refl
  trans _ _ _ h h' := h.trans h'
  read d buf l n _ h := (SmrDev.onlyForgets_readSmrBlocks env d buf l n).sameFrontier h
  detect _ _ _ _ _ h hrun := (SmrDev.onlyForgets_detectExt2Fs hrun).sameFrontier h

/-- **Where the frontier is after a run.** -/
theorem frontierAt_run {env : Env} {data : ℕ → Block} {ops : List HostOp} {outs : List (List Block)}
    {s : Ext2Sys SmrDev} (hrun : runModule env data ops = .ok (outs, s)) :
    s.dev.FrontierAt (appendedBlks env
      (trace (smrLayer env) env.aware (initSmrDisk (freshModule data)) ops)) := by
  obtain ⟨hleads, hstores⟩ := leads_trace (quiet_frontier env) (Reached.init data).betweenCalls hrun
  have hcount := hleads.count (fun k d => d.FrontierAt k)
    (fun st => (st.storing env).storeFirst st.blkNo + (st.storing env).storeSwapped st.blkNo)
    (fun _ _ _ hsame h => h.congr hsame)
    (fun st hst _ hk =>
      hk.storeBlock (hstores st hst).inv (hstores st hst).lt (hstores st hst).store)
    (SmrDev.frontierAt_initTables rfl rfl)
  rw [Nat.zero_add, List.sum_map_add] at hcount
  exact hcount

/-- **When the frontier check stays inside the table.**  In a run that ends, exactly if the blocks that
it has appended (the first write of a block is an append, and so is each block that is swapped out) are
at most as many as the slots.  A run that stops because a slot past the device is handed out stops at
the slot right behind the table, after a check has read a word that says free there. -/
theorem frontier_checks_in_table_iff (env : Env) (data : ℕ → Block) (ops : List HostOp) :
    (∀ outs s, runModule env data ops = .ok (outs, s) →
      ((∀ i, Event.frontierCheck i ∈ s.dev.log → i < totalSmrBlocksCnt) ↔
        appendedBlks env (trace (smrLayer env) env.aware (initSmrDisk (freshModule data)) ops) ≤
          totalSmrBlocksCnt)) ∧
    ∀ p, runModule env data ops = .error (.pastDevice p) →
      p = totalSmrBlocksCnt ∧ ∃ s, env.pastEnd s = .freePhyBlock := by
  constructor
  · exact fun outs s hrun => (frontierAt_run hrun).checks_iff
  · intro p hres
    have hrefines := runModule_refines env data ops
    have hfault := meets_runOps_array env.aware inPhase_freshArray ops
    rw [hres] at hrefines
    have hpast : PastEndFault env (.pastDevice p) := by
      cases harr : runOps arrayLayer env.aware freshArray ops with
      | ok r =>
        rw [harr] at hrefines
        exact hrefines
      | error e =>
        rw [harr] at hrefines hfault
        obtain ⟨i, rfl⟩ := hfault
        rcases hrefines with heq | hpast
        · cases heq
        · exact hpast
    exact ⟨Fault.pastDevice.inj hpast.1, hpast.2⟩

/-- **A run whose frontier check looks past the table.**  Every block is written once, the first
`BLOCKS_OF_HDD_BUF` of them are updated, and so is the next one: the swap that makes room for it finds
`cur_paddr` at the end of the device.  The word behind the table is 0 then. -/
theorem frontier_check_past_end :
    ∃ outs s, runModule plainEnv (fun _ => 0) overwriteOps = .ok (outs, s) ∧
      ∃ i, Event.frontierCheck i ∈ s.dev.log ∧ ¬ i < totalSmrBlocksCnt := by
  obtain ⟨outs, s, hrun, hwrapped⟩ := overwrite_run
  exact ⟨outs, s, hrun, totalSmrBlocksCnt, hwrapped.check, Nat.lt_irrefl _⟩

end MemSmr
