import MemSmr.AppendCount
import MemSmr.ReadYourWrites

/-!
# A run that fills the device

A run in which everything happens that the translation layer can do: every block is written once, the
first `BLOCKS_OF_HDD_BUF` of them are updated, and one update more finds no free buffer.  It swaps, and
the first append of the swap finds no free slot.

* `Filled d k`: the first `k` blocks have been written once.
* `Updated d j`: all have been, and the first `j` of them once more.
* `updated_run`, `overwrite_run`: the runs.  `Wrapped` says that the frontier was checked past the last
  slot and that there was a collection.
-/

namespace MemSmr

open Outcome

/-- The detector is off, and the word behind the reverse table is 0. -/
def plainEnv : Env := ⟨false, false, fun _ => .other 0⟩

theorem plainEnv_pastEndNotFree : plainEnv.PastEndNotFree := fun _ h => by cases h

theorem blocksOfHddBuf_lt : blocksOfHddBuf < totalSmrBlocksCnt := by
  rw [blocksOfHddBuf_eq, totalSmrBlocksCnt_eq]
  decide

namespace SmrDev

/-! ## Writing every block once -/

/-- The first `k` blocks have been written once, in order. -/
structure Filled (d : SmrDev) (k : ℕ) : Prop where
  inv : DevInv d
  frontier : d.FrontierAt k
  written : ∀ l < k, (d.smr.mappingTable l).mappingFlag = .inSmrDisk ∧
    (d.smr.mappingTable l).paddr = l
  unwritten : ∀ l < totalSmrBlocksCnt, k ≤ l →
    (d.smr.mappingTable l).mappingFlag = .invalidMapping
  bufs : ∀ q, q ∈ d.buf.freeHddBufs ↔ q < blocksOfHddBuf

theorem filled_initTables {d : SmrDev} (h : d.smr.curPaddr = 0) (hlog : d.log = []) :
    d.initTables.Filled 0 := by
  have hinv := devInv_initTables h hlog
  have hfrontier := frontierAt_initTables h hlog
  obtain ⟨table, bands, bufs, -, -, hbufs, heq⟩ := initTables_eq d
  rw [heq] at hinv hfrontier ⊢
  refine ⟨hinv, hfrontier, fun l hl => absurd hl (Nat.not_lt_zero l), fun l hl _ => ?_, hbufs⟩
  dsimp only
  rw [if_pos hl]

theorem Filled.storeBlock {d : SmrDev} {k : ℕ} (h : d.Filled k) (hk : k < totalSmrBlocksCnt)
    (env : Env) (blk : Block) : ∃ d', d.storeBlock env k blk = .ok d' ∧ d'.Filled (k + 1) := by
  have hflag := h.unwritten k hk (Nat.le_refl k)
  have hunwrapped := h.frontier.unwrapped hk.le
  have hcur : d.smr.curPaddr < totalSmrBlocksCnt := by
    rw [hunwrapped.cur]
    exact hk
  obtain ⟨hsmr, hbuf, -⟩ := checkFrontier_of_free env hcur
    (hunwrapped.free _ hcur hunwrapped.cur.ge)
  have hb : d.inHddBuf k = false := inHddBuf_eq_false (by rw [hflag]; decide)
  have hs : d.inSmrDisk k = false := inSmrDisk_eq_false (by rw [hflag]; decide)
  have hstore : d.storeBlock env k blk = .ok ((d.getFreeSmrBlock env).2.placeBlock blk k
      (d.checkFrontier env).smr.curPaddr) := by
    rw [SmrDev.storeBlock, if_neg (by rw [hb]; decide), if_neg (by rw [hs]; decide),
      appendSmrBlocks_one, hsmr, if_pos hcur]
  have hinv := ((storeBlock_spec env blk h.inv hk).of_ok hstore).inv
  have hfrontier := h.frontier.storeBlock h.inv hk hstore
  obtain ⟨hfirst, hswapped⟩ := storeCounts_first hb hs
  rw [hfirst, hswapped] at hfrontier
  refine ⟨_, hstore, hinv, hfrontier, fun l hl => ?_, fun l hl hkl => ?_, fun q => ?_⟩
  · change (Function.update (d.checkFrontier env).smr.mappingTable k _ l).mappingFlag = _ ∧
      (Function.update (d.checkFrontier env).smr.mappingTable k _ l).paddr = l
    by_cases hlk : l = k
    · rw [hlk, Function.update_self, hsmr]
      exact ⟨rfl, hunwrapped.cur⟩
    · rw [Function.update_of_ne hlk, hsmr]
      exact h.written l (by omega)
  · change (Function.update (d.checkFrontier env).smr.mappingTable k _ l).mappingFlag = _
    rw [Function.update_of_ne (by omega), hsmr]
    exact h.unwritten l hl (by omega)
  · change q ∈ (d.checkFrontier env).buf.freeHddBufs ↔ _
    rw [hbuf, h.bufs]

/-! ## Updating as many blocks as there are buffers -/

/-- Every block has been written, and the first `j` of them once more. -/
structure Updated (d : SmrDev) (j : ℕ) : Prop where
  inv : DevInv d
  frontier : d.FrontierAt totalSmrBlocksCnt
  written : ∀ l < totalSmrBlocksCnt, j ≤ l → (d.smr.mappingTable l).mappingFlag = .inSmrDisk ∧
    (d.smr.mappingTable l).paddr = l
  bufs : ∀ q, q ∈ d.buf.freeHddBufs ↔ j ≤ q ∧ q < blocksOfHddBuf

theorem Filled.updated {d : SmrDev} (h : d.Filled totalSmrBlocksCnt) : d.Updated 0 :=
  ⟨h.inv, h.frontier, fun l hl _ => h.written l hl, fun q => by rw [h.bufs]; omega⟩

section Updated

variable {d d' : SmrDev} {j : ℕ}

theorem Updated.cur (h : d.Updated j) : d.smr.curPaddr = totalSmrBlocksCnt :=
  (h.frontier.unwrapped (Nat.le_refl _)).cur

/-- No slot is free. -/
theorem Updated.full (h : d.Updated j) :
    ∀ p < totalSmrBlocksCnt, (d.smr.smrReverseTable p).phyStatus ≠ .freePhyBlock :=
  h.inv.stl.none_free fun hlt => absurd hlt (by rw [h.cur]; exact Nat.lt_irrefl _)

/-- The free buffer with the least number is taken. -/
theorem Updated.get_zero (h : d.Updated j) (hj : j < blocksOfHddBuf) :
    0 < d.buf.freeHddBufs.size ∧ d.buf.freeHddBufs.get 0 = j := by
  obtain ⟨pos, hpos, hget⟩ := SortedVector.exists_get ((h.bufs j).mpr ⟨Nat.le_refl j, hj⟩)
  have hsize : 0 < d.buf.freeHddBufs.size := by omega
  refine ⟨hsize, ?_⟩
  have hle := ((h.bufs _).mp (SortedVector.get_mem hsize)).1
  rcases Nat.eq_zero_or_pos pos with rfl | hp
  · exact hget
  · have hlt := SortedVector.get_lt_get hp hpos
    omega

theorem Updated.storeBlock (h : d.Updated j) (hj : j < blocksOfHddBuf) (env : Env) (blk : Block) :
    ∃ d', d.storeBlock env j blk = .ok d' ∧ d'.Updated (j + 1) := by
  have hjN := hj.trans blocksOfHddBuf_lt
  have hflag := (h.written j hjN (Nat.le_refl j)).1
  have hb : d.inHddBuf j = false := inHddBuf_eq_false (by rw [hflag]; decide)
  have hs : d.inSmrDisk j = true := inSmrDisk_iff.mpr hflag
  obtain ⟨hsize, hget⟩ := h.get_zero hj
  have hroom : d.isHddBufFull = false := decide_eq_false (by omega)
  -- The block leaves the SMR area, and then it takes the free buffer.
  have hbuf := invalidate_buf hflag
  have hout := inHddBuf_invalidate hflag
  have hroom' := (isHddBufFull_invalidate hflag).trans hroom
  have hstore : d.storeBlock env j blk = .ok ((d.invalidateMappingEntry j).getOneFreeBuf.2.fillHddBuf
      env j blk (d.invalidateMappingEntry j).getOneFreeBuf.1) := by
    rw [SmrDev.storeBlock, if_neg (by rw [hb]; decide), if_pos hs, writeBlockIntoHddBuf,
      chooseHddBuf, if_neg (by rw [hout]; decide), if_neg (by rw [hroom']; decide)]
    rfl
  have hinv := ((storeBlock_spec env blk h.inv hjN).of_ok hstore).inv
  have hfrontier := h.frontier.storeBlock h.inv hjN hstore
  obtain ⟨hfirst, hswapped⟩ := storeCounts_update hb hs
  rw [hroom, if_neg Bool.false_ne_true] at hswapped
  rw [hfirst, hswapped, Nat.add_zero] at hfrontier
  refine ⟨_, hstore, hinv, hfrontier, fun l hl hlt => ?_, fun q => ?_⟩
  · rw [← hbuf] at hsize
    have hne : l ≠ j := by omega
    rw [getOneFreeBuf_eq hsize, invalidateMappingEntry_eq hflag]
    change (Function.update (Function.update d.smr.mappingTable j _) j _ l).mappingFlag = _ ∧
      (Function.update (Function.update d.smr.mappingTable j _) j _ l).paddr = l
    rw [Function.update_of_ne hne, Function.update_of_ne hne]
    exact h.written l hl (by omega)
  · rw [← hbuf] at hsize hget
    rw [getOneFreeBuf_eq hsize, hget]
    change q ∈ (d.invalidateMappingEntry j).buf.freeHddBufs.remove j ↔ _
    rw [SortedVector.mem_remove, hbuf, h.bufs]
    omega

/-! ## The swap -/

/-- Every buffer is in use. -/
theorem Updated.size_eq_zero (h : d.Updated blocksOfHddBuf) : d.buf.freeHddBufs.size = 0 :=
  SortedVector.size_eq_zero_iff.mpr fun q hq => by
    have := (h.bufs q).mp hq
    omega

/-- One update more looks past the table, and then it collects. -/
theorem Updated.wrapped {env : Env} {blk : Block} (h : d.Updated blocksOfHddBuf)
    (hok : d.storeBlock env blocksOfHddBuf blk = .ok d') : d'.Wrapped := by
  have hflag := (h.written _ blocksOfHddBuf_lt (Nat.le_refl _)).1
  have hswaps : d.Swaps blocksOfHddBuf :=
    ⟨inHddBuf_eq_false (by rw [hflag]; decide), inSmrDisk_iff.mpr hflag,
      decide_eq_true h.size_eq_zero⟩
  have hfrontier := h.frontier.storeBlock h.inv blocksOfHddBuf_lt hok
  rw [storeSwapped, if_pos hswaps, swapOutCnt_eq] at hfrontier
  exact hfrontier.wrapped (by omega)

end Updated

/-- A read leaves the log alone. -/
theorem readSmrBlocks_log (env : Env) (d : SmrDev) (buf : ℕ → Block) (l n : ℕ) :
    (d.readSmrBlocks env buf l n).2.log = d.log := by
  refine readSmrBlocks_keeps (P := fun d' => d'.log = d.log) (fun _ _ _ _ hd => ?_) (fun _ _ hd => ?_)
    buf rfl
  · exact hd
  · exact hd

end SmrDev

/-! ## The runs -/

/-- A sequence of stores, with the detector off. -/
theorem writeSmrBlocks_unaware (env : Env) (buf : Block) {P : ℕ → SmrDev → Prop} {n : ℕ}
    (hstep : ∀ k < n, ∀ d, P k d → ∃ d', d.storeBlock env k buf = .ok d' ∧ P (k + 1) d')
    (hn : n ≤ totalSmrBlocksCnt) {m k : ℕ} (hk : k + m = n) {s : Ext2Sys SmrDev}
    (h : P k s.dev) :
    ∃ s', s.writeSmrBlocks (smrLayer env) false (List.replicate m buf) k = .ok s' ∧ P n s'.dev := by
  induction m generalizing k s with
  | zero =>
    obtain rfl : k = n := hk
    exact ⟨s, rfl, h⟩
  | succ m ih =>
    obtain ⟨d', hd', h'⟩ := hstep k (by omega) s.dev h
    obtain ⟨s', hs', h''⟩ := ih (k := k + 1) (by omega) (s := { s with dev := d' }) h'
    refine ⟨s', ?_, h''⟩
    rw [List.replicate_succ, Ext2Sys.writeSmrBlocks]
    exact bind_eq_ok.mpr ⟨_, writeOne_unaware_ok.mpr ⟨by omega, d', hd', rfl⟩, hs'⟩

/-- Every block is written. -/
theorem write_filled (env : Env) (buf : Block) {s : Ext2Sys SmrDev} (h : s.dev.Filled 0) :
    ∃ s', s.writeSmrBlocks (smrLayer env) false (List.replicate totalSmrBlocksCnt buf) 0 = .ok s' ∧
      s'.dev.Updated 0 := by
  obtain ⟨s', hs', h'⟩ := writeSmrBlocks_unaware env buf
    (fun _ hk _ h => SmrDev.Filled.storeBlock h hk env buf) (Nat.le_refl _) (Nat.zero_add _) h
  exact ⟨s', hs', h'.updated⟩

/-- The first `j` blocks are updated. -/
theorem write_updated (env : Env) (buf : Block) {j : ℕ} (hj : j ≤ blocksOfHddBuf)
    {s : Ext2Sys SmrDev} (h : s.dev.Updated 0) :
    ∃ s', s.writeSmrBlocks (smrLayer env) false (List.replicate j buf) 0 = .ok s' ∧
      s'.dev.Updated j :=
  writeSmrBlocks_unaware env buf
    (fun _ hk _ h => SmrDev.Updated.storeBlock h (Nat.lt_of_lt_of_le hk hj) env buf)
    (hj.trans blocksOfHddBuf_lt.le) (Nat.zero_add _) h

/-- One block more is updated. -/
theorem write_wrapped {env : Env} (hpast : env.PastEndNotFree) (buf : Block) {s : Ext2Sys SmrDev}
    (h : s.dev.Updated blocksOfHddBuf) :
    ∃ s', s.writeSmrBlocks (smrLayer env) false [buf] blocksOfHddBuf = .ok s' ∧ s'.dev.Wrapped := by
  obtain ⟨d', hd', -⟩ := (SmrDev.storeBlock_spec env buf h.inv blocksOfHddBuf_lt).exists_ok
    fun e _ => not_pastEndFault hpast e
  refine ⟨{ s with dev := d' }, ?_, h.wrapped hd'⟩
  rw [Ext2Sys.writeSmrBlocks]
  exact bind_eq_ok.mpr ⟨_, writeOne_unaware_ok.mpr ⟨blocksOfHddBuf_lt, d', hd', rfl⟩, rfl⟩

/-- That block is read. -/
theorem read_wrapped (env : Env) (buf : Block) {s : Ext2Sys SmrDev} (h : s.dev.Wrapped) :
    ∃ out s', s.readSmrBlocks (smrLayer env) [buf] blocksOfHddBuf = .ok (out, s') ∧
      s'.dev.Wrapped := by
  rw [Ext2Sys.readSmrBlocks, if_pos (show blocksOfHddBuf + [buf].length ≤ totalSmrBlocksCnt from
    blocksOfHddBuf_lt)]
  refine ⟨_, _, rfl, h.mono fun e he => ?_⟩
  change e ∈ (s.dev.readSmrBlocks env _ _ _).2.log
  rwa [SmrDev.readSmrBlocks_log]

/-- Every block is written once, and the first `j` of them once more. -/
def updatedOps (j : ℕ) : List HostOp :=
  [.write 0 (List.replicate totalSmrBlocksCnt 0), .write 0 (List.replicate j 0)]

theorem filled_init (data : ℕ → Block) : (initSmrDisk (freshModule data)).dev.Filled 0 :=
  SmrDev.filled_initTables rfl rfl

theorem updated_run {j : ℕ} (hj : j ≤ blocksOfHddBuf) : ∃ outs s,
    runModule plainEnv (fun _ => 0) (updatedOps j) = .ok (outs, s) ∧ s.dev.Updated j := by
  obtain ⟨s₁, hs₁, h₁⟩ := write_filled plainEnv 0 (filled_init fun _ => 0)
  obtain ⟨s₂, hs₂, h₂⟩ := write_updated plainEnv 0 hj h₁
  exact ⟨_, s₂, runOps_cons_ok.mpr ⟨_, s₁, _, runOp_write_ok.mpr ⟨hs₁, rfl⟩,
    runOps_cons_ok.mpr ⟨_, s₂, _, runOp_write_ok.mpr ⟨hs₂, rfl⟩, rfl, rfl⟩, rfl⟩, h₂⟩

/-- All buffers are filled, and one block more is updated and read. -/
def overwriteOps : List HostOp :=
  updatedOps blocksOfHddBuf ++ [.write blocksOfHddBuf [fun _ => 1], .read blocksOfHddBuf [0]]

/-- **A run with a swap and a collection.** -/
theorem overwrite_run : ∃ outs s,
    runModule plainEnv (fun _ => 0) overwriteOps = .ok (outs, s) ∧ s.dev.Wrapped := by
  obtain ⟨s₁, hs₁, h₁⟩ := write_filled plainEnv 0 (filled_init fun _ => 0)
  obtain ⟨s₂, hs₂, h₂⟩ := write_updated plainEnv 0 (Nat.le_refl _) h₁
  obtain ⟨s₃, hs₃, h₃⟩ := write_wrapped plainEnv_pastEndNotFree (fun _ => 1) h₂
  obtain ⟨out, s₄, hs₄, h₄⟩ := read_wrapped plainEnv 0 h₃
  exact ⟨_, s₄, runOps_cons_ok.mpr ⟨_, s₁, _, runOp_write_ok.mpr ⟨hs₁, rfl⟩,
    runOps_cons_ok.mpr ⟨_, s₂, _, runOp_write_ok.mpr ⟨hs₂, rfl⟩,
      runOps_cons_ok.mpr ⟨_, s₃, _, runOp_write_ok.mpr ⟨hs₃, rfl⟩,
        runOps_cons_ok.mpr ⟨out, s₄, _, hs₄, rfl, rfl⟩, rfl⟩, rfl⟩, rfl⟩, h₄⟩

end MemSmr
