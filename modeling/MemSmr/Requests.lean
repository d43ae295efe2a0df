import MemSmr.Trace
import MemSmr.Tables

/-!
# Reads, and the requests of the host

* `reads_determined_iff`: what a read leaves in the buffer depends on the device alone just when
  every block of the range has a mapping.
* `checkBlockSize`, `doDataTransfer`, `doRequest`: the block driver.
* `Ended.CarriedOut`: a request segment has been ended as it should be.
* `requests_carried_out_iff`: when that is so.
* `Reached`, `KeptBy`: the states of the module, and the invariant rule for them.
-/

namespace MemSmr

open Outcome SmrDev

/-! ## What a read reveals -/

/-- **Reads of mapped ranges reveal only device state**, and no other reads do.  Two reads of the same
range leave the same in different buffers just when every block of the range has a mapping. -/
theorem reads_determined_iff (env : Env) (data : ℕ → Block) (ops : List HostOp)
    (outs : List (List Block)) (s : Ext2Sys SmrDev) (hrun : runModule env data ops = .ok (outs, s))
    (blkNo num : ℕ) (hrange : blkNo + num ≤ totalSmrBlocksCnt) :
    (∀ buf buf' : ℕ → Block, ∀ i < num, (s.dev.readSmrBlocks env buf blkNo num).1 i =
        (s.dev.readSmrBlocks env buf' blkNo num).1 i) ↔
      ∀ i < num, s.dev.hasMapping (blkNo + i) = true := by
  have hread : ∀ buf : ℕ → Block, ∀ i < num, (s.dev.readSmrBlocks env buf blkNo num).1 i =
      (s.dev.contents (blkNo + i)).getD (buf i) := fun buf i hi => by
    rw [(readSmrBlocks_spec env buf (devInv_of_runModule hrun) hrange).2.2, ArrayDisk.readOver,
      if_pos hi]
  constructor
  · intro hsame i hi
    have h := hsame (fun _ => 0) (fun _ => 1) i hi
    rw [hread _ i hi, hread _ i hi] at h
    rw [hasMapping_eq]
    cases hblk : s.dev.contents (blkNo + i) with
    | some b => rfl
    | none =>
      rw [hblk] at h
      have h0 : (0 : UInt8) = 1 := congrFun h (⟨0, by decide⟩ : Fin ext2BlockSize)
      exact absurd h0 (by decide)
  · intro hmapped buf buf' i hi
    have h := hmapped i hi
    rw [hasMapping_eq] at h
    obtain ⟨b, hb⟩ := Option.isSome_iff_exists.mp h
    rw [hread _ i hi, hread _ i hi, hb]
    rfl

/-- Block 5 is written and updated, inside the device. -/
theorem inRange_update :
    ∀ op ∈ [HostOp.write 5 [fun _ => 1], .write 5 [fun _ => 2]], op.InRange := fun op hop => by
  simp only [List.mem_cons, List.not_mem_nil, or_false] at hop
  rcases hop with rfl | rfl <;> simp [HostOp.InRange, totalSmrBlocksCnt_eq]

/-- Block 5 is written twice and read. -/
theorem reads_determined_update :
    ∃ outs s, runModule ⟨false, false, fun _ => .validPhyBlock⟩ (fun _ => 0)
        [.write 5 [fun _ => 1], .write 5 [fun _ => 2]] = .ok (outs, s) ∧
      ((∀ buf buf' : ℕ → Block, ∀ i < 1,
          (s.dev.readSmrBlocks ⟨false, false, fun _ => .validPhyBlock⟩ buf 5 1).1 i =
            (s.dev.readSmrBlocks ⟨false, false, fun _ => .validPhyBlock⟩ buf' 5 1).1 i) ↔
        ∀ i < 1, s.dev.hasMapping (5 + i) = true) := by
  have hpast : Env.PastEndNotFree ⟨false, false, fun _ => .validPhyBlock⟩ := fun _ => by simp
  obtain ⟨outs, s, hrun⟩ := runModule_ok hpast
    (runModule_unaware rfl hpast (fun _ => 0) inRange_update)
  refine ⟨outs, s, hrun, reads_determined_iff _ _ _ outs s hrun 5 1 ?_⟩
  rw [totalSmrBlocksCnt_eq]
  decide

/-- Nothing has been written, and a read of block 0 leaves the buffer as it was. -/
theorem read_leaves_buffer :
    runModule ⟨false, false, fun _ => .validPhyBlock⟩ (fun _ => 0) [] =
        .ok ([], initSmrDisk (freshModule fun _ => 0)) ∧
      ((initSmrDisk (freshModule fun _ => 0)).dev.readSmrBlocks
          ⟨false, false, fun _ => .validPhyBlock⟩ (fun _ => fun _ => 0) 0 1).1 0 ≠
        ((initSmrDisk (freshModule fun _ => 0)).dev.readSmrBlocks
          ⟨false, false, fun _ => .validPhyBlock⟩ (fun _ => fun _ => 1) 0 1).1 0 := by
  have hshows := shows_init fun _ => 0
  have hread : ∀ buf : ℕ → Block, ((initSmrDisk (freshModule fun _ => 0)).dev.readSmrBlocks
      ⟨false, false, fun _ => .validPhyBlock⟩ buf 0 1).1 0 = buf 0 := fun buf => by
    rw [(readSmrBlocks_spec _ buf hshows.dev.inv (by rw [totalSmrBlocksCnt_eq]; decide)).2.2,
      ArrayDisk.readOver, if_pos Nat.one_pos,
      hshows.dev.contents _ (by rw [totalSmrBlocksCnt_eq]; decide)]
    rfl
  refine ⟨rfl, ?_⟩
  rw [hread, hread]
  intro h
  have h0 : (0 : UInt8) = 1 := congrFun h (⟨0, by decide⟩ : Fin ext2BlockSize)
  exact absurd h0 (by decide)

/-! ## The block driver -/

/-- `KERNEL_SECTOR_SIZE`. -/
abbrev kernelSectorSize : UInt64 := 512

/-- `KERN_SECTS_PER_HARD_SECT`. -/
abbrev kernSectsPerHardSect : UInt64 := 8

/-- `check_block_size`: whether the transfer is accepted.  The arithmetic is on `unsigned long`. -/
def checkBlockSize (sector nsect : UInt64) : Bool :=
  let offset := sector * kernelSectorSize
  let nbytes := nsect * kernelSectorSize
  if sector % kernSectsPerHardSect ≠ 0 then false
  else if nsect % kernSectsPerHardSect ≠ 0 then false
  else if UInt64.ofNat smrDiskSize < offset + nbytes then false
  else true

/-- The current segment of a request: `blk_rq_pos`, `blk_rq_cur_sectors`, the memory at `bio_data`
and `rq_data_dir`. -/
structure Segment where
  sector : UInt64
  nsect : UInt64
  buffer : ℕ → Block
  write : Bool

namespace Segment

/-- The first block of the transfer. -/
def firstBlk (seg : Segment) : ℕ := (seg.sector / kernSectsPerHardSect).toNat

/-- The number of blocks. -/
def blks (seg : Segment) : ℕ := (seg.nsect / kernSectsPerHardSect).toNat

/-- The blocks of the buffer. -/
def bufs (seg : Segment) : List Block := (List.range seg.blks).map seg.buffer

end Segment

/-- `cnt->write_count += n`. -/
def SmrDev.countWrites (d : SmrDev) (n : UInt64) : SmrDev :=
  { d with smr := { d.smr with smrCnt := { d.smr.smrCnt with
      writeCount := d.smr.smrCnt.writeCount + n } } }

/-- `cnt->read_count += n`. -/
def SmrDev.countReads (d : SmrDev) (n : UInt64) : SmrDev :=
  { d with smr := { d.smr with smrCnt := { d.smr.smrCnt with
      readCount := d.smr.smrCnt.readCount + n } } }

/-- `do_data_transfer`: the buffer and the module.  A read of no blocks does not look at the
table. -/
def doDataTransfer (env : Env) (s : Ext2Sys SmrDev) (seg : Segment) :
    Except Fault ((ℕ → Block) × Ext2Sys SmrDev) :=
  if checkBlockSize seg.sector seg.nsect = false then .ok (seg.buffer, s)
  else if seg.write then do
    let s ← s.writeSmrBlocks (smrLayer env) env.aware seg.bufs seg.firstBlk
    return (seg.buffer, { s with dev := s.dev.countWrites (seg.nsect / kernSectsPerHardSect) })
  else do
    let (out, s) ←
      if seg.blks = 0 then .ok ([], s) else s.readSmrBlocks (smrLayer env) seg.bufs seg.firstBlk
    return (fun i => out.getD i (seg.buffer i),
      { s with dev := s.dev.countReads (seg.nsect / kernSectsPerHardSect) })

/-- A segment that has been ended: the module before and after, the buffer it leaves, and the status
that `__blk_end_request_cur` was given. -/
structure Ended where
  segment : Segment
  before : Ext2Sys SmrDev
  buffer : ℕ → Block
  after : Ext2Sys SmrDev
  ret : ℤ

/-- A request has at least one segment. -/
structure Request where
  first : Segment
  rest : List Segment

/-- `do_request`, over the segments that are left.  `__blk_end_request_cur` goes on to the next
segment of the request, and `blk_fetch_request` to the next request. -/
def doRequest (env : Env) (s : Ext2Sys SmrDev) :
    List Segment → Except Fault (List Ended × Ext2Sys SmrDev)
  | [] => .ok ([], s)
  | seg :: segs => do
    let (buffer, s') ← doDataTransfer env s seg
    let (ended, s'') ← doRequest env s' segs
    return (⟨seg, s, buffer, s', 0⟩ :: ended, s'')

/-- The module serves a queue of requests, from `init_smr_disk` on. -/
def serveModule (env : Env) (data : ℕ → Block) (queue : List Request) :
    Except Fault (List Ended × Ext2Sys SmrDev) :=
  doRequest env (initSmrDisk (freshModule data)) (queue.flatMap fun r => r.first :: r.rest)

/-! ## Requests carried out -/

/-- Reading the range gives the blocks of `f`, whatever the buffer held before. -/
def SmrDev.ReadsAs (env : Env) (d : SmrDev) (blkNo num : ℕ) (f : ℕ → Block) : Prop :=
  ∀ buf : ℕ → Block, ∀ i < num, (d.readSmrBlocks env buf blkNo num).1 i = f i

/-- The segment has been ended as it should be: status 0 means that a write can be read back and that
a read has filled the buffer from the device; a segment that is not accepted changes nothing and is
ended with an error. -/
structure Ended.CarriedOut (env : Env) (e : Ended) : Prop where
  write : e.ret = 0 → e.segment.write = true →
    e.after.dev.ReadsAs env e.segment.firstBlk e.segment.blks e.segment.buffer
  read : e.ret = 0 → e.segment.write = false →
    e.before.dev.ReadsAs env e.segment.firstBlk e.segment.blks e.buffer
  rejected : checkBlockSize e.segment.sector e.segment.nsect = false →
    e.after = e.before ∧ e.ret ≠ 0

/-- The detector, called before the block is written, trims block `x`. -/
def WriteStep.Trims (env : Env) (st : WriteStep SmrDev) (x : ℕ) : Prop :=
  env.aware = true ∧ st.before.dev.hasMapping x = true ∧
    ∃ s, st.before.detectExt2Fs (smrLayer env) st.buf st.blkNo = .ok s ∧ s.dev.hasMapping x = false

/-- The segment is accepted; no block of it, once written, is trimmed when a later one arrives; and
no block of it is read that has no mapping. -/
structure Ended.Proper (env : Env) (e : Ended) : Prop where
  accepted : checkBlockSize e.segment.sector e.segment.nsect = true
  kept : e.segment.write = true → ∀ st ∈ traceWrites (smrLayer env) env.aware e.before
    e.segment.bufs e.segment.firstBlk, ∀ x, e.segment.firstBlk ≤ x → x < st.blkNo → ¬ st.Trims env x
  mapped : e.segment.write = false → ∀ i < e.segment.blks,
    e.before.dev.hasMapping (e.segment.firstBlk + i) = true

theorem readsAs_iff (env : Env) {d : SmrDev} (h : DevInv d) {blkNo num : ℕ}
    (hnum : blkNo + num ≤ totalSmrBlocksCnt) (f : ℕ → Block) :
    d.ReadsAs env blkNo num f ↔ ∀ i < num, d.contents (blkNo + i) = some (f i) := by
  have hread : ∀ buf : ℕ → Block, ∀ i < num, (d.readSmrBlocks env buf blkNo num).1 i =
      (d.contents (blkNo + i)).getD (buf i) := fun buf i hi => by
    rw [(readSmrBlocks_spec env buf h hnum).2.2, ArrayDisk.readOver, if_pos hi]
  constructor
  · intro hsame i hi
    cases hblk : d.contents (blkNo + i) with
    | some b =>
      have h := hsame f i hi
      rw [hread f i hi, hblk] at h
      exact congrArg some h
    | none =>
      -- The buffer may have held anything.
      have h := hsame (fun _ => fun k => f i k + 1) i hi
      rw [hread _ i hi, hblk] at h
      have h0 : f i ⟨0, by decide⟩ + 1 = f i ⟨0, by decide⟩ := congrFun h _
      exact absurd h0 (by simp)
  · intro hsome buf i hi
    rw [hread buf i hi, hsome i hi]
    rfl

/-- The module is between two calls: it shows a plain array over which the detector waits. -/
def BetweenCalls (s : Ext2Sys SmrDev) : Prop := ∃ t, SysRel Shows s t ∧ InPhase t

theorem betweenCalls_init (data : ℕ → Block) : BetweenCalls (initSmrDisk (freshModule data)) :=
  ⟨freshArray, shows_init data, inPhase_freshArray⟩

theorem BetweenCalls.inv {s : Ext2Sys SmrDev} (h : BetweenCalls s) : DevInv s.dev := by
  obtain ⟨t, hst, -⟩ := h
  exact hst.dev.inv

/-- The counters of the driver are not looked at. -/
theorem BetweenCalls.setSmrCnt {s : Ext2Sys SmrDev} (h : BetweenCalls s) (c : DsCounter) :
    BetweenCalls { s with dev := { s.dev with smr := { s.dev.smr with smrCnt := c } } } := by
  obtain ⟨t, hst, ht⟩ := h
  obtain ⟨hstl, hbuf, hfree, hlog⟩ := hst.dev.inv
  exact ⟨t, ⟨⟨⟨hstl.congr rfl rfl rfl rfl, hbuf.congr rfl fun _ => rfl, hfree, hlog.congr rfl rfl⟩,
    hst.dev.contents⟩, hst.metaCtr, hst.sbsBuf, hst.bgDescsBuf, hst.blkBmp⟩, ht⟩

section Writes

variable {env : Env} {s s' : Ext2Sys SmrDev}

/-- **One write**: the detector takes contents away, and then the block is stored. -/
theorem BetweenCalls.writeOne (h : BetweenCalls s) {buf : Block} {blkNo : ℕ}
    (hone : s.writeOne (smrLayer env) env.aware buf blkNo = .ok s') :
    BetweenCalls s' ∧ blkNo < totalSmrBlocksCnt ∧ s'.dev.contents blkNo = some buf ∧
      ∀ x < totalSmrBlocksCnt, x ≠ blkNo →
        (s'.dev.contents x = s.dev.contents x ∨ s'.dev.contents x = none) ∧
        ((s.dev.contents x).isSome = true →
          (s'.dev.contents x = none ↔ WriteStep.Trims env ⟨s, blkNo, buf, s'⟩ x)) := by
  obtain ⟨t, hst, desc, hphase⟩ := h
  obtain ⟨s₁, hs₁, hlt, dev, hstore, rfl⟩ := writeOne_ok hone
  have hdetect : ∃ t₁, SysRel Shows s₁ t₁ ∧ (∃ desc', Phase t₁.dev desc' t₁.metaCtr) ∧
      ∀ x, t₁.dev x = t.dev x ∨ t₁.dev x = none := by
    split_ifs at hs₁
    · obtain ⟨t₁, ht₁, hst₁⟩ :=
        ((smrLayer_sim env).detectExt2Fs_refines hst buf blkNo).ok_of_ok hs₁
      have hdet := (detectExt2Fs_spec hphase buf blkNo).of_ok ht₁
      exact ⟨t₁, hst₁, hdet.phase hphase, hdet.sub⟩
    · rw [hs₁]
      exact ⟨t, hst, ⟨desc, hphase⟩, fun _ => Or.inl rfl⟩
  obtain ⟨t₁, hst₁, ⟨desc', hphase'⟩, hsub⟩ := hdetect
  have hstored := (SmrDev.storeBlock_spec env buf hst₁.dev.inv hlt).of_ok hstore
  refine ⟨⟨{ t₁ with dev := Function.update t₁.dev blkNo (some buf) }, ⟨⟨hstored.inv,
    fun x hx => ?_⟩, hst₁.metaCtr, hst₁.sbsBuf, hst₁.bgDescsBuf, hst₁.blkBmp⟩, desc',
    hphase'.store blkNo buf⟩, hlt, hstored.here, fun x hx hne => ?_⟩
  · change dev.contents x = Function.update t₁.dev blkNo (some buf) x
    by_cases hne : x = blkNo
    · rw [hne, Function.update_self]
      exact hstored.here
    · rw [Function.update_of_ne hne]
      exact (hstored.others x hx hne).trans (hst₁.dev.contents x hx)
  · have hx' : dev.contents x = s₁.dev.contents x := hstored.others x hx hne
    have hsub' : s₁.dev.contents x = s.dev.contents x ∨ s₁.dev.contents x = none := by
      rw [hst₁.dev.contents x hx, hst.dev.contents x hx]
      exact hsub x
    change (dev.contents x = _ ∨ dev.contents x = none) ∧ (_ → (dev.contents x = none ↔ _))
    rw [hx']
    refine ⟨hsub', fun hsome => ⟨fun hnone => ?_, ?_⟩⟩
    · split_ifs at hs₁ with haware
      · refine ⟨haware, by rw [hasMapping_eq]; exact hsome, s₁, hs₁, ?_⟩
        rw [hasMapping_eq, hnone]
        rfl
      · rw [← hs₁, hnone] at hsome
        cases hsome
    · rintro ⟨haware, -, s₂, hs₂, hnot⟩
      rw [haware, if_pos rfl] at hs₁
      obtain rfl := Except.ok.inj (hs₁.symm.trans hs₂)
      rw [hasMapping_eq] at hnot
      exact Option.not_isSome_iff_eq_none.mp (by rw [hnot]; decide)

theorem writeSmrBlocks_cons_ok {buf : Block} {bufs : List Block} {blkNo : ℕ}
    (h : s.writeSmrBlocks (smrLayer env) env.aware (buf :: bufs) blkNo = .ok s') :
    ∃ s₁, s.writeOne (smrLayer env) env.aware buf blkNo = .ok s₁ ∧
      s₁.writeSmrBlocks (smrLayer env) env.aware bufs (blkNo + 1) = .ok s' := by
  rw [Ext2Sys.writeSmrBlocks] at h
  exact bind_eq_ok.mp h

theorem BetweenCalls.writeSmrBlocks (h : BetweenCalls s) {bufs : List Block} {blkNo : ℕ}
    (hrun : s.writeSmrBlocks (smrLayer env) env.aware bufs blkNo = .ok s') :
    BetweenCalls s' ∧ (bufs ≠ [] → blkNo + bufs.length ≤ totalSmrBlocksCnt) ∧
      ∀ x < blkNo, x < totalSmrBlocksCnt → s.dev.contents x = none → s'.dev.contents x = none := by
  induction bufs generalizing s blkNo with
  | nil =>
    obtain rfl := Except.ok.inj hrun
    exact ⟨h, fun hne => absurd rfl hne, fun _ _ _ hnone => hnone⟩
  | cons buf bufs ih =>
    obtain ⟨s₁, hone, hrest⟩ := writeSmrBlocks_cons_ok hrun
    obtain ⟨h₁, hlt, -, hothers⟩ := h.writeOne hone
    obtain ⟨h', hlen, hnone⟩ := ih h₁ hrest
    refine ⟨h', fun _ => ?_, fun x hx hx' hn => hnone x (by omega) hx' ?_⟩
    · rw [List.length_cons]
      cases bufs with
      | nil => exact hlt
      | cons b bs =>
        have := hlen (List.cons_ne_nil b bs)
        omega
    · exact (hothers x hx' (by omega)).1.elim (fun heq => heq.trans hn) id

/-- **The blocks of one call** are all there at the end just when no write of it trims an earlier
block. -/
theorem BetweenCalls.written_iff (h : BetweenCalls s) {f : ℕ → Block} {lo blkNo n : ℕ}
    (hlo : lo ≤ blkNo)
    (hold : ∀ x, lo ≤ x → x < blkNo → x < totalSmrBlocksCnt ∧ s.dev.contents x = some (f x))
    (hrun : s.writeSmrBlocks (smrLayer env) env.aware ((List.range' blkNo n).map f) blkNo = .ok s') :
    (∀ x, lo ≤ x → x < blkNo + n → s'.dev.contents x = some (f x)) ↔
      ∀ st ∈ traceWrites (smrLayer env) env.aware s ((List.range' blkNo n).map f) blkNo,
        ∀ x, lo ≤ x → x < st.blkNo → ¬ st.Trims env x := by
  induction n generalizing s blkNo with
  | zero =>
    obtain rfl := Except.ok.inj hrun
    exact ⟨fun _ _ hst => absurd hst List.not_mem_nil, fun _ x hx hx' => (hold x hx hx').2⟩
  | succ n ih =>
    rw [List.range'_succ, List.map_cons] at hrun ⊢
    obtain ⟨s₁, hone, hrest⟩ := writeSmrBlocks_cons_ok hrun
    obtain ⟨h₁, hlt, hhere, hothers⟩ := h.writeOne hone
    rw [traceWrites_cons hone, List.forall_mem_cons]
    by_cases htrim : ∃ x, lo ≤ x ∧ x < blkNo ∧
        WriteStep.Trims env ⟨s, blkNo, f blkNo, s₁⟩ x
    · obtain ⟨x, hx, hx', htrim⟩ := htrim
      obtain ⟨hxlt, hsome⟩ := hold x hx hx'
      refine iff_of_false (fun hall => ?_) fun hno => hno.1 x hx hx' htrim
      -- What has been trimmed is not written again.
      have hnone := ((hothers x hxlt (by omega)).2 (by rw [hsome]; rfl)).mpr htrim
      have hend := (h₁.writeSmrBlocks hrest).2.2 x (by omega) hxlt hnone
      rw [hall x hx (by omega)] at hend
      cases hend
    · have hkept : ∀ x, lo ≤ x → x < blkNo + 1 →
          x < totalSmrBlocksCnt ∧ s₁.dev.contents x = some (f x) := by
        intro x hx hx'
        by_cases hxb : x = blkNo
        · rw [hxb]
          exact ⟨hlt, hhere⟩
        · obtain ⟨hxlt, hsome⟩ := hold x hx (by omega)
          obtain ⟨hsub, htrims⟩ := hothers x hxlt hxb
          refine ⟨hxlt, (hsub.resolve_right fun hnone => htrim ⟨x, hx, by omega, ?_⟩).trans hsome⟩
          exact (htrims (by rw [hsome]; rfl)).mp hnone
      have hiff := ih h₁ (by omega) hkept hrest
      rw [show blkNo + (n + 1) = blkNo + 1 + n from by omega, hiff]
      exact (and_iff_right fun x hx hx' ht => htrim ⟨x, hx, hx', ht⟩).symm

end Writes

section Transfers

variable {env : Env} {s s' : Ext2Sys SmrDev} {seg : Segment} {buffer : ℕ → Block}

theorem Segment.bufs_eq (seg : Segment) : seg.bufs =
    (List.range' seg.firstBlk seg.blks).map fun x => seg.buffer (x - seg.firstBlk) := by
  rw [Segment.bufs, List.range'_eq_map_range, List.map_map]
  refine List.map_congr_left fun i _ => ?_
  simp

theorem doDataTransfer_read {out : List Block} {s₁ : Ext2Sys SmrDev}
    (hacc : checkBlockSize seg.sector seg.nsect = true) (hw : seg.write = false) (hpos : seg.blks ≠ 0)
    (h : s.readSmrBlocks (smrLayer env) seg.bufs seg.firstBlk = .ok (out, s₁)) :
    doDataTransfer env s seg = .ok (fun i => out.getD i (seg.buffer i),
      { s₁ with dev := s₁.dev.countReads (seg.nsect / kernSectsPerHardSect) }) := by
  rw [doDataTransfer, if_neg (by rw [hacc]; decide), if_neg (by rw [hw]; decide), if_neg hpos]
  exact bind_eq_ok.mpr ⟨(out, s₁), h, rfl⟩

/-- A segment that is not accepted. -/
theorem doDataTransfer_rejected (h : checkBlockSize seg.sector seg.nsect = false) :
    doDataTransfer env s seg = .ok (seg.buffer, s) := if_pos h

theorem doDataTransfer_write {s₁ : Ext2Sys SmrDev}
    (hacc : checkBlockSize seg.sector seg.nsect = true) (hw : seg.write = true)
    (h : s.writeSmrBlocks (smrLayer env) env.aware seg.bufs seg.firstBlk = .ok s₁) :
    doDataTransfer env s seg = .ok (seg.buffer,
      { s₁ with dev := s₁.dev.countWrites (seg.nsect / kernSectsPerHardSect) }) := by
  rw [doDataTransfer, if_neg (by rw [hacc]; decide), if_pos hw]
  exact bind_eq_ok.mpr ⟨s₁, h, rfl⟩

theorem doDataTransfer_write_ok (hacc : checkBlockSize seg.sector seg.nsect = true)
    (hw : seg.write = true) (h : doDataTransfer env s seg = .ok (buffer, s')) :
    ∃ s₁, s.writeSmrBlocks (smrLayer env) env.aware seg.bufs seg.firstBlk = .ok s₁ ∧
      s' = { s₁ with dev := s₁.dev.countWrites (seg.nsect / kernSectsPerHardSect) } := by
  rw [doDataTransfer, if_neg (by rw [hacc]; decide), if_pos hw] at h
  obtain ⟨s₁, hs₁, h⟩ := bind_eq_ok.mp h
  exact ⟨s₁, hs₁, (Prod.mk.inj (Except.ok.inj h)).2.symm⟩

theorem doDataTransfer_read_ok (hacc : checkBlockSize seg.sector seg.nsect = true)
    (hw : seg.write = false) (h : doDataTransfer env s seg = .ok (buffer, s')) :
    ∃ out s₁, (if seg.blks = 0 then .ok ([], s)
        else s.readSmrBlocks (smrLayer env) seg.bufs seg.firstBlk) = Except.ok (out, s₁) ∧
      buffer = (fun i => out.getD i (seg.buffer i)) ∧
      s' = { s₁ with dev := s₁.dev.countReads (seg.nsect / kernSectsPerHardSect) } := by
  rw [doDataTransfer, if_neg (by rw [hacc]; decide), if_neg (by rw [hw]; decide)] at h
  split_ifs at h ⊢
  · obtain ⟨h1, h2⟩ := Prod.mk.inj (Except.ok.inj h)
    exact ⟨[], s, rfl, h1.symm, h2.symm⟩
  · obtain ⟨⟨out, s₁⟩, hs₁, h⟩ := bind_eq_ok.mp h
    obtain ⟨h1, h2⟩ := Prod.mk.inj (Except.ok.inj h)
    exact ⟨out, s₁, hs₁, h1.symm, h2.symm⟩

/-- What a read of the segment gives. -/
theorem BetweenCalls.readTransfer (h : BetweenCalls s)
    (hacc : checkBlockSize seg.sector seg.nsect = true) (hw : seg.write = false)
    (hrun : doDataTransfer env s seg = .ok (buffer, s')) :
    BetweenCalls s' ∧ (seg.blks ≠ 0 → seg.firstBlk + seg.blks ≤ totalSmrBlocksCnt) ∧
      ∀ i < seg.blks, buffer i = (s.dev.contents (seg.firstBlk + i)).getD (seg.buffer i) := by
  obtain ⟨out, s₁, hread, rfl, rfl⟩ := doDataTransfer_read_ok hacc hw hrun
  split_ifs at hread with h0
  · obtain ⟨-, rfl⟩ := Prod.mk.inj (Except.ok.inj hread)
    refine ⟨h.setSmrCnt _, fun hne => absurd h0 hne, fun i hi => ?_⟩
    rw [h0] at hi
    exact absurd hi (Nat.not_lt_zero i)
  · obtain ⟨t, hst, ht⟩ := h
    obtain ⟨⟨out', t₁⟩, ht₁, hout, hst₁⟩ :=
      ((smrLayer_sim env).readSmrBlocks_refines hst seg.bufs seg.firstBlk).ok_of_ok hread
    obtain ⟨rfl, hout'⟩ := (readSmrBlocks_array_spec t seg.bufs seg.firstBlk).of_ok ht₁
    replace hout := hout.trans hout'
    dsimp only at hout
    have hlen : seg.bufs.length = seg.blks := by
      rw [Segment.bufs, List.length_map, List.length_range]
    have hrange : seg.firstBlk + seg.blks ≤ totalSmrBlocksCnt := by
      rw [Ext2Sys.readSmrBlocks, hlen] at ht₁
      split_ifs at ht₁ with hle
      exact hle
    refine ⟨BetweenCalls.setSmrCnt ⟨t₁, hst₁, ht⟩ _, fun _ => hrange, fun i hi => ?_⟩
    rw [hout, hlen]
    beta_reduce
    rw [List.getD_eq_getElem?_getD, List.getElem?_map,
      List.getElem?_range hi, Option.map_some, Option.getD_some, ArrayDisk.readOver, if_pos hi,
      ← hst.dev.contents _ (by omega), Segment.bufs, List.getD_eq_getElem?_getD,
      List.getElem?_map, List.getElem?_range hi]
    rfl

theorem BetweenCalls.doDataTransfer (h : BetweenCalls s)
    (hrun : doDataTransfer env s seg = .ok (buffer, s')) : BetweenCalls s' := by
  cases hacc : checkBlockSize seg.sector seg.nsect with
  | false =>
    rw [doDataTransfer_rejected hacc] at hrun
    obtain ⟨-, rfl⟩ := Prod.mk.inj (Except.ok.inj hrun)
    exact h
  | true =>
    cases hw : seg.write with
    | false => exact (h.readTransfer hacc hw hrun).1
    | true =>
      obtain ⟨s₁, hs₁, rfl⟩ := doDataTransfer_write_ok hacc hw hrun
      exact (h.writeSmrBlocks hs₁).1.setSmrCnt _

theorem doRequest_cons {s'' : Ext2Sys SmrDev} {segs : List Segment} {ended : List Ended}
    (h : MemSmr.doDataTransfer env s seg = .ok (buffer, s'))
    (h' : doRequest env s' segs = .ok (ended, s'')) :
    doRequest env s (seg :: segs) = .ok (⟨seg, s, buffer, s', 0⟩ :: ended, s'') := by
  rw [doRequest]
  exact bind_eq_ok.mpr ⟨_, h, bind_eq_ok.mpr ⟨_, h', rfl⟩⟩

/-- A run over a segment and then the others. -/
theorem doRequest_cons_ok {segs : List Segment} {ended : List Ended}
    (h : doRequest env s (seg :: segs) = .ok (ended, s')) :
    ∃ buffer s₁ ended', MemSmr.doDataTransfer env s seg = .ok (buffer, s₁) ∧
      doRequest env s₁ segs = .ok (ended', s') ∧ ended = ⟨seg, s, buffer, s₁, 0⟩ :: ended' := by
  rw [doRequest] at h
  obtain ⟨⟨buffer, s₁⟩, hseg, h⟩ := bind_eq_ok.mp h
  obtain ⟨⟨ended', s₂⟩, hsegs, h⟩ := bind_eq_ok.mp h
  obtain ⟨rfl, rfl⟩ := Prod.mk.inj (Except.ok.inj h)
  exact ⟨buffer, s₁, ended', hseg, hsegs, rfl⟩

/-- Every segment that is ended has been through `do_data_transfer`, and gets status 0. -/
theorem doRequest_ended (h : BetweenCalls s) {segs : List Segment} {ended : List Ended}
    (hrun : doRequest env s segs = .ok (ended, s')) : ∀ e ∈ ended, BetweenCalls e.before ∧
      MemSmr.doDataTransfer env e.before e.segment = .ok (e.buffer, e.after) ∧ e.ret = 0 := by
  induction segs generalizing s ended with
  | nil =>
    obtain ⟨rfl, -⟩ := Prod.mk.inj (Except.ok.inj hrun)
    exact fun _ he => absurd he List.not_mem_nil
  | cons seg segs ih =>
    obtain ⟨buffer, s₁, ended', hseg, hsegs, rfl⟩ := doRequest_cons_ok hrun
    exact List.forall_mem_cons.mpr ⟨⟨h, hseg, rfl⟩, ih (h.doDataTransfer hseg) hsegs⟩

end Transfers

/-! ## The states of the module -/

/-- `reset_all_counters`. -/
def SmrDev.resetAllCounters (d : SmrDev) : SmrDev :=
  { d with
    smr := { d.smr with
      smrCnt := { d.smr.smrCnt with readCount := 0, writeCount := 0 }
      hddCnt := { d.smr.hddCnt with readCount := 0, writeCount := 0 } }
    buf := { d.buf with
      rwCounter := { d.buf.rwCounter with readCount := 0, writeCount := 0 }
      hitCnt := 0 } }

/-- The states of the module: after `init_smr_disk`, after a transfer, whatever the parameters are at
that time, and after the counters have been reset. -/
inductive Reached : Ext2Sys SmrDev → Prop where
  | init (data : ℕ → Block) : Reached (initSmrDisk (freshModule data))
  | transfer {s s' : Ext2Sys SmrDev} (env : Env) {seg : Segment} {buffer : ℕ → Block}
      (hs : Reached s) (h : doDataTransfer env s seg = .ok (buffer, s')) : Reached s'
  | reset {s : Ext2Sys SmrDev} (hs : Reached s) :
      Reached { s with dev := s.dev.resetAllCounters }

/-- The counts have changed at most. -/
structure SmrDev.Recounted (d d' : SmrDev) : Prop where
  smrCnt : d'.smr.smrCnt.enable = d.smr.smrCnt.enable
  hddCnt : d'.smr.hddCnt.enable = d.smr.hddCnt.enable
  rwCounter : d'.buf.rwCounter.enable = d.buf.rwCounter.enable
  rest : d' = { d with
    smr := { d.smr with smrCnt := d'.smr.smrCnt, hddCnt := d'.smr.hddCnt }
    buf := { d.buf with rwCounter := d'.buf.rwCounter, hitCnt := d'.buf.hitCnt } }

/-- What a simulation shows of the module between two calls: it relates the layers, it does not look
at the counts, and the invariant `Q` is kept over the other layer. -/
structure KeptBy {τ : Type} (M : BlockLayer τ) (R : SmrDev → τ → Prop) (Q : Ext2Sys τ → Prop) :
    Prop where
  sim : ∀ env, LayerSim (smrLayer env) M (PastEndFault env) R
  recounted : ∀ {d d' a}, R d a → d.Recounted d' → R d' a
  init : ∀ data, ∃ t, SysRel R (initSmrDisk (freshModule data)) t ∧ Q t
  write : ∀ aware t buf blkNo, Q t → Meets (fun _ => True) Q (t.writeOne M aware buf blkNo)
  read : ∀ t buf l n, Q t → Q { t with dev := (M.readSmrBlocks t.dev buf l n).2 }

section Kept

variable {τ : Type} {M : BlockLayer τ} {R : SmrDev → τ → Prop} {Q : Ext2Sys τ → Prop}
  {s s' : Ext2Sys SmrDev} {t : Ext2Sys τ}

theorem KeptBy.setDev (hk : KeptBy M R Q) (hst : SysRel R s t) {d : SmrDev}
    (hd : s.dev.Recounted d) : SysRel R { s with dev := d } t :=
  ⟨hk.recounted hst.dev hd, hst.metaCtr, hst.sbsBuf, hst.bgDescsBuf, hst.blkBmp⟩

/-- One transfer. -/
theorem KeptBy.doDataTransfer (hk : KeptBy M R Q) {env : Env} {seg : Segment} {buffer : ℕ → Block}
    (hst : SysRel R s t) (ht : Q t) (hrun : doDataTransfer env s seg = .ok (buffer, s')) :
    ∃ t', SysRel R s' t' ∧ Q t' := by
  cases hacc : checkBlockSize seg.sector seg.nsect with
  | false =>
    rw [doDataTransfer_rejected hacc] at hrun
    obtain ⟨-, rfl⟩ := Prod.mk.inj (Except.ok.inj hrun)
    exact ⟨t, hst, ht⟩
  | true =>
    cases hw : seg.write with
    | true =>
      obtain ⟨s₁, hs₁, rfl⟩ := doDataTransfer_write_ok hacc hw hrun
      obtain ⟨t₁, ht₁, hst₁⟩ :=
        ((hk.sim env).writeSmrBlocks_refines env.aware hst seg.bufs seg.firstBlk).ok_of_ok hs₁
      refine ⟨t₁, hk.setDev hst₁ ⟨rfl, rfl, rfl, rfl⟩, ?_⟩
      exact (meets_writeSmrBlocks (fun t buf blkNo => hk.write env.aware t buf blkNo) ht
        seg.bufs seg.firstBlk).of_ok ht₁
    | false =>
      obtain ⟨out, s₁, hread, -, rfl⟩ := doDataTransfer_read_ok hacc hw hrun
      suffices h : ∃ t₁, SysRel R s₁ t₁ ∧ Q t₁ by
        obtain ⟨t₁, hst₁, ht₁⟩ := h
        exact ⟨t₁, hk.setDev hst₁ ⟨rfl, rfl, rfl, rfl⟩, ht₁⟩
      split_ifs at hread
      · obtain ⟨-, rfl⟩ := Prod.mk.inj (Except.ok.inj hread)
        exact ⟨t, hst, ht⟩
      · obtain ⟨⟨out', t₁⟩, ht₁, -, hst₁⟩ :=
          ((hk.sim env).readSmrBlocks_refines hst seg.bufs seg.firstBlk).ok_of_ok hread
        refine ⟨t₁, hst₁, ?_⟩
        rw [Ext2Sys.readSmrBlocks] at ht₁
        split_ifs at ht₁
        obtain ⟨-, rfl⟩ := Prod.mk.inj (Except.ok.inj ht₁)
        exact hk.read t _ seg.firstBlk seg.bufs.length ht

/-- **The invariant rule for the states of the module.** -/
theorem KeptBy.reached (hk : KeptBy M R Q) (hs : Reached s) : ∃ t, SysRel R s t ∧ Q t := by
  induction hs with
  | init data => exact hk.init data
  | transfer env hs h ih =>
    obtain ⟨t, hst, ht⟩ := ih
    exact hk.doDataTransfer hst ht h
  | reset hs ih =>
    obtain ⟨t, hst, ht⟩ := ih
    exact ⟨t, hk.setDev hst ⟨rfl, rfl, rfl, rfl⟩, ht⟩

end Kept

theorem Shows.recounted {d d' : SmrDev} {a : ArrayDisk} (h : Shows d a) (hd : d.Recounted d') :
    Shows d' a := by
  rw [hd.rest]
  obtain ⟨hstl, hbuf, hfree, hlog⟩ := h.inv
  exact ⟨⟨hstl.congr rfl rfl rfl rfl, hbuf.congr rfl fun _ => rfl, hfree, hlog.congr rfl rfl⟩,
    h.contents⟩

theorem betweenCalls_kept : KeptBy arrayLayer Shows InPhase where
  sim := smrLayer_sim
  recounted := Shows.recounted
  init := betweenCalls_init
  write _ _ buf blkNo ht := (meets_writeOne_array ht buf blkNo).weaken fun _ _ => trivial
  read _ _ _ _ ht := ht

theorem Reached.betweenCalls {s : Ext2Sys SmrDev} (hs : Reached s) : BetweenCalls s :=
  betweenCalls_kept.reached hs

section Segments

variable {env : Env} {s s' : Ext2Sys SmrDev} {seg : Segment} {buffer : ℕ → Block}

/-- Another read finds what a read has found, just when every block of the range has a mapping. -/
theorem BetweenCalls.readsAs_of_read (h : BetweenCalls s)
    (hacc : checkBlockSize seg.sector seg.nsect = true) (hw : seg.write = false)
    (hrun : MemSmr.doDataTransfer env s seg = .ok (buffer, s')) :
    s.dev.ReadsAs env seg.firstBlk seg.blks buffer ↔
      ∀ i < seg.blks, s.dev.hasMapping (seg.firstBlk + i) = true := by
  obtain ⟨-, hrange, hbuffer⟩ := h.readTransfer hacc hw hrun
  rcases Nat.eq_zero_or_pos seg.blks with h0 | hpos
  · rw [h0]
    exact ⟨fun _ i hi => absurd hi (Nat.not_lt_zero i),
      fun _ _ i hi => absurd hi (Nat.not_lt_zero i)⟩
  · rw [readsAs_iff env h.inv (hrange hpos.ne')]
    refine forall₂_congr fun i hi => ?_
    rw [hasMapping_eq, hbuffer i hi]
    cases s.dev.contents (seg.firstBlk + i) with
    | none => simp
    | some b => simp

/-- A read finds what has been written, just when no block has been trimmed on the way. -/
theorem BetweenCalls.readsAs_of_write (h : BetweenCalls s)
    (hacc : checkBlockSize seg.sector seg.nsect = true) (hw : seg.write = true)
    (hrun : MemSmr.doDataTransfer env s seg = .ok (buffer, s')) :
    s'.dev.ReadsAs env seg.firstBlk seg.blks seg.buffer ↔
      ∀ st ∈ traceWrites (smrLayer env) env.aware s seg.bufs seg.firstBlk,
        ∀ x, seg.firstBlk ≤ x → x < st.blkNo → ¬ st.Trims env x := by
  obtain ⟨s₁, hs₁, rfl⟩ := doDataTransfer_write_ok hacc hw hrun
  obtain ⟨h₁, hrange, -⟩ := h.writeSmrBlocks hs₁
  have hbufs := seg.bufs_eq
  have hiff := h.written_iff (Nat.le_refl seg.firstBlk)
    (fun x h1 h2 => absurd h1 (by omega)) (hbufs ▸ hs₁)
  rw [← hbufs] at hiff
  rw [← hiff]
  rcases Nat.eq_zero_or_pos seg.blks with h0 | hpos
  · rw [h0]
    exact ⟨fun _ x h1 h2 => absurd h1 (by omega), fun _ _ i hi => absurd hi (Nat.not_lt_zero i)⟩
  · have hne : seg.bufs ≠ [] := fun h => by
      have hlen := congrArg List.length h
      rw [Segment.bufs, List.length_map, List.length_range, List.length_nil] at hlen
      omega
    have hle := hrange hne
    rw [Segment.bufs, List.length_map, List.length_range] at hle
    have hinv : DevInv (s₁.dev.countWrites (seg.nsect / kernSectsPerHardSect)) :=
      (h₁.setSmrCnt _).inv
    rw [readsAs_iff env hinv hle]
    change (∀ i < _, s₁.dev.contents _ = _) ↔ _
    constructor
    · intro h x hx hx'
      have := h (x - seg.firstBlk) (by omega)
      rwa [Nat.add_sub_cancel' hx] at this
    · intro h i hi
      have := h (seg.firstBlk + i) (by omega) (by omega)
      rwa [Nat.add_sub_cancel_left] at this

end Segments

/-- **Requests carried out.**  Of all the segments that the driver ends, just the proper ones have
been carried out. -/
theorem requests_carried_out_iff (env : Env) (data : ℕ → Block) (queue : List Request)
    (ended : List Ended) (s : Ext2Sys SmrDev)
    (hrun : serveModule env data queue = .ok (ended, s)) :
    ∀ e ∈ ended, e.CarriedOut env ↔ e.Proper env := by
  intro e he
  obtain ⟨hbefore, hseg, hret⟩ := doRequest_ended (betweenCalls_init data) hrun e he
  cases hacc : checkBlockSize e.segment.sector e.segment.nsect with
  | false =>
    refine iff_of_false (fun h => (h.rejected hacc).2 hret) fun h => ?_
    rw [h.accepted] at hacc
    cases hacc
  | true =>
    have hno : checkBlockSize e.segment.sector e.segment.nsect = false →
        e.after = e.before ∧ e.ret ≠ 0 := fun h => by
      rw [hacc] at h
      cases h
    cases hw : e.segment.write with
    | false =>
      have hiff := hbefore.readsAs_of_read hacc hw hseg
      constructor
      · intro h
        exact ⟨hacc, fun hw' => absurd (hw.symm.trans hw') (by decide),
          fun _ => hiff.mp (h.read hret hw)⟩
      · intro h
        exact ⟨fun _ hw' => absurd (hw.symm.trans hw') (by decide),
          fun _ _ => hiff.mpr (h.mapped hw), hno⟩
    | true =>
      have hiff := hbefore.readsAs_of_write hacc hw hseg
      constructor
      · intro h
        exact ⟨hacc, fun _ => hiff.mp (h.write hret hw),
          fun hw' => absurd (hw.symm.trans hw') (by decide)⟩
      · intro h
        exact ⟨fun _ _ => hiff.mpr (h.kept hw),
          fun _ hw' => absurd (hw.symm.trans hw') (by decide), hno⟩

/-! ### The run that fills the device, as a queue -/

/-- The counters of the driver are not looked at. -/
theorem SmrDev.Updated.setSmrCnt {d : SmrDev} {j : ℕ} (h : d.Updated j) (c : DsCounter) :
    SmrDev.Updated { d with smr := { d.smr with smrCnt := c } } j where
  inv := ⟨h.inv.stl.congr rfl rfl rfl rfl, h.inv.buf.congr rfl fun _ => rfl, h.inv.free,
    h.inv.log.congr rfl rfl⟩
  frontier := h.frontier.congr (.of_eq rfl rfl rfl)
  written := h.written
  bufs := h.bufs

theorem Segment.bufs_const (sector nsect : UInt64) (blk : Block) (write : Bool) :
    (⟨sector, nsect, fun _ => blk, write⟩ : Segment).bufs =
      List.replicate (nsect / kernSectsPerHardSect).toNat blk := by
  rw [Segment.bufs, List.map_const', List.length_range]
  rfl

/-- Every block is written, then 16384 blocks are updated, then one more, and that one is read. -/
def overwriteQueue : List Request :=
  [⟨⟨0, 2097152, fun _ => 0, true⟩, []⟩, ⟨⟨0, 131072, fun _ => 0, true⟩, []⟩,
    ⟨⟨131072, 8, fun _ => fun _ => 1, true⟩, [⟨131072, 8, fun _ => 0, false⟩]⟩]

/-- **A queue with a swap and a collection.** -/
theorem overwrite_served : ∃ ended s,
    serveModule plainEnv (fun _ => 0) overwriteQueue = .ok (ended, s) ∧ ended.length = 4 ∧
      s.dev.Wrapped := by
  have hall : totalSmrBlocksCnt = (2097152 / kernSectsPerHardSect : UInt64).toNat := by
    rw [totalSmrBlocksCnt_eq]
    decide
  have hbuf : blocksOfHddBuf = (131072 / kernSectsPerHardSect : UInt64).toNat := by
    rw [blocksOfHddBuf_eq]
    decide
  obtain ⟨s₁, hs₁, h₁⟩ := write_filled plainEnv 0 (filled_init fun _ => 0)
  rw [hall, ← Segment.bufs_const 0 2097152 0 true] at hs₁
  have ht₁ := doDataTransfer_write (by rw [checkBlockSize]; decide) rfl hs₁
  obtain ⟨s₂, hs₂, h₂⟩ := write_updated plainEnv 0 (Nat.le_refl _)
    (s := { s₁ with dev := s₁.dev.countWrites (2097152 / kernSectsPerHardSect) }) (h₁.setSmrCnt _)
  rw [hbuf, ← Segment.bufs_const 0 131072 0 true] at hs₂
  have ht₂ := doDataTransfer_write (by rw [checkBlockSize]; decide) rfl hs₂
  obtain ⟨s₃, hs₃, h₃⟩ := write_wrapped plainEnv_pastEndNotFree (fun _ => 1)
    (s := { s₂ with dev := s₂.dev.countWrites (131072 / kernSectsPerHardSect) }) (h₂.setSmrCnt _)
  rw [hbuf] at hs₃
  have ht₃ : doDataTransfer plainEnv _ ⟨131072, 8, fun _ => fun _ => 1, true⟩ = _ :=
    doDataTransfer_write (by rw [checkBlockSize]; decide) rfl hs₃
  obtain ⟨out, s₄, hs₄, h₄⟩ := read_wrapped plainEnv 0
    (s := { s₃ with dev := s₃.dev.countWrites (8 / kernSectsPerHardSect) })
    (h₃.mono fun _ he => he)
  rw [hbuf] at hs₄
  have ht₄ : doDataTransfer plainEnv _ ⟨131072, 8, fun _ => 0, false⟩ = _ :=
    doDataTransfer_read (by rw [checkBlockSize]; decide) rfl (by decide) hs₄
  exact ⟨_, _, doRequest_cons ht₁ (doRequest_cons ht₂ (doRequest_cons ht₃ (doRequest_cons ht₄ rfl))),
    rfl, h₄.mono fun _ he => he⟩

theorem requests_carried_out_overwrite :
    ∃ ended s, serveModule plainEnv (fun _ => 0) overwriteQueue = .ok (ended, s) ∧
      ended.length = 4 ∧ s.dev.Wrapped ∧
      ∀ e ∈ ended, (e.CarriedOut plainEnv ↔ e.Proper plainEnv) := by
  obtain ⟨ended, s, hserve, hlen, hwrapped⟩ := overwrite_served
  exact ⟨ended, s, hserve, hlen, hwrapped,
    requests_carried_out_iff plainEnv (fun _ => 0) overwriteQueue ended s hserve⟩

/-- A write that starts in the middle of a block is dropped and reported as done. -/
theorem misaligned_write_reported :
    ∃ e, serveModule ⟨false, false, fun _ => .validPhyBlock⟩ (fun _ => 0)
        [⟨⟨1, 8, fun _ => fun _ => 1, true⟩, []⟩] =
          .ok ([e], initSmrDisk (freshModule fun _ => 0)) ∧
      checkBlockSize e.segment.sector e.segment.nsect = false ∧ e.ret = 0 ∧
      ¬ e.CarriedOut ⟨false, false, fun _ => .validPhyBlock⟩ := by
  have hrej : checkBlockSize 1 8 = false := by
    rw [checkBlockSize]
    decide
  exact ⟨⟨⟨1, 8, fun _ => fun _ => 1, true⟩, _, _, _, 0⟩,
    doRequest_cons (doDataTransfer_rejected hrej) rfl, hrej, rfl, fun h => (h.rejected hrej).2 rfl⟩

end MemSmr
