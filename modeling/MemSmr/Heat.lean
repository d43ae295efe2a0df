import MemSmr.SwapOut
import MemSmr.Refinement

/-!
# The access counts of the buffers

`read_cnt` and `write_cnt` are `int`s that are only ever incremented while a buffer holds a block.
Beside them the true numbers of accesses are kept, which the source does not have.

* `HeatDev`: a device, and the weighted accesses of every buffer since it was last given to a block.
* `DevOp`, `heatRun`: a run of reads, writes, trims and marks from `init_smr_disk`.
* `Counted`: the counters of the source are the true numbers modulo `2 ^ 32`, which every operation
  keeps.
* `HeatDev.Meaningful`: the counters compare the buffers as the true numbers do, and none wraps.
* `heat_counters_iff`: when that is so.
* `runModule_heat`: every run of the module is such a run.
-/

namespace MemSmr

open Outcome

/-! ## The true numbers -/

/-- A device, and the true numbers of weighted reads and writes of every buffer since it was last
given to a block. -/
structure HeatDev where
  dev : SmrDev
  reads : ℕ → ℕ
  writes : ℕ → ℕ

/-- How often an access to a block counts. -/
def weight (env : Env) (d : SmrDev) (blkNo : ℕ) : ℕ := if d.countsTwice env blkNo then 2 else 1

/-- A read of one block, noted if it goes to a buffer. -/
def noteRead (env : Env) (d : SmrDev) (reads : ℕ → ℕ) (blkNo : ℕ) : ℕ → ℕ :=
  if d.inHddBuf blkNo then
    Function.update reads (d.smr.mappingTable blkNo).paddr
      (reads (d.smr.mappingTable blkNo).paddr + weight env d blkNo)
  else reads

namespace HeatDev

/-- The true number of weighted accesses to a buffer. -/
def total (h : HeatDev) (q : ℕ) : ℕ := h.reads q + h.writes q

/-- `read_smr_blocks`. -/
def readSmrBlocks (env : Env) (h : HeatDev) (buf : ℕ → Block) (blkNo num : ℕ) :
    (ℕ → Block) × HeatDev :=
  let (buf, d) := h.dev.readSmrBlocks env buf blkNo num
  (buf, { h with
    dev := d
    reads := (List.range num).foldl (fun reads i => noteRead env h.dev reads (blkNo + i)) h.reads })

/-- `write_smr_blocks`, one block.  A block that comes from the SMR area is given a buffer. -/
def storeBlock (env : Env) (h : HeatDev) (blkNo : ℕ) (blk : Block) : Except Fault HeatDev := do
  let d ← h.dev.storeBlock env blkNo blk
  let bufNo := (d.smr.mappingTable blkNo).paddr
  if h.dev.inHddBuf blkNo then
    return { h with
      dev := d
      writes := Function.update h.writes bufNo (h.writes bufNo + weight env h.dev blkNo) }
  else if h.dev.inSmrDisk blkNo then
    return {
      dev := d
      reads := Function.update h.reads bufNo 0
      writes := Function.update h.writes bufNo (weight env h.dev blkNo) }
  else return { h with dev := d }

end HeatDev

theorem HeatDev.storeBlock_ok {env : Env} {h : HeatDev} {d : SmrDev} {l : ℕ} {blk : Block}
    (hok : h.dev.storeBlock env l blk = .ok d) :
    ∃ h', h.storeBlock env l blk = .ok h' ∧ h'.dev = d := by
  rw [HeatDev.storeBlock, hok, ok_bind]
  split_ifs
  · exact ⟨_, rfl, rfl⟩
  · exact ⟨_, rfl, rfl⟩
  · exact ⟨_, rfl, rfl⟩

/-- The translation layer with the true numbers beside it. -/
def heatLayer (env : Env) : BlockLayer HeatDev where
  hasMapping h := h.dev.hasMapping
  readSmrBlocks := HeatDev.readSmrBlocks env
  setupMetaFlag h blkNo flag := { h with dev := h.dev.setupMetaFlag blkNo flag }
  trimBlock h blkNo := { h with dev := h.dev.trimBlock blkNo }
  storeBlock := HeatDev.storeBlock env

/-- An operation on the device. -/
inductive DevOp where
  | read (blkNo : ℕ) (buf : ℕ → Block) (num : ℕ)
  | write (blkNo : ℕ) (blk : Block)
  | trim (blkNo : ℕ)
  | mark (blkNo flag : ℕ)

/-- The operation stays inside the device. -/
def DevOp.InRange : DevOp → Prop
  | .read blkNo _ num => blkNo + num ≤ totalSmrBlocksCnt
  | .write blkNo _ => blkNo < totalSmrBlocksCnt
  | .trim blkNo => blkNo < totalSmrBlocksCnt
  | .mark _ _ => True

/-- One operation. -/
def HeatDev.step (env : Env) (h : HeatDev) : DevOp → Except Fault HeatDev
  | .read blkNo buf num => .ok ((heatLayer env).readSmrBlocks h buf blkNo num).2
  | .write blkNo blk => (heatLayer env).storeBlock h blkNo blk
  | .trim blkNo => .ok ((heatLayer env).trimBlock h blkNo)
  | .mark blkNo flag => .ok ((heatLayer env).setupMetaFlag h blkNo flag)

/-- The device after `init_smr_disk`. -/
def freshHeat (data : ℕ → Block) : HeatDev :=
  ⟨(initSmrDisk (freshModule data)).dev, fun _ => 0, fun _ => 0⟩

/-- A run from `init_smr_disk`. -/
def heatRun (env : Env) (data : ℕ → Block) (ops : List DevOp) : Except Fault HeatDev :=
  ops.foldlM (HeatDev.step env) (freshHeat data)

/-! ## The counters are the true numbers, up to a wrap -/

/-- The counters of a free buffer are zero, and those of the others are the true numbers modulo
`2 ^ 32`. -/
structure Counted (d : SmrDev) (reads writes : ℕ → ℕ) : Prop where
  idle : ∀ q ∈ d.buf.freeHddBufs,
    (d.buf.reverseTable q).readCnt = 0 ∧ (d.buf.reverseTable q).writeCnt = 0
  counts : ∀ q < blocksOfHddBuf, q ∉ d.buf.freeHddBufs →
    (d.buf.reverseTable q).readCnt = Int32.ofNat (reads q) ∧
      (d.buf.reverseTable q).writeCnt = Int32.ofNat (writes q)

theorem ofNat_add_weight (env : Env) (d : SmrDev) (blkNo n : ℕ) :
    Int32.ofNat n + 1 + (if d.countsTwice env blkNo then 1 else 0) =
      Int32.ofNat (n + weight env d blkNo) := by
  unfold weight
  split_ifs
  · rw [Int32.ofNat_add, Int32.add_assoc]
    rfl
  · rw [Int32.ofNat_add, Int32.add_zero]
    rfl

/-- Only the meta flag of the block decides. -/
theorem countsTwice_congr {env : Env} {d d' : SmrDev} {blkNo : ℕ}
    (h : (d'.smr.mappingTable blkNo).metaFlag = (d.smr.mappingTable blkNo).metaFlag) :
    d'.countsTwice env blkNo = d.countsTwice env blkNo := by
  unfold SmrDev.countsTwice SmrDev.hasMetaData
  rw [h]

theorem weight_congr {env : Env} {d d' : SmrDev} {blkNo : ℕ}
    (h : (d'.smr.mappingTable blkNo).metaFlag = (d.smr.mappingTable blkNo).metaFlag) :
    weight env d' blkNo = weight env d blkNo := by
  rw [weight, weight, countsTwice_congr h]

namespace Counted

variable {env : Env} {d d' : SmrDev} {reads writes : ℕ → ℕ} {l q : ℕ}

theorem congr (h : Counted d reads writes) (hfree : d'.buf.freeHddBufs = d.buf.freeHddBufs)
    (hrev : d'.buf.reverseTable = d.buf.reverseTable) : Counted d' reads writes := by
  obtain ⟨hidle, hcounts⟩ := h
  refine ⟨?_, ?_⟩
  · rw [hfree, hrev]
    exact hidle
  · rw [hfree, hrev]
    exact hcounts

/-- The entry of one buffer that is not free changes. -/
theorem update {e : HddBufEntry} {r w : ℕ} (h : Counted d reads writes)
    (hfree : d'.buf.freeHddBufs = d.buf.freeHddBufs)
    (hrev : d'.buf.reverseTable = Function.update d.buf.reverseTable q e)
    (hq : q ∉ d.buf.freeHddBufs) (hr : e.readCnt = Int32.ofNat r)
    (hw : e.writeCnt = Int32.ofNat w) :
    Counted d' (Function.update reads q r) (Function.update writes q w) := by
  refine ⟨fun x hx => ?_, fun x hx hx' => ?_⟩
  · rw [hfree] at hx
    have hne : x ≠ q := fun heq => hq (heq ▸ hx)
    rw [hrev, Function.update_of_ne hne]
    exact h.idle x hx
  · rw [hfree] at hx'
    rw [hrev]
    by_cases hne : x = q
    · rw [hne, Function.update_self, Function.update_self, Function.update_self]
      exact ⟨hr, hw⟩
    · rw [Function.update_of_ne hne, Function.update_of_ne hne, Function.update_of_ne hne]
      exact h.counts x hx hx'

/-- A read of a block in a buffer that is not free. -/
theorem readBlockFromHddBuf (h : Counted d reads writes)
    (hq : (d.smr.mappingTable l).paddr ∉ d.buf.freeHddBufs)
    (hlt : (d.smr.mappingTable l).paddr < blocksOfHddBuf) :
    Counted (d.readBlockFromHddBuf env l).2
      (Function.update reads (d.smr.mappingTable l).paddr
        (reads (d.smr.mappingTable l).paddr + weight env d l)) writes := by
  have hrev : (d.readBlockFromHddBuf env l).2.buf.reverseTable =
      Function.update d.buf.reverseTable (d.smr.mappingTable l).paddr
        { d.buf.reverseTable (d.smr.mappingTable l).paddr with
          readCnt := (d.buf.reverseTable (d.smr.mappingTable l).paddr).readCnt + 1 +
            (if d.countsTwice env l then 1 else 0) } := rfl
  obtain ⟨hr, hw⟩ := h.counts _ hlt hq
  have hread : Counted (d.readBlockFromHddBuf env l).2 _ _ :=
    h.update rfl hrev hq (by rw [hr, ofNat_add_weight]) hw
  rwa [Function.update_eq_self] at hread

/-- A write into a buffer that is not free. -/
theorem fillHddBuf (h : Counted d reads writes) (blk : Block) (hq : q ∉ d.buf.freeHddBufs)
    (hlt : q < blocksOfHddBuf) :
    Counted (d.fillHddBuf env l blk q) reads
      (Function.update writes q (writes q + weight env d l)) := by
  have htwice : (SmrDev.setupGlobalMappingEntry
      { d with buf := { d.buf with hddBuf := Function.update d.buf.hddBuf q blk } } l q
        .inHddBuf).countsTwice env l = d.countsTwice env l := by
    refine countsTwice_congr ?_
    change (Function.update d.smr.mappingTable l _ l).metaFlag = _
    rw [Function.update_self]
  have hrev : (d.fillHddBuf env l blk q).buf.reverseTable = Function.update d.buf.reverseTable q
      ⟨l, (d.buf.reverseTable q).readCnt, (d.buf.reverseTable q).writeCnt + 1 +
        (if d.countsTwice env l then 1 else 0)⟩ := by
    rw [← htwice]
    rfl
  obtain ⟨hr, hw⟩ := h.counts q hlt hq
  have hfilled : Counted (d.fillHddBuf env l blk q) _ _ :=
    h.update rfl hrev hq hr (by rw [hw, ofNat_add_weight])
  rwa [Function.update_eq_self] at hfilled

/-- A free buffer is taken from the list: its count starts at zero. -/
theorem getOneFreeBuf (h : Counted d reads writes) (hpos : 0 < d.buf.freeHddBufs.size) :
    Counted d.getOneFreeBuf.2 (Function.update reads d.getOneFreeBuf.1 0)
      (Function.update writes d.getOneFreeBuf.1 0) := by
  have hmem := SortedVector.get_mem hpos
  rw [SmrDev.getOneFreeBuf_eq hpos]
  generalize d.buf.freeHddBufs.get 0 = q at hmem ⊢
  refine ⟨fun x hx => h.idle x (SortedVector.mem_remove.mp hx).1, fun x hx hx' => ?_⟩
  by_cases hne : x = q
  · rw [hne, Function.update_self, Function.update_self]
    exact h.idle q hmem
  · rw [Function.update_of_ne hne, Function.update_of_ne hne]
    exact h.counts x hx fun hmem' => hx' (SortedVector.mem_remove.mpr ⟨hmem', hne⟩)

/-- The counts of a victim are reset, the others stay. -/
theorem swappedOut {c : ℕ → ℕ} (h : Counted d reads writes) (hfull : ∀ q, q ∉ d.buf.freeHddBufs)
    (hs : SmrDev.SwappedOut env d d' c) : Counted d' reads writes := by
  refine ⟨fun x hx => ?_, fun x hx hx' => ?_⟩
  · obtain ⟨i, hi, rfl⟩ := (hs.free x).mp hx
    exact hs.zeroed i hi
  · have hother := (hs.otherBufs x hx fun i hi heq => hx' ((hs.free x).mpr ⟨i, hi, heq⟩)).1
    rw [hother]
    exact h.counts x hx (hfull x)

/-- The counts of a buffer that is given up are reset. -/
theorem reclaimFreeHddBuf (h : Counted d reads writes) :
    Counted (d.reclaimFreeHddBuf l) reads writes := by
  unfold SmrDev.reclaimFreeHddBuf
  split_ifs
  · refine ⟨fun x hx => ?_, fun x hx hx' => ?_⟩
    · change (Function.update d.buf.reverseTable _ _ x).readCnt = 0 ∧
        (Function.update d.buf.reverseTable _ _ x).writeCnt = 0
      by_cases hne : x = (d.smr.mappingTable l).paddr
      · rw [hne, Function.update_self]
        exact ⟨rfl, rfl⟩
      · rw [Function.update_of_ne hne]
        exact h.idle x ((SortedVector.mem_insert.mp hx).resolve_left hne)
    · have hnot := mt SortedVector.mem_insert.mpr hx'
      rw [not_or] at hnot
      change (Function.update d.buf.reverseTable _ _ x).readCnt = _ ∧
        (Function.update d.buf.reverseTable _ _ x).writeCnt = _
      rw [Function.update_of_ne hnot.1]
      exact h.counts x hx hnot.2
  · exact h

end Counted

/-! ## Every operation keeps them -/

/-- The invariant of a run. -/
structure HeatInv (h : HeatDev) : Prop where
  inv : DevInv h.dev
  counted : Counted h.dev h.reads h.writes

section Steps

variable {env : Env} {h : HeatDev} {blkNo : ℕ}

/-- The invariant of the loop of `read_smr_blocks`, before round `i`: only counters have changed. -/
structure NotedLoop (env : Env) (h : HeatDev) (blkNo i : ℕ) (st : (ℕ → Block) × ℕ × SmrDev) :
    Prop where
  mapping : st.2.2.smr.mappingTable = h.dev.smr.mappingTable
  free : st.2.2.buf.freeHddBufs = h.dev.buf.freeHddBufs
  counted : Counted st.2.2
    ((List.range i).foldl (fun reads i => noteRead env h.dev reads (blkNo + i)) h.reads) h.writes

theorem NotedLoop.step (hinv : DevInv h.dev) {i : ℕ} {st : (ℕ → Block) × ℕ × SmrDev}
    (hi : blkNo + i < totalSmrBlocksCnt) (hst : NotedLoop env h blkNo i st) :
    NotedLoop env h blkNo (i + 1) (SmrDev.readRound env blkNo st i) := by
  obtain ⟨buf, noMap, d⟩ := st
  obtain ⟨hmapping, hfree, hcounted⟩ := hst
  dsimp only at hmapping hfree hcounted
  have hbuf : d.inHddBuf (blkNo + i) = h.dev.inHddBuf (blkNo + i) := by
    rw [SmrDev.inHddBuf, SmrDev.inHddBuf, hmapping]
  have hweight : weight env h.dev (blkNo + i) = weight env d (blkNo + i) :=
    weight_congr (by rw [hmapping])
  rw [SmrDev.readRound]
  by_cases hb : d.inHddBuf (blkNo + i) = true
  · have hin := SmrDev.inHddBuf_iff.mp (hbuf ▸ hb)
    obtain ⟨hlt, hq, -⟩ := hinv.buf.fwd _ hi hin
    rw [← hmapping] at hlt hq
    rw [← hfree] at hq
    dsimp only
    rw [if_pos hb]
    refine ⟨hmapping, hfree, ?_⟩
    rw [List.range_succ, List.foldl_append, List.foldl_cons, List.foldl_nil, noteRead,
      if_pos (hbuf ▸ hb), hweight, ← hmapping]
    exact hcounted.readBlockFromHddBuf hq hlt
  · have hcounted' : Counted d ((List.range (i + 1)).foldl
        (fun reads i => noteRead env h.dev reads (blkNo + i)) h.reads) h.writes := by
      rw [List.range_succ, List.foldl_append, List.foldl_cons, List.foldl_nil, noteRead,
        if_neg (hbuf ▸ hb)]
      exact hcounted
    dsimp only
    rw [if_neg hb]
    split_ifs
    · exact ⟨hmapping, hfree, hcounted'.congr rfl rfl⟩
    · exact ⟨hmapping, hfree, hcounted'⟩

theorem HeatInv.notedLoop (hh : HeatInv h) (buf : ℕ → Block) {num : ℕ}
    (hnum : blkNo + num ≤ totalSmrBlocksCnt) : NotedLoop env h blkNo num
      ((List.range num).foldl (SmrDev.readRound env blkNo) (buf, 0, h.dev)) :=
  Outcome.foldl_range (NotedLoop env h blkNo) ⟨rfl, rfl, hh.counted⟩
    fun i hi st hst => hst.step hh.inv (by omega)

/-- **A read** counts every access. -/
theorem HeatInv.readSmrBlocks (hh : HeatInv h) (buf : ℕ → Block) {num : ℕ}
    (hnum : blkNo + num ≤ totalSmrBlocksCnt) : HeatInv (h.readSmrBlocks env buf blkNo num).2 :=
  ⟨(SmrDev.readSmrBlocks_spec env buf hh.inv hnum).1, (hh.notedLoop buf hnum).counted.congr rfl rfl⟩

/-- A buffer for a block that is in none: afterwards its count is zero. -/
theorem Counted.chooseHddBuf {d d' : SmrDev} {reads writes : ℕ → ℕ} {bufNo : ℕ}
    (hc : Counted d reads writes) (hinv : DevInv d) (hb : d.inHddBuf blkNo = false)
    (hok : d.chooseHddBuf env blkNo = .ok (bufNo, d')) :
    Counted d' (Function.update reads bufNo 0) (Function.update writes bufNo 0) := by
  rw [SmrDev.chooseHddBuf, if_neg (by rw [hb]; decide)] at hok
  split_ifs at hok with hfull
  · have hempty : ∀ q, q ∉ d.buf.freeHddBufs := fun q hq =>
      Nat.ne_of_gt (SortedVector.size_pos_iff.mpr ⟨q, hq⟩) (of_decide_eq_true hfull)
    obtain ⟨d₁, hd₁, hok⟩ := bind_eq_ok.mp hok
    obtain ⟨-, -, hpos⟩ := (SmrDev.swapOutColdest_spec env hinv hempty).of_ok hd₁
    obtain ⟨rfl, rfl⟩ := Prod.mk.inj (Except.ok.inj hok)
    exact (hc.swappedOut hempty (SmrDev.swappedOut_of_ok hinv hempty hd₁)).getOneFreeBuf hpos
  · have hpos : 0 < d.buf.freeHddBufs.size :=
      Nat.pos_of_ne_zero fun h0 => hfull (decide_eq_true h0)
    obtain ⟨rfl, rfl⟩ := Prod.mk.inj (Except.ok.inj hok)
    exact hc.getOneFreeBuf hpos

theorem fillHddBuf_paddr (d : SmrDev) (blk : Block) (bufNo : ℕ) :
    ((d.fillHddBuf env blkNo blk bufNo).smr.mappingTable blkNo).paddr = bufNo := by
  change (Function.update d.smr.mappingTable blkNo _ blkNo).paddr = bufNo
  rw [Function.update_self]

/-- A write of a block that is in a buffer. -/
theorem Counted.storeBlock_update {d d' : SmrDev} {reads writes : ℕ → ℕ} {blk : Block}
    (hc : Counted d reads writes) (hinv : DevInv d) (hl : blkNo < totalSmrBlocksCnt)
    (hb : d.inHddBuf blkNo = true) (hok : d.storeBlock env blkNo blk = .ok d') :
    Counted d' reads (Function.update writes (d'.smr.mappingTable blkNo).paddr
      (writes (d'.smr.mappingTable blkNo).paddr + weight env d blkNo)) := by
  rw [SmrDev.storeBlock, if_pos hb, SmrDev.writeBlockIntoHddBuf, SmrDev.chooseHddBuf, if_pos hb]
    at hok
  obtain rfl := Except.ok.inj hok
  obtain ⟨hlt, hq, -⟩ := hinv.buf.fwd _ hl (SmrDev.inHddBuf_iff.mp hb)
  have hhit : Counted { d with buf := { d.buf with hitCnt := d.buf.hitCnt + 1 } } reads writes :=
    hc.congr rfl rfl
  rw [fillHddBuf_paddr]
  exact hhit.fillHddBuf blk hq hlt

/-- A write of a block that is in the SMR area: it is the first access to its buffer. -/
theorem Counted.storeBlock_alloc {d d' : SmrDev} {reads writes : ℕ → ℕ} {blk : Block}
    (hc : Counted d reads writes) (hinv : DevInv d) (hl : blkNo < totalSmrBlocksCnt)
    (hb : d.inHddBuf blkNo = false) (hs : d.inSmrDisk blkNo = true)
    (hok : d.storeBlock env blkNo blk = .ok d') :
    Counted d' (Function.update reads (d'.smr.mappingTable blkNo).paddr 0)
      (Function.update writes (d'.smr.mappingTable blkNo).paddr (weight env d blkNo)) := by
  have hflag := SmrDev.inSmrDisk_iff.mp hs
  have hforget := SmrDev.forgets_invalidate hflag
  have hinv₀ := SmrDev.devInv_invalidate hinv hl hflag
  rw [SmrDev.storeBlock, if_neg (by rw [hb]; decide), if_pos hs, SmrDev.writeBlockIntoHddBuf] at hok
  obtain ⟨⟨bufNo, d₁⟩, hchoose, hok⟩ := bind_eq_ok.mp hok
  obtain rfl := Except.ok.inj hok
  have hready := (SmrDev.chooseHddBuf_spec env hinv₀ hl
    (by rw [hforget.here]; decide)).of_ok hchoose
  have hnotBuf := SmrDev.inHddBuf_invalidate hflag
  have hchosen := (hc.congr (by rw [SmrDev.invalidate_buf hflag])
    (by rw [SmrDev.invalidate_buf hflag])).chooseHddBuf hinv₀ hnotBuf hchoose
  have hcount : Counted (d₁.fillHddBuf env blkNo blk bufNo) _ _ :=
    hchosen.fillHddBuf blk hready.fillable.notFree hready.fillable.lt
  have hweight : weight env d₁ blkNo = weight env d blkNo :=
    weight_congr ((hready.view.metaFlag blkNo).trans (hforget.metaFlag blkNo))
  rw [fillHddBuf_paddr]
  rwa [Function.update_self, Function.update_idem, Nat.zero_add, hweight] at hcount

/-- The first write of a block goes to no buffer. -/
theorem Counted.storeBlock_append {d d' : SmrDev} {reads writes : ℕ → ℕ} {blk : Block}
    (hc : Counted d reads writes) (hinv : DevInv d) (hl : blkNo < totalSmrBlocksCnt)
    (hb : d.inHddBuf blkNo = false) (hs : d.inSmrDisk blkNo = false)
    (hok : d.storeBlock env blkNo blk = .ok d') : Counted d' reads writes := by
  rw [SmrDev.storeBlock, if_neg (by rw [hb]; decide), if_neg (by rw [hs]; decide)] at hok
  have hns : (d.smr.mappingTable blkNo).mappingFlag ≠ .inSmrDisk := fun h => by
    rw [SmrDev.inSmrDisk_iff.mpr h] at hs
    cases hs
  obtain ⟨-, -, ha⟩ := (SmrDev.appendSmrBlocks_spec env _ hinv.stl hinv.log hl hns).of_ok hok
  exact hc.congr (by rw [ha.buf]) (by rw [ha.buf])

/-- **A write** counts the access to its buffer. -/
theorem HeatInv.storeBlock (hh : HeatInv h) (hl : blkNo < totalSmrBlocksCnt) (blk : Block) :
    Meets (PastEndFault env) HeatInv (h.storeBlock env blkNo blk) := by
  have hstore := SmrDev.storeBlock_spec env blk hh.inv hl
  rw [HeatDev.storeBlock]
  cases hok : h.dev.storeBlock env blkNo blk with
  | error e => exact hstore.of_error hok
  | ok d' =>
    have hinv := (hstore.of_ok hok).inv
    rw [ok_bind]
    split_ifs with hb hs
    · exact ⟨hinv, hh.counted.storeBlock_update hh.inv hl hb hok⟩
    · exact ⟨hinv, hh.counted.storeBlock_alloc hh.inv hl (Bool.eq_false_iff.mpr hb) hs hok⟩
    · exact ⟨hinv, hh.counted.storeBlock_append hh.inv hl (Bool.eq_false_iff.mpr hb)
        (Bool.eq_false_iff.mpr hs) hok⟩

/-- **A trim** resets the counts of a buffer that it gives up. -/
theorem HeatInv.trimBlock (hh : HeatInv h) (hl : blkNo < totalSmrBlocksCnt) :
    HeatInv ((heatLayer env).trimBlock h blkNo) := by
  refine ⟨(SmrDev.trimBlock_spec hh.inv hl).1, ?_⟩
  change Counted (h.dev.trimBlock blkNo) h.reads h.writes
  unfold SmrDev.trimBlock
  split_ifs with hb hs
  · exact hh.counted.reclaimFreeHddBuf
  · have hbuf := SmrDev.invalidate_buf (SmrDev.inSmrDisk_iff.mp hs)
    exact hh.counted.congr (by rw [hbuf]) (by rw [hbuf])
  · exact hh.counted

/-- **One operation.** -/
theorem HeatInv.step (hh : HeatInv h) {op : DevOp} (hop : op.InRange) :
    Meets (PastEndFault env) HeatInv (h.step env op) := by
  cases op with
  | read blkNo buf num => exact hh.readSmrBlocks buf hop
  | write blkNo blk => exact hh.storeBlock hop blk
  | trim blkNo => exact hh.trimBlock hop
  | mark blkNo flag =>
    exact ⟨(SmrDev.devInv_setupMetaFlag hh.inv blkNo flag).1, hh.counted.congr rfl rfl⟩

end Steps

/-- After `init_smr_disk` every buffer is free. -/
theorem heatInv_fresh (data : ℕ → Block) : HeatInv (freshHeat data) := by
  obtain ⟨table, bands, bufs, -, -, hbufs, heq⟩ := SmrDev.initTables_eq (freshModule data).dev
  refine ⟨SmrDev.devInv_initTables rfl rfl, ?_⟩
  change Counted (freshModule data).dev.initTables _ _
  rw [heq]
  exact ⟨fun _ _ => ⟨rfl, rfl⟩, fun q hq hq' => absurd ((hbufs q).mpr hq) hq'⟩

/-- **A run keeps the invariant.** -/
theorem heatInv_run {env : Env} (data : ℕ → Block) {ops : List DevOp}
    (hrange : ∀ op ∈ ops, op.InRange) :
    Meets (PastEndFault env) HeatInv (heatRun env data ops) :=
  meets_foldlM HeatInv (heatInv_fresh data) fun op hop _ hh => hh.step (hrange op hop)

/-! ## The meaning of the counters -/

/-- A buffer that holds a block. -/
structure SmrDev.Occupied (d : SmrDev) (q : ℕ) : Prop where
  lt : q < blocksOfHddBuf
  notFree : q ∉ d.buf.freeHddBufs

/-- **The counters keep their meaning**: `get_access_cnt` compares any two occupied buffers as the
true numbers of accesses do, and neither counter nor their sum has wrapped. -/
structure HeatDev.Meaningful (h : HeatDev) : Prop where
  order : ∀ q q', h.dev.Occupied q → h.dev.Occupied q' →
    (h.dev.getAccessCnt q < h.dev.getAccessCnt q' ↔ h.total q < h.total q')
  readCnt : ∀ q, h.dev.Occupied q → (h.dev.buf.reverseTable q).readCnt.toInt = h.reads q
  writeCnt : ∀ q, h.dev.Occupied q → (h.dev.buf.reverseTable q).writeCnt.toInt = h.writes q
  sum : ∀ q, h.dev.Occupied q → (h.dev.getAccessCnt q).toInt = h.total q

/-- `get_access_cnt` gives the true number modulo `2 ^ 32`. -/
theorem HeatInv.getAccessCnt {h : HeatDev} (hh : HeatInv h) {q : ℕ} (hq : h.dev.Occupied q) :
    h.dev.getAccessCnt q = Int32.ofNat (h.total q) := by
  obtain ⟨hr, hw⟩ := hh.counted.counts q hq.lt hq.notFree
  rw [SmrDev.getAccessCnt, HeatDev.total, hr, hw, Int32.ofNat_add, Int32.add_comm]

theorem HeatInv.meaningful_iff {h : HeatDev} (hh : HeatInv h) :
    h.Meaningful ↔ ∀ q, h.dev.Occupied q → h.total q < 2 ^ 31 := by
  constructor
  · intro hm q hq
    have hlt := (h.dev.getAccessCnt q).toInt_lt
    rw [hm.sum q hq] at hlt
    exact_mod_cast hlt
  · intro hsmall
    have hsum : ∀ q, h.dev.Occupied q → (h.dev.getAccessCnt q).toInt = h.total q := fun q hq => by
      rw [hh.getAccessCnt hq, Int32.toInt_ofNat_of_lt (hsmall q hq)]
    refine ⟨fun q q' hq hq' => ?_, fun q hq => ?_, fun q hq => ?_, hsum⟩
    · rw [Int32.lt_iff_toInt_lt, hsum q hq, hsum q' hq']
      exact Nat.cast_lt
    · rw [(hh.counted.counts q hq.lt hq.notFree).1,
        Int32.toInt_ofNat_of_lt ((Nat.le_add_right _ _).trans_lt (hsmall q hq))]
    · rw [(hh.counted.counts q hq.lt hq.notFree).2,
        Int32.toInt_ofNat_of_lt ((Nat.le_add_left _ _).trans_lt (hsmall q hq))]

/-- **The access counts of a run** keep their meaning in a state just when every occupied buffer has
been accessed fewer than `2 ^ 31` times since it was last given to a block. -/
theorem heat_counters_iff (env : Env) (data : ℕ → Block) (ops : List DevOp)
    (hrange : ∀ op ∈ ops, op.InRange) (h : HeatDev) (hrun : heatRun env data ops = .ok h) :
    h.Meaningful ↔ ∀ q, h.dev.Occupied q → h.total q < 2 ^ 31 :=
  ((heatInv_run data hrange).of_ok hrun).meaningful_iff

/-- A run is not stopped by a fault. -/
theorem heatRun_ok {env : Env} (hpast : env.PastEndNotFree) (data : ℕ → Block) {ops : List DevOp}
    (hrange : ∀ op ∈ ops, op.InRange) : ∃ h, heatRun env data ops = .ok h := by
  obtain ⟨h, hrun, -⟩ :=
    (heatInv_run data hrange).exists_ok fun e _ => not_pastEndFault hpast e
  exact ⟨h, hrun⟩

/-- Block 5 is written twice and read. -/
theorem heat_counters_update :
    ∃ h, heatRun ⟨false, false, fun _ => .validPhyBlock⟩ (fun _ => 0)
        [.write 5 0, .write 5 1, .read 5 (fun _ => 0) 1] = .ok h ∧
      (h.Meaningful ↔ ∀ q, h.dev.Occupied q → h.total q < 2 ^ 31) := by
  have hrange : ∀ op ∈ [DevOp.write 5 0, .write 5 1, .read 5 (fun _ => 0) 1], op.InRange := by
    simp [DevOp.InRange, totalSmrBlocksCnt_eq]
  have hpast : Env.PastEndNotFree ⟨false, false, fun _ => .validPhyBlock⟩ := fun _ => by simp
  obtain ⟨h, hrun⟩ := heatRun_ok hpast (fun _ => 0) hrange
  exact ⟨h, hrun, heat_counters_iff _ _ _ hrange h hrun⟩

/-! ## A buffer that is read on and on -/

section Hot

variable {env : Env} {h : HeatDev} {l : ℕ}

/-- The first write of a block. -/
theorem HeatInv.step_append (hpast : env.PastEndNotFree) (hh : HeatInv h)
    (hl : l < totalSmrBlocksCnt) (hnone : h.dev.contents l = none) (blk : Block) :
    ∃ h', h.step env (.write l blk) = .ok h' ∧ HeatInv h' ∧ h'.dev.buf = h.dev.buf ∧
      h'.reads = h.reads ∧ h'.writes = h.writes ∧ h'.dev.inSmrDisk l = true ∧
      ∀ l' < totalSmrBlocksCnt, l' ≠ l → h'.dev.contents l' = h.dev.contents l' := by
  obtain ⟨hb, hs⟩ := SmrDev.contents_eq_none_iff.mp hnone
  have hb' : h.dev.inHddBuf l ≠ true := fun h' => hb (SmrDev.inHddBuf_iff.mp h')
  have hs' : h.dev.inSmrDisk l ≠ true := fun h' => hs (SmrDev.inSmrDisk_iff.mp h')
  obtain ⟨d', hok, -, -, ha⟩ := (SmrDev.appendSmrBlocks_spec env (fun _ => blk) hh.inv.stl hh.inv.log
    hl hs).exists_ok fun e _ => not_pastEndFault hpast e
  have hstore : h.dev.storeBlock env l blk = .ok d' := by
    rw [SmrDev.storeBlock, if_neg hb', if_neg hs']
    exact hok
  have hstep : h.step env (.write l blk) = .ok { h with dev := d' } := by
    change h.storeBlock env l blk = _
    rw [HeatDev.storeBlock, hstore, ok_bind, if_neg hb', if_neg hs']
    rfl
  exact ⟨_, hstep, (hh.step (show (DevOp.write l blk).InRange from hl)).of_ok hstep, ha.buf, rfl,
    rfl, SmrDev.inSmrDisk_iff.mpr ha.here, ha.contents⟩

/-- The second write of a block, while there are free buffers. -/
theorem HeatInv.step_alloc (env : Env) (hh : HeatInv h) (hl : l < totalSmrBlocksCnt)
    (hs : h.dev.inSmrDisk l = true) (hpos : 0 < h.dev.buf.freeHddBufs.size) (blk : Block) :
    ∃ h' q, h.step env (.write l blk) = .ok h' ∧ HeatInv h' ∧ q ∈ h.dev.buf.freeHddBufs ∧
      (∀ x, x ∈ h'.dev.buf.freeHddBufs ↔ x ∈ h.dev.buf.freeHddBufs ∧ x ≠ q) ∧
      h'.reads = Function.update h.reads q 0 ∧
      h'.writes = Function.update h.writes q (weight env h.dev l) ∧
      h'.dev.inHddBuf l = true ∧ (h'.dev.smr.mappingTable l).paddr = q ∧
      ∀ l' < totalSmrBlocksCnt, l' ≠ l → h'.dev.contents l' = h.dev.contents l' := by
  have hflag := SmrDev.inSmrDisk_iff.mp hs
  have hb : h.dev.inHddBuf l ≠ true := fun h' => by
    rw [SmrDev.inHddBuf_iff, hflag] at h'
    cases h'
  have hforget := SmrDev.forgets_invalidate hflag
  have hbuf := SmrDev.invalidate_buf hflag
  have hnot : (h.dev.invalidateMappingEntry l).inHddBuf l ≠ true := fun h' => by
    rw [SmrDev.inHddBuf_iff, hforget.here] at h'
    cases h'
  have hfull : (h.dev.invalidateMappingEntry l).isHddBufFull ≠ true := fun hfull =>
    Nat.ne_of_gt hpos (by rw [← hbuf]; exact of_decide_eq_true hfull)
  rw [← hbuf] at hpos
  have hmem := SortedVector.get_mem hpos
  have hstore : h.dev.storeBlock env l blk =
      .ok ((h.dev.invalidateMappingEntry l).getOneFreeBuf.2.fillHddBuf env l blk
        (h.dev.invalidateMappingEntry l).getOneFreeBuf.1) := by
    rw [SmrDev.storeBlock, if_neg hb, if_pos hs, SmrDev.writeBlockIntoHddBuf, SmrDev.chooseHddBuf,
      if_neg hnot, if_neg hfull]
    rfl
  rw [SmrDev.getOneFreeBuf_eq hpos] at hstore
  generalize (h.dev.invalidateMappingEntry l).buf.freeHddBufs.get 0 = q at hmem hstore
  obtain ⟨d₁, hfree, hstore⟩ : ∃ d₁ : SmrDev, d₁.buf.freeHddBufs =
      (h.dev.invalidateMappingEntry l).buf.freeHddBufs.remove q ∧
        h.dev.storeBlock env l blk = .ok (d₁.fillHddBuf env l blk q) := ⟨_, rfl, hstore⟩
  have hstep : h.step env (.write l blk) = .ok ⟨d₁.fillHddBuf env l blk q,
      Function.update h.reads q 0, Function.update h.writes q (weight env h.dev l)⟩ := by
    change h.storeBlock env l blk = _
    rw [HeatDev.storeBlock, hstore, ok_bind, if_neg hb, if_pos hs, fillHddBuf_paddr]
    rfl
  refine ⟨_, q, hstep, (hh.step (show (DevOp.write l blk).InRange from hl)).of_ok hstep,
    by rw [← hbuf]; exact hmem, fun x => ?_, rfl, rfl, ?_, fillHddBuf_paddr _ _ _,
    ((SmrDev.storeBlock_spec env blk hh.inv hl).of_ok hstore).others⟩
  · rw [← hbuf]
    change x ∈ d₁.buf.freeHddBufs ↔ _
    rw [hfree]
    exact SortedVector.mem_remove
  · rw [SmrDev.inHddBuf_iff]
    change (Function.update d₁.smr.mappingTable l _ l).mappingFlag = MappingFlag.inHddBuf
    rw [Function.update_self]

/-- A block in a buffer is read `n` times. -/
theorem HeatInv.read_replicate (env : Env) (hh : HeatInv h) (hl : l < totalSmrBlocksCnt)
    (hb : h.dev.inHddBuf l = true) (buf : ℕ → Block) (n : ℕ) :
    ∃ h', (List.replicate n (DevOp.read l buf 1)).foldlM (HeatDev.step env) h = .ok h' ∧
      h'.dev.smr.mappingTable = h.dev.smr.mappingTable ∧
      h'.dev.buf.freeHddBufs = h.dev.buf.freeHddBufs ∧
      h'.reads = Function.update h.reads (h.dev.smr.mappingTable l).paddr
        (h.reads (h.dev.smr.mappingTable l).paddr + n * weight env h.dev l) ∧
      h'.writes = h.writes := by
  induction n generalizing h with
  | zero =>
    exact ⟨h, rfl, rfl, rfl, by rw [Nat.zero_mul, Nat.add_zero, Function.update_eq_self], rfl⟩
  | succ n ih =>
    have hnum : l + 1 ≤ totalSmrBlocksCnt := hl
    obtain ⟨hmapping, hfree, -⟩ : NotedLoop env h l 1 _ := hh.notedLoop buf hnum
    have hinv : HeatInv (h.readSmrBlocks env buf l 1).2 := hh.readSmrBlocks buf hnum
    have hreads : (h.readSmrBlocks env buf l 1).2.reads = Function.update h.reads
        (h.dev.smr.mappingTable l).paddr
        (h.reads (h.dev.smr.mappingTable l).paddr + weight env h.dev l) := by
      change noteRead env h.dev h.reads l = _
      rw [noteRead, if_pos hb]
    change (h.readSmrBlocks env buf l 1).2.dev.smr.mappingTable = _ at hmapping
    change (h.readSmrBlocks env buf l 1).2.dev.buf.freeHddBufs = _ at hfree
    have hwrites : (h.readSmrBlocks env buf l 1).2.writes = h.writes := rfl
    have hweight : weight env (h.readSmrBlocks env buf l 1).2.dev l = weight env h.dev l :=
      weight_congr (by rw [hmapping])
    have hstep : h.step env (.read l buf 1) = .ok (h.readSmrBlocks env buf l 1).2 := rfl
    generalize (h.readSmrBlocks env buf l 1).2 = h₁ at *
    obtain ⟨h', hrun, hmapping', hfree', hreads', hwrites'⟩ := ih hinv (by
      rw [SmrDev.inHddBuf, hmapping]
      exact hb)
    refine ⟨h', ?_, hmapping'.trans hmapping, hfree'.trans hfree, ?_, hwrites'.trans hwrites⟩
    · rw [List.replicate_succ, List.foldlM_cons, hstep, ok_bind, hrun]
    · rw [hreads', hmapping, hreads, hweight, Function.update_self, Function.update_idem]
      refine congrArg _ ?_
      ring

end Hot

/-- Blocks 1 and 0 are written twice each, and then block 0 is read `n` times. -/
def hotOps (n : ℕ) : List DevOp :=
  [.write 1 0, .write 1 0, .write 0 0, .write 0 0] ++ List.replicate n (.read 0 (fun _ => 0) 1)

theorem inRange_hotOps (n : ℕ) : ∀ op ∈ hotOps n, op.InRange := by
  intro op hop
  rcases List.mem_append.mp hop with hop | hop
  · simp only [List.mem_cons, List.not_mem_nil, or_false] at hop
    rcases hop with rfl | rfl | rfl | rfl
    all_goals simp [DevOp.InRange, totalSmrBlocksCnt_eq]
  · rw [(List.mem_replicate.mp hop).2]
    simp [DevOp.InRange, totalSmrBlocksCnt_eq]

/-- One buffer has been accessed `n + 1` times and another one once. -/
theorem heatRun_hotOps (n : ℕ) : ∃ h q q',
    heatRun ⟨false, false, fun _ => .validPhyBlock⟩ (fun _ => 0) (hotOps n) = .ok h ∧
      h.dev.Occupied q ∧ h.dev.Occupied q' ∧ h.total q = n + 1 ∧ h.total q' = 1 := by
  have hpast : Env.PastEndNotFree ⟨false, false, fun _ => .validPhyBlock⟩ := fun _ => by simp
  have h0 : 0 < totalSmrBlocksCnt := by
    rw [totalSmrBlocksCnt_eq]
    decide
  have h1 : 1 < totalSmrBlocksCnt := by
    rw [totalSmrBlocksCnt_eq]
    decide
  have hweight : ∀ d l, weight ⟨false, false, fun _ => .validPhyBlock⟩ d l = 1 := fun _ _ => rfl
  have hfresh := heatInv_fresh fun _ => 0
  have hnone : ∀ l < totalSmrBlocksCnt, (freshHeat fun _ => 0).dev.contents l = none :=
    fun l hl => SmrDev.contents_initTables _ hl
  have hall : ∀ q, q ∈ (freshHeat fun _ => 0).dev.buf.freeHddBufs ↔ q < blocksOfHddBuf := by
    obtain ⟨table, bands, bufs, -, -, hbufs, heq⟩ :=
      SmrDev.initTables_eq (freshModule fun _ => 0).dev
    intro q
    change q ∈ (freshModule fun _ => 0).dev.initTables.buf.freeHddBufs ↔ _
    rw [heq]
    exact hbufs q
  rw [blocksOfHddBuf_eq] at hall
  -- Block 1 gets a buffer.
  obtain ⟨a, ha, hha, hbufa, -, -, hsa, hca⟩ := hfresh.step_append hpast h1 (hnone 1 h1) 0
  obtain ⟨b, q', hb, hhb, hq', hfreeb, hrb, hwb, -, -, hcb⟩ :=
    hha.step_alloc ⟨false, false, fun _ => .validPhyBlock⟩ h1 hsa
      (by
        rw [hbufa]
        exact SortedVector.size_pos_iff.mpr ⟨0, (hall 0).mpr (by decide)⟩) 0
  rw [hbufa] at hq' hfreeb
  -- Block 0 gets another one.
  have hnone0 : b.dev.contents 0 = none :=
    ((hcb 0 h0 (by decide)).trans (hca 0 h0 (by decide))).trans (hnone 0 h0)
  obtain ⟨c, hc, hhc, hbufc, hrc, hwc, hsc, -⟩ := hhb.step_append hpast h0 hnone0 0
  obtain ⟨e, q, he, hhe, hq, hfreee, hre, hwe, hin, hpaddr, -⟩ :=
    hhc.step_alloc ⟨false, false, fun _ => .validPhyBlock⟩ h0 hsc
      (by
        rw [hbufc]
        refine SortedVector.size_pos_iff.mpr ?_
        by_cases hzero : q' = 0
        · exact ⟨1, (hfreeb 1).mpr ⟨(hall 1).mpr (by decide), by omega⟩⟩
        · exact ⟨0, (hfreeb 0).mpr ⟨(hall 0).mpr (by decide), Ne.symm hzero⟩⟩) 0
  rw [hbufc] at hq hfreee
  obtain ⟨hqlt, hne⟩ := (hfreeb q).mp hq
  -- It is read on and on.
  obtain ⟨h, hrun, -, hfree, hreads, hwrites⟩ := hhe.read_replicate
    ⟨false, false, fun _ => .validPhyBlock⟩ h0 hin (fun _ => 0) n
  refine ⟨h, q, q', ?_, ⟨?_, ?_⟩, ⟨?_, ?_⟩, ?_, ?_⟩
  · rw [heatRun, hotOps, List.foldlM_append, List.foldlM_cons, ha, ok_bind, List.foldlM_cons, hb,
      ok_bind, List.foldlM_cons, hc, ok_bind, List.foldlM_cons, he, ok_bind, List.foldlM_nil]
    exact hrun
  · rw [blocksOfHddBuf_eq]
    exact (hall q).mp hqlt
  · rw [hfree, hfreee]
    exact fun hmem => hmem.2 rfl
  · rw [blocksOfHddBuf_eq]
    exact (hall q').mp hq'
  · rw [hfree, hfreee, hfreeb]
    exact fun hmem => hmem.1.2 rfl
  · rw [HeatDev.total, hreads, hwrites, hpaddr, Function.update_self, hre, hwe, Function.update_self,
      Function.update_self, hweight, hweight]
    omega
  · rw [HeatDev.total, hreads, hwrites, hpaddr, Function.update_of_ne (Ne.symm hne), hre, hwe,
      Function.update_of_ne (Ne.symm hne), Function.update_of_ne (Ne.symm hne), hrc, hwc, hrb, hwb,
      Function.update_self, Function.update_self, hweight]

/-- **The hottest buffer counts as the coldest.**  The buffer of block 0 has been accessed `2 ^ 31`
times, the other one once. -/
theorem hot_buffer_turns_cold :
    (∀ op ∈ hotOps (2 ^ 31 - 1), op.InRange) ∧ ∃ h q q',
      heatRun ⟨false, false, fun _ => .validPhyBlock⟩ (fun _ => 0) (hotOps (2 ^ 31 - 1)) = .ok h ∧
        h.dev.Occupied q ∧ h.dev.Occupied q' ∧ h.total q' < h.total q ∧
        h.dev.getAccessCnt q < h.dev.getAccessCnt q' ∧ ¬ h.Meaningful := by
  obtain ⟨h, q, q', hrun, hocc, hocc', htotal, htotal'⟩ := heatRun_hotOps (2 ^ 31 - 1)
  have hrange := inRange_hotOps (2 ^ 31 - 1)
  have hinv := (heatInv_run (fun _ => 0) hrange).of_ok hrun
  have hlt : h.total q' < h.total q := by
    rw [htotal, htotal']
    decide
  have hcold : h.dev.getAccessCnt q < h.dev.getAccessCnt q' := by
    rw [hinv.getAccessCnt hocc, hinv.getAccessCnt hocc', htotal, htotal']
    decide
  exact ⟨hrange, h, q, q', hrun, hocc, hocc', hlt, hcold, fun hm =>
    absurd ((hm.order q q' hocc hocc').mp hcold) hlt.not_gt⟩

/-! ## The runs of the module -/

/-- The device of a run, and the same device with the true numbers. -/
def HeatReached (env : Env) (data : ℕ → Block) (d : SmrDev) (h : HeatDev) : Prop :=
  h.dev = d ∧ ∃ ops : List DevOp, (∀ op ∈ ops, op.InRange) ∧ heatRun env data ops = .ok h

theorem HeatReached.step {env : Env} {data : ℕ → Block} {d : SmrDev} {h h' : HeatDev}
    (hr : HeatReached env data d h) {op : DevOp} (hop : op.InRange)
    (hstep : h.step env op = .ok h') : HeatReached env data h'.dev h' := by
  obtain ⟨-, ops, hrange, hrun⟩ := hr
  refine ⟨rfl, ops ++ [op], fun o ho => ?_, ?_⟩
  · rcases List.mem_append.mp ho with ho | ho
    · exact hrange o ho
    · rw [List.mem_singleton.mp ho]
      exact hop
  · rw [heatRun] at hrun ⊢
    rw [List.foldlM_append, hrun, ok_bind, List.foldlM_cons, hstep]
    rfl

/-- The true numbers do not change what the layer does. -/
theorem heatLayer_sim (env : Env) (data : ℕ → Block) :
    LayerSim (smrLayer env) (heatLayer env) (fun _ => False) (HeatReached env data) where
  hasMapping h _ := by
    rw [← h.1]
    rfl
  read {d h} buf {l n} hr hln := by
    obtain rfl := hr.1
    exact ⟨rfl, hr.step (show (DevOp.read l buf n).InRange from hln) rfl⟩
  setupMetaFlag {d h} l flag hr := by
    obtain rfl := hr.1
    exact hr.step (show (DevOp.mark l flag).InRange from trivial) rfl
  trim {d h l} hr hl := by
    obtain rfl := hr.1
    exact hr.step (show (DevOp.trim l).InRange from hl) rfl
  store {d h l} blk hr hl := by
    obtain rfl := hr.1
    change Refines _ _ (h.dev.storeBlock env l blk) (h.storeBlock env l blk)
    cases hok : h.dev.storeBlock env l blk with
    | error e =>
      rw [HeatDev.storeBlock, hok]
      exact refines_error
    | ok d' =>
      obtain ⟨h', hstore, rfl⟩ := HeatDev.storeBlock_ok hok
      rw [hstore]
      exact hr.step (show (DevOp.write l blk).InRange from hl) hstore

/-- **Every run of the module** is a run of reads, writes, trims and marks. -/
theorem runModule_heat {env : Env} {data : ℕ → Block} {ops : List HostOp} {outs : List (List Block)}
    {s : Ext2Sys SmrDev} (hrun : runModule env data ops = .ok (outs, s)) :
    ∃ devOps : List DevOp, (∀ op ∈ devOps, op.InRange) ∧
      ∃ reads writes, heatRun env data devOps = .ok ⟨s.dev, reads, writes⟩ := by
  have hfresh : SysRel (HeatReached env data) (initSmrDisk (freshModule data))
      { initSmrDisk (freshModule data) with dev := freshHeat data } :=
    ⟨⟨rfl, [], fun _ hop => absurd hop List.not_mem_nil, rfl⟩, rfl, rfl, rfl, rfl⟩
  obtain ⟨⟨outs', t⟩, -, -, ht⟩ :=
    ((heatLayer_sim env data).runOps_refines env.aware hfresh ops).ok_of_ok hrun
  obtain ⟨hdev, devOps, hrange, hheat⟩ := ht.dev
  dsimp only at hdev
  exact ⟨devOps, hrange, t.dev.reads, t.dev.writes, by rw [hheat, ← hdev]⟩

end MemSmr
