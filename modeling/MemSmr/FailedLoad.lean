import MemSmr.SaveLoad

/-!
# What a failed load leaves behind

When `load_system_data` fails, `mem_disk_init` calls `init_smr_disk`, which relies on the zeros of static
memory in some of the fields.

* `NoTrace`: two states have the same control data; block data and statistics are left out.
* `ControlReset`: what `init_smr_disk` makes of a module that has just been loaded.
* `noTrace_init_iff`: which fields `init_smr_disk` relies on.
* `loadSmrCtrl_rest`: where `load_smr_ctrl` can fail, and what it has read by then.
* `failed_load_iff`: when a failed load leaves no trace.
-/

namespace MemSmr

open ShortIo IoFile Codec

/-! ## The control data -/

/-- Two states have the same control data; the data of the blocks, the statistics and what lies outside
the three structs are left out.  All other fields are compared, also `vec_len`, `vect_len`, `len` and
`cold_bufs`: the source assigns each of these four before it uses it, but they are fields of the control
structs like the others, and equal states agree on them. -/
structure NoTrace (s t : Ext2Sys SmrDev) : Prop where
  mappingTable : ∀ l < totalSmrBlocksCnt, t.dev.smr.mappingTable l = s.dev.smr.mappingTable l
  smrReverseTable : ∀ p < totalSmrBlocksCnt,
    t.dev.smr.smrReverseTable p = s.dev.smr.smrReverseTable p
  phyBands : ∀ b < totalSmrBandsCnt, t.dev.smr.phyBands b = s.dev.smr.phyBands b
  curPaddr : t.dev.smr.curPaddr = s.dev.smr.curPaddr
  fullyInvalidBands : ∀ b, b ∈ t.dev.smr.fullyInvalidBands ↔ b ∈ s.dev.smr.fullyInvalidBands
  vecLen : t.dev.smr.vecLen = s.dev.smr.vecLen
  reverseTable : ∀ q < blocksOfHddBuf, t.dev.buf.reverseTable q = s.dev.buf.reverseTable q
  coldBufs : ∀ i < swapOutCnt, t.dev.buf.coldBufs i = s.dev.buf.coldBufs i
  freeHddBufs : ∀ q, q ∈ t.dev.buf.freeHddBufs ↔ q ∈ s.dev.buf.freeHddBufs
  vectLen : t.dev.buf.vectLen = s.dev.buf.vectLen
  status : t.metaCtr.status = s.metaCtr.status
  sb0 : t.metaCtr.sb0 = s.metaCtr.sb0
  len : ∀ idx, t.metaCtr.len idx = s.metaCtr.len idx
  metaBlks : ∀ idx x, x ∈ t.metaCtr.metaBlks idx ↔ x ∈ s.metaCtr.metaBlks idx

/-- Nothing is mapped or flagged, all slots and all buffers are free, no access has been counted, and the
detector has seen nothing. -/
structure ControlReset (s : Ext2Sys SmrDev) : Prop where
  curPaddr : s.dev.smr.curPaddr = 0
  slots : ∀ p < totalSmrBlocksCnt, s.dev.smr.smrReverseTable p = ⟨0, .freePhyBlock⟩
  mappings : ∀ l < totalSmrBlocksCnt, s.dev.smr.mappingTable l = ⟨.invalidMapping, 0, 0⟩
  buffers : ∀ q, q ∈ s.dev.buf.freeHddBufs ↔ q < blocksOfHddBuf
  accesses : ∀ q < blocksOfHddBuf, s.dev.buf.reverseTable q = ⟨0, 0, 0⟩
  status : s.metaCtr.status = .noSb0

/-- What `init_smr_disk` does not set in `smr_ctr`. -/
structure CleanSmrCtr (c : SmrCtrData) : Prop where
  metaFlag : ∀ l < totalSmrBlocksCnt, (c.mappingTable l).metaFlag = 0
  curPaddr : c.curPaddr = 0
  vecLen : c.vecLen = 0

/-- What `init_smr_disk` does not set in `buf_ctr`. -/
structure CleanBufCtr (c : HddBufCtrData) : Prop where
  reverseTable : ∀ q < blocksOfHddBuf, c.reverseTable q = ⟨0, 0, 0⟩
  coldBufs : ∀ i < swapOutCnt, c.coldBufs i = 0
  vectLen : c.vectLen = 0

/-- What `init_smr_disk` does not set in `meta_ctr`. -/
structure CleanMetaCtr (c : Ext2MetaCtr) : Prop where
  sb0 : c.sb0 = ⟨0⟩
  len : ∀ idx, c.len idx = 0

theorem cleanSmrCtr_zero : CleanSmrCtr zeroSmrCtr := ⟨fun _ _ => rfl, rfl, rfl⟩

theorem cleanBufCtr_zero : CleanBufCtr zeroBufCtr := ⟨fun _ _ => rfl, fun _ _ => rfl, rfl⟩

theorem cleanMetaCtr_zero : CleanMetaCtr zeroMetaCtr := ⟨rfl, fun _ => rfl⟩

/-- **`init_smr_disk`** sets up the control data of a clean state. -/
theorem controlReset_init {s : Ext2Sys SmrDev} (hsmr : CleanSmrCtr s.dev.smr)
    (hbuf : CleanBufCtr s.dev.buf) : ControlReset (initSmrDisk s) := by
  obtain ⟨table, bands, bufs, htable, -, hbufs, heq⟩ := SmrDev.initTables_eq s.dev
  have hdev : (initSmrDisk s).dev = s.dev.initTables := rfl
  rw [heq] at hdev
  refine ⟨?_, fun p hp => ?_, fun l hl => ?_, fun q => ?_, fun q hq => ?_, rfl⟩
  · rw [hdev]
    exact hsmr.curPaddr
  · rw [hdev]
    exact htable p hp
  · rw [hdev]
    dsimp only
    rw [if_pos hl, hsmr.metaFlag l hl]
  · rw [hdev]
    exact hbufs q
  · rw [hdev]
    exact hbuf.reverseTable q hq

/-- **The fields that `init_smr_disk` relies on.** -/
theorem noTrace_init_iff (data : ℕ → Block) (s : Ext2Sys SmrDev) :
    NoTrace (initSmrDisk (freshModule data)) (initSmrDisk s) ↔
      CleanSmrCtr s.dev.smr ∧ CleanBufCtr s.dev.buf ∧ CleanMetaCtr s.metaCtr := by
  obtain ⟨table, bands, bufs, htable, hbands, hbufs, heq⟩ := SmrDev.initTables_eq s.dev
  obtain ⟨table₀, bands₀, bufs₀, htable₀, hbands₀, hbufs₀, heq₀⟩ :=
    SmrDev.initTables_eq (freshModule data).dev
  have hdev : (initSmrDisk s).dev = s.dev.initTables := rfl
  have hdev₀ : (initSmrDisk (freshModule data)).dev = (freshModule data).dev.initTables := rfl
  rw [heq] at hdev
  rw [heq₀] at hdev₀
  constructor
  · intro h
    refine ⟨⟨fun l hl => ?_, ?_, ?_⟩, ⟨fun q hq => ?_, fun i hi => ?_, ?_⟩, h.sb0, h.len⟩
    · have hmap := h.mappingTable l hl
      rw [hdev, hdev₀] at hmap
      dsimp only at hmap
      rw [if_pos hl, if_pos hl] at hmap
      exact congrArg MappingEntry.metaFlag hmap
    · have hcur := h.curPaddr
      rw [hdev, hdev₀] at hcur
      exact hcur
    · have hlen := h.vecLen
      rw [hdev, hdev₀] at hlen
      exact hlen
    · have hrev := h.reverseTable q hq
      rw [hdev, hdev₀] at hrev
      exact hrev
    · have hcold := h.coldBufs i hi
      rw [hdev, hdev₀] at hcold
      exact hcold
    · have hlen := h.vectLen
      rw [hdev, hdev₀] at hlen
      exact hlen
  · rintro ⟨hsmr, hbuf, hmeta⟩
    have hreset := controlReset_init hsmr hbuf
    have hreset₀ := controlReset_init (s := freshModule data) cleanSmrCtr_zero cleanBufCtr_zero
    refine ⟨fun l hl => (hreset.mappings l hl).trans (hreset₀.mappings l hl).symm,
      fun p hp => (hreset.slots p hp).trans (hreset₀.slots p hp).symm, fun b hb => ?_,
      hreset.curPaddr.trans hreset₀.curPaddr.symm, fun b => ?_, ?_,
      fun q hq => (hreset.accesses q hq).trans (hreset₀.accesses q hq).symm, fun i hi => ?_,
      fun q => (hreset.buffers q).trans (hreset₀.buffers q).symm, ?_, rfl, hmeta.sb0, hmeta.len,
      fun _ _ => Iff.rfl⟩
    · rw [hdev, hdev₀]
      exact (hbands b hb).trans (hbands₀ b hb).symm
    · rw [hdev, hdev₀]
    · rw [hdev, hdev₀]
      exact hsmr.vecLen
    · rw [hdev, hdev₀]
      exact hbuf.coldBufs i hi
    · rw [hdev, hdev₀]
      exact hbuf.vectLen

/-! ## Where a load fails -/

section Ctrl

variable {st : Stray} {junk : ℕ → ℕ → UInt8} {f f' f₁ f₂ : IoFile} {s s' : Ext2Sys SmrDev}
  {got got' : List UInt8}

section Struct

variable {σ α : Type} {c : Codec α}

theorem readStruct_some (hsize : c.size ≠ 0) (get : σ → α) (set : α → σ → σ) (s : σ)
    (h : f.read c.size true = (some got, f₁)) :
    (readStruct c get set).run f s = .ok (f₁, set (c.overlay got (get s)) s) := by
  have hread : f.read ((readStruct c get set).size s) (readStruct c get set).fail.isNone =
    (some got, f₁) := h
  rw [ReadStep.run, if_neg (show ¬(readStruct c get set).size s = 0 from hsize), hread]
  rfl

end Struct

/-- A read of a vector sets the vector, whatever comes; without elements there is no call. -/
theorem loadSortedVector_run {σ : Type} (junk : ℕ → UInt8) (len : σ → ℕ)
    (set : SortedVector → σ → σ) (f : IoFile) (s : σ) :
    ∃ f' v, (loadSortedVector junk len set).run f s = .ok (f', set v s) ∧ (len s = 0 → f' = f) := by
  rw [ReadStep.run]
  split_ifs with hzero
  · exact ⟨f, _, rfl, fun _ => rfl⟩
  · have hlen : len s ≠ 0 := fun h => hzero (by
      change len s * sizeofBlockT = 0
      rw [h, Nat.zero_mul])
    dsimp only
    cases hres : f.read ((loadSortedVector junk len set).size s)
        (loadSortedVector junk len set).fail.isNone with
    | mk got f₁ =>
      cases got with
      | some got => exact ⟨f₁, _, rfl, fun h => absurd h hlen⟩
      | none => exact ⟨f₁, _, rfl, fun h => absurd h hlen⟩

theorem size_bufCtrCodec_ne_zero (st : Stray) : (bufCtrCodec st).size ≠ 0 := by
  rw [size_bufCtrCodec]
  decide

theorem size_metaCtrCodec_ne_zero (st : Stray) : (metaCtrCodec st).size ≠ 0 := by
  rw [size_metaCtrCodec]
  decide

/-- The state after `smr_ctr` has been read. -/
def withSmrCtr (st : Stray) (got : List UInt8) (v : SortedVector) (s : Ext2Sys SmrDev) :
    Ext2Sys SmrDev :=
  s.setSmrCtr { (smrCtrCodec st).overlay got s.dev.smr with fullyInvalidBands := v }

/-- The state after `buf_ctr` has been read, too. -/
def withBufCtr (st : Stray) (got : List UInt8) (v : SortedVector) (s : Ext2Sys SmrDev) :
    Ext2Sys SmrDev :=
  s.setBufCtr { (bufCtrCodec st).overlay got s.dev.buf with freeHddBufs := v }

/-- The first read does not fail. -/
theorem loadSmrCtrl_rest (st : Stray) (junk : ℕ → ℕ → UInt8) (s : Ext2Sys SmrDev)
    (h : f.read (smrCtrCodec st).size true = (some got, f₁)) :
    ∃ f₁' v, (((smrCtrCodec st).overlay got s.dev.smr).vecLen = 0 → f₁' = f₁) ∧
      (∀ f₂, f₁'.read (bufCtrCodec st).size true = (none, f₂) →
        loadSmrCtrl st junk f s = .error (f₂, withSmrCtr st got v s)) ∧
      ∀ got' f₂, f₁'.read (bufCtrCodec st).size true = (some got', f₂) →
        ∀ f' s', loadSmrCtrl st junk f s = .error (f', s') →
          ∃ v', s' = withBufCtr st got' v' (withSmrCtr st got v s) := by
  have hsmr := readStruct_some (size_smrCtrCodec_ne_zero st) (fun s => s.dev.smr)
    (fun c s => s.setSmrCtr c) s h
  obtain ⟨f₁', v, hvect, hsame⟩ := loadSortedVector_run (junk 0) (fun s => s.dev.smr.vecLen)
    (fun v s => s.setSmrCtr { s.dev.smr with fullyInvalidBands := v }) f₁
    (s.setSmrCtr ((smrCtrCodec st).overlay got s.dev.smr))
  have hrun : loadSmrCtrl st junk f s =
      runReads ((loadSmrCtrlSteps st junk).drop 2) f₁' (withSmrCtr st got v s) :=
    (runReads_cons_ok hsmr).trans (runReads_cons_ok hvect)
  refine ⟨f₁', v, hsame, fun f₂ hbuf => ?_, fun got' f₂ hbuf f' s' herror => ?_⟩
  · rw [hrun]
    exact runReads_cons_error (readStruct_none (size_bufCtrCodec_ne_zero st) _ _ _ hbuf)
  · have hread := readStruct_some (size_bufCtrCodec_ne_zero st) (fun s => s.dev.buf)
      (fun c s => s.setBufCtr c) (withSmrCtr st got v s) hbuf
    obtain ⟨f₂', v', hvect', -⟩ := loadSortedVector_run (junk 1) (fun s => s.dev.buf.vectLen)
      (fun v s => s.setBufCtr { s.dev.buf with freeHddBufs := v }) f₂
      ((withSmrCtr st got v s).setBufCtr ((bufCtrCodec st).overlay got' s.dev.buf))
    have hrun' : loadSmrCtrl st junk f s = runReads ((loadSmrCtrlSteps st junk).drop 4) f₂'
        (withBufCtr st got' v' (withSmrCtr st got v s)) :=
      hrun.trans ((runReads_cons_ok hread).trans (runReads_cons_ok hvect'))
    rw [hrun'] at herror
    refine ⟨v', ?_⟩
    cases hmeta : f₂'.read (metaCtrCodec st).size true with
    | mk got'' f₃ =>
      cases got'' with
      | none =>
        have hstop := readStruct_none (size_metaCtrCodec_ne_zero st) (fun s => s.metaCtr)
          (fun c s => s.setMetaCtr c) (withBufCtr st got' v' (withSmrCtr st got v s)) hmeta
        exact (Prod.mk.inj (Except.error.inj
          (herror.symm.trans (runReads_cons_error hstop)))).2
      | some got'' =>
        -- The vectors of `meta_ctr` do not stop the load.
        have hgo := readStruct_some (size_metaCtrCodec_ne_zero st) (fun s => s.metaCtr)
          (fun c s => s.setMetaCtr c) (withBufCtr st got' v' (withSmrCtr st got v s)) hmeta
        have hfail : ∀ step ∈ (loadSmrCtrlSteps st junk).drop 5, step.fail ≠ none := fun step hstep => by
          obtain ⟨idx, -, rfl⟩ := List.mem_map.mp hstep
          exact Option.some_ne_none _
        obtain ⟨f₄, s₄, hvects⟩ := runReads_resumes hfail f₃
          ((withBufCtr st got' v' (withSmrCtr st got v s)).setMetaCtr
            ((metaCtrCodec st).overlay got'' s.metaCtr))
        have hok := herror.symm.trans ((runReads_cons_ok hgo).trans hvects)
        cases hok

end Ctrl

/-! ## The disk image -/

section Disk

variable {f : IoFile} {data : ℕ → Block}
  {res : Except (IoFile × Ext2Sys SmrDev) (IoFile × Ext2Sys SmrDev)}

/-- The disk image has the right size, and no call fails before its end. -/
def DiskComes (f : IoFile) : Prop :=
  f.bytes.length = diskImageSize ∧ f.Comes diskImageSize ext2BlockSize

theorem loadSmrDiskData_isOk {s : Ext2Sys SmrDev} (h : loadSmrDiskData f s = some res) :
    DiskComes f ↔ ∃ p, res = .ok p := by
  rw [loadSmrDiskData] at h
  rw [DiskComes]
  split_ifs at h with hlen
  · obtain rfl := Option.some.inj h
    refine iff_of_false (fun h => hlen h.1) ?_
    rintro ⟨p, hp⟩
    cases hp
  · exact (and_iff_right (not_not.mp hlen)).trans (readLoop_isOk h)

/-- A load of the disk image changes nothing but the data. -/
theorem loadSmrDiskData_fresh (h : loadSmrDiskData f (freshModule data) = some res) :
    ∃ f' data', res = .ok (f', freshModule data') ∨ res = .error (f', freshModule data') := by
  rw [loadSmrDiskData] at h
  split_ifs at h with hlen
  · exact ⟨f, data, Or.inr (Option.some.inj h).symm⟩
  · obtain ⟨f', s', ⟨data', rfl⟩, hres⟩ := readLoop_keeps (P := fun s => ∃ data, s = freshModule data)
      (fun i got s hs => by
        obtain ⟨data, rfl⟩ := hs
        exact ⟨_, rfl⟩) h ⟨data, rfl⟩
    exact ⟨f', data', hres⟩

end Disk

/-! ## A control image that cannot be read on -/

/-- `smr_ctr` of a module that has been used: its frontier has moved on. -/
def movedSmrCtr : SmrCtrData := { zeroSmrCtr with curPaddr := 1 }

theorem movedSmrCtr_fits (st : Stray) : (smrCtrCodec st).Fits movedSmrCtr := by
  have hle : ∀ n, 0 < 256 ^ n := fun n => Nat.pow_pos (by decide)
  have hint : int32.Fits 0 := ⟨by decide, by decide⟩
  have hcnt : (counterCodec st).Fits zeroCounter := counter_fits st (Or.inl rfl)
  exact ⟨fun _ _ => ⟨⟨hle 2, hle 2, trivial, hle 8⟩, rfl⟩, fun _ _ => ⟨⟨hle 8, hle 4, trivial⟩, rfl⟩,
    fun _ _ => ⟨⟨hint, hint, hint⟩, rfl⟩, (by decide : 1 < 256 ^ 8), hcnt, hcnt, trivial, hle 4, trivial⟩

/-- The control image holds `smr_ctr`, and every call after the first fails. -/
def brokenCtrl : IoFile :=
  opened ((smrCtrCodec zeroStray).encode movedSmrCtr) fun i n => if i = 0 then some n else none

theorem brokenCtrl_read : ∃ f₁, brokenCtrl.read (smrCtrCodec zeroStray).size true =
    (some ((smrCtrCodec zeroStray).encode movedSmrCtr), f₁) ∧
      ∀ n, f₁.outcome f₁.calls.length n = none := by
  obtain ⟨bytes, hbytes⟩ : ∃ bytes, (smrCtrCodec zeroStray).encode movedSmrCtr = bytes := ⟨_, rfl⟩
  have hlen := (smrCtrCodec zeroStray).length_encode movedSmrCtr
  rw [brokenCtrl, ← hlen, hbytes]
  have hread : (opened bytes fun i n => if i = 0 then some n else none).read bytes.length true = _ :=
    read_some (k := bytes.length) rfl
  rw [Nat.min_self, rest_opened, List.take_length] at hread
  exact ⟨_, hread, fun n => rfl⟩

/-- The load fails after it has set `cur_paddr`. -/
theorem brokenCtrl_loaded : ∃ r,
    loadSystemData zeroStray (fun _ _ => 0) (some (opened (diskImage (freshModule fun _ => 0)) fullIo))
        (some brokenCtrl) (freshModule fun _ => 0) = some r ∧
      r.ret < 0 ∧ r.sys.dev.smr.curPaddr = 1 := by
  obtain ⟨diskFp, hdisk, -⟩ := loadSmrDiskData_full
    (f := opened (diskImage (freshModule fun _ => 0)) fullIo) (freshModule fun _ => 0) rfl rfl
    (allSound_opened _ _) (length_diskImage _)
  obtain ⟨f₁, hfirst, hfail⟩ := brokenCtrl_read
  obtain ⟨f₁', v, hsame, hstop, -⟩ := loadSmrCtrl_rest zeroStray (fun _ _ => 0)
    (withDisk (diskImage (freshModule fun _ => 0)) (freshModule fun _ => 0)) hfirst
  have hload := (smrCtrCodec zeroStray).load_encode movedSmrCtr
    (withDisk (diskImage (freshModule fun _ => 0)) (freshModule fun _ => 0)).dev.smr
    (movedSmrCtr_fits zeroStray)
  rw [← overlay_full _ _ ((smrCtrCodec zeroStray).length_encode movedSmrCtr)] at hload
  obtain rfl := hsame (vecLen_eq_of_same zeroStray hload)
  exact ⟨_, loadSystemData_of_error hdisk (hstop _ (read_none (hfail _))),
    show (-1 : ℤ) < 0 by decide, hload.2.2.2.1⟩

/-! ## A failed load -/

/-- The first two reads of the control image, if they do not fail, leave the fields alone that
`init_smr_disk` relies on: the bytes that have come are laid over structs that are zero. -/
def CtrlQuiet (st : Stray) (f : IoFile) : Prop :=
  ∀ got f₁, f.read (smrCtrCodec st).size true = (some got, f₁) →
    CleanSmrCtr ((smrCtrCodec st).overlay got zeroSmrCtr) ∧
    ∀ got' f₂, f₁.read (bufCtrCodec st).size true = (some got', f₂) →
      CleanBufCtr ((bufCtrCodec st).overlay got' zeroBufCtr)

section Load

variable {st : Stray} {junk : ℕ → ℕ → UInt8} {data data' : ℕ → Block} {f f' : IoFile}
  {s' : Ext2Sys SmrDev}

theorem cleanSmrCtr_withSmrCtr {got : List UInt8} {v : SortedVector} {s : Ext2Sys SmrDev} :
    CleanSmrCtr (withSmrCtr st got v s).dev.smr ↔
      CleanSmrCtr ((smrCtrCodec st).overlay got s.dev.smr) :=
  ⟨fun h => ⟨h.metaFlag, h.curPaddr, h.vecLen⟩, fun h => ⟨h.metaFlag, h.curPaddr, h.vecLen⟩⟩

theorem cleanBufCtr_withBufCtr {got : List UInt8} {v : SortedVector} {s : Ext2Sys SmrDev} :
    CleanBufCtr (withBufCtr st got v s).dev.buf ↔
      CleanBufCtr ((bufCtrCodec st).overlay got s.dev.buf) :=
  ⟨fun h => ⟨h.reverseTable, h.coldBufs, h.vectLen⟩,
    fun h => ⟨h.reverseTable, h.coldBufs, h.vectLen⟩⟩

/-- The vector of bands has no elements when the first read is quiet, and is not read. -/
theorem ctrlQuiet_iff {f₁ f₁' : IoFile} {got : List UInt8}
    (hfirst : f.read (smrCtrCodec st).size true = (some got, f₁))
    (hsame : ((smrCtrCodec st).overlay got zeroSmrCtr).vecLen = 0 → f₁' = f₁) :
    CtrlQuiet st f ↔ CleanSmrCtr ((smrCtrCodec st).overlay got zeroSmrCtr) ∧
      ∀ got' f₂, f₁'.read (bufCtrCodec st).size true = (some got', f₂) →
        CleanBufCtr ((bufCtrCodec st).overlay got' zeroBufCtr) := by
  constructor
  · intro hquiet
    obtain ⟨hsmr, hbuf⟩ := hquiet got f₁ hfirst
    rw [← hsame hsmr.vecLen] at hbuf
    exact ⟨hsmr, hbuf⟩
  · rintro ⟨hsmr, hbuf⟩ got₂ f₂ hread
    obtain ⟨hgot, rfl⟩ := Prod.mk.inj (hfirst.symm.trans hread)
    obtain rfl := Option.some.inj hgot
    rw [hsame hsmr.vecLen] at hbuf
    exact ⟨hsmr, hbuf⟩

/-- **A load that fails at the control image.** -/
theorem noTrace_loadSmrCtrl_iff
    (h : loadSmrCtrl st junk f (freshModule data') = .error (f', s')) :
    NoTrace (initSmrDisk (freshModule data)) (initSmrDisk s') ↔ CtrlQuiet st f := by
  rw [noTrace_init_iff]
  cases hfirst : f.read (smrCtrCodec st).size true with
  | mk got f₁ =>
    cases got with
    | none =>
      have hs' := (Prod.mk.inj (Except.error.inj (h.symm.trans (loadSmrCtrl_first _ _ _ hfirst)))).2
      rw [hs']
      refine iff_of_true ⟨cleanSmrCtr_zero, cleanBufCtr_zero, cleanMetaCtr_zero⟩ ?_
      intro got f₂ hread
      rw [hfirst] at hread
      cases hread
    | some got =>
      obtain ⟨f₁', v, hsame, hstop, hgo⟩ := loadSmrCtrl_rest st junk (freshModule data') hfirst
      rw [ctrlQuiet_iff hfirst hsame]
      cases hsecond : f₁'.read (bufCtrCodec st).size true with
      | mk got' f₂ =>
        cases got' with
        | none =>
          have hs' := (Prod.mk.inj (Except.error.inj (h.symm.trans (hstop f₂ hsecond)))).2
          rw [hs', cleanSmrCtr_withSmrCtr]
          refine and_congr_right fun _ => iff_of_true ⟨cleanBufCtr_zero, cleanMetaCtr_zero⟩ ?_
          intro got' f₂ hread
          cases hread
        | some got' =>
          obtain ⟨v', rfl⟩ := hgo got' f₂ hsecond f' s' h
          rw [cleanBufCtr_withBufCtr]
          refine and_congr cleanSmrCtr_withSmrCtr ?_
          constructor
          · rintro ⟨hbuf, -⟩ got₂ f₃ hread
            obtain rfl := Option.some.inj (Prod.mk.inj hread).1
            exact hbuf
          · exact fun hall => ⟨hall got' f₂ rfl, cleanMetaCtr_zero⟩

/-- **When a failed load leaves no trace.**  A load that fails before anything is read from the control
image leaves none, and then the first two structs that are read have to be quiet; on a module that has
just been loaded `init_smr_disk` sets up everything. -/
theorem failed_load_iff (st : Stray) (junk : ℕ → ℕ → UInt8) (data : ℕ → Block)
    (disk ctrl : Option IoFile) (r : ImageRun)
    (h : loadSystemData st junk disk ctrl (freshModule data) = some r) (hret : r.ret < 0) :
    ControlReset (initSmrDisk (freshModule data)) ∧
      (NoTrace (initSmrDisk (freshModule data)) (initSmrDisk r.sys) ↔
        ∀ diskFp ∈ disk, DiskComes diskFp → ∀ ctrlFp ∈ ctrl, CtrlQuiet st ctrlFp) := by
  refine ⟨controlReset_init cleanSmrCtr_zero cleanBufCtr_zero, ?_⟩
  have hzero : ∀ data', NoTrace (initSmrDisk (freshModule data)) (initSmrDisk (freshModule data')) :=
    fun data' => (noTrace_init_iff data _).mpr ⟨cleanSmrCtr_zero, cleanBufCtr_zero, cleanMetaCtr_zero⟩
  rcases disk with _ | diskFp
  · obtain rfl := Option.some.inj h
    exact iff_of_true (hzero data) fun _ hdisk => by cases hdisk
  rcases ctrl with _ | ctrlFp
  · obtain rfl := Option.some.inj h
    exact iff_of_true (hzero data) fun _ _ _ _ hctrl => by cases hctrl
  simp only [Option.mem_some_iff, forall_eq']
  rw [loadSystemData, loadOpened] at h
  cases hdisk : loadSmrDiskData diskFp (freshModule data) with
  | none =>
    rw [hdisk] at h
    cases h
  | some res =>
    obtain ⟨diskFp', data', rfl | rfl⟩ := loadSmrDiskData_fresh hdisk
    · rw [hdisk] at h
      dsimp only at h
      have hcomes := (loadSmrDiskData_isOk hdisk).mpr ⟨_, rfl⟩
      cases hctrl : loadSmrCtrl st junk ctrlFp (freshModule data') with
      | ok p =>
        rw [hctrl] at h
        obtain rfl := Option.some.inj h
        cases hret
      | error p =>
        rw [hctrl] at h
        obtain rfl := Option.some.inj h
        rw [noTrace_loadSmrCtrl_iff hctrl]
        exact ⟨fun hquiet _ => hquiet, fun hquiet => hquiet hcomes⟩
    · rw [hdisk] at h
      obtain rfl := Option.some.inj h
      refine iff_of_true (hzero data') fun hcomes => ?_
      obtain ⟨p, hp⟩ := (loadSmrDiskData_isOk hdisk).mp hcomes
      cases hp

end Load

/-- The load of `brokenCtrl`. -/
theorem failed_load_broken : ∃ r,
    loadSystemData zeroStray (fun _ _ => 0) (some (opened (diskImage (freshModule fun _ => 0)) fullIo))
        (some brokenCtrl) (freshModule fun _ => 0) = some r ∧ r.ret < 0 ∧
      ControlReset (initSmrDisk (freshModule fun _ => 0)) ∧
      (NoTrace (initSmrDisk (freshModule fun _ => 0)) (initSmrDisk r.sys) ↔
        ∀ diskFp ∈ some (opened (diskImage (freshModule fun _ => 0)) fullIo), DiskComes diskFp →
          ∀ ctrlFp ∈ some brokenCtrl, CtrlQuiet zeroStray ctrlFp) := by
  obtain ⟨r, hload, hret, -⟩ := brokenCtrl_loaded
  exact ⟨r, hload, hret, failed_load_iff zeroStray (fun _ _ => 0) (fun _ => 0) _ _ r hload hret⟩

/-- **A frontier that is left behind.**  The load sets `cur_paddr` and fails, and `init_smr_disk` does
not reset it. -/
theorem frontier_left_behind : ∃ r,
    loadSystemData zeroStray (fun _ _ => 0) (some (opened (diskImage (freshModule fun _ => 0)) fullIo))
        (some brokenCtrl) (freshModule fun _ => 0) = some r ∧ r.ret < 0 ∧
      (initSmrDisk r.sys).dev.smr.curPaddr = 1 ∧
      ¬ NoTrace (initSmrDisk (freshModule fun _ => 0)) (initSmrDisk r.sys) := by
  obtain ⟨r, hload, hret, hcur⟩ := brokenCtrl_loaded
  obtain ⟨table, bands, bufs, -, -, -, heq⟩ := SmrDev.initTables_eq r.sys.dev
  refine ⟨r, hload, hret, ?_, fun h => ?_⟩
  · change r.sys.dev.initTables.smr.curPaddr = 1
    rw [heq, ← hcur]
  · have hclean := ((noTrace_init_iff _ _).mp h).1.curPaddr
    rw [hcur] at hclean
    cases hclean

end MemSmr
