import MemSmr.MemDisk
import MemSmr.Storable

/-!
# What has been saved is loaded

* `Storable.fits`: the structs of a storable state can be held by their images.
* `ctrlImage`: what `save_smr_ctrl` writes, and `parse_ctrlImage`: what `load_smr_ctrl` finds in it.
* `saveSystemData_sound`, `loadSystemData_sound`: a run whose calls are sound and that returns zero.
* `saved_state_loaded`: what has been saved is loaded.
* `short_transfers_noticed`: zero is returned only for what is complete, if the calls are sound, and
  `empty_image_loaded`: not otherwise.
-/

namespace MemSmr

open ShortIo IoFile Codec

/-! ## Vectors -/

theorem mem_foldl_insert {f : ℕ → ℕ} {n x : ℕ} :
    x ∈ (List.range n).foldl (fun vect i => vect.insert (f i)) SortedVector.create ↔
      ∃ i < n, x = f i := by
  induction n with
  | zero => simp [SortedVector.not_mem_create]
  | succ n ih =>
    rw [List.range_succ, List.foldl_append, List.foldl_cons, List.foldl_nil,
      SortedVector.mem_insert, ih]
    constructor
    · rintro (rfl | ⟨i, hi, rfl⟩)
      · exact ⟨n, Nat.lt_succ_self n, rfl⟩
      · exact ⟨i, Nat.lt_succ_of_lt hi, rfl⟩
    · rintro ⟨i, hi, rfl⟩
      rcases Nat.lt_succ_iff_lt_or_eq.mp hi with hi | rfl
      · exact Or.inr ⟨i, hi, rfl⟩
      · exact Or.inl rfl

theorem blksBytes_eq (blks : List ℕ) : blksBytes blks =
    (List.range blks.length).flatMap fun i => (le sizeofBlockT).encode (blks.getD i 0) := by
  have hblks : blks = (List.range blks.length).map fun i => blks.getD i 0 := by
    refine List.ext_getElem (by simp) fun i hi _ => ?_
    rw [List.getElem_map, List.getElem_range, List.getD_eq_getElem _ _ hi]
  conv_lhs => rw [blksBytes, hblks, List.flatMap_map]
  rfl

theorem length_blksBytes (blks : List ℕ) :
    (blksBytes blks).length = blks.length * sizeofBlockT := by
  rw [blksBytes_eq, length_flatMap_encode]
  rfl

/-- The loop of `load_sorted_vector` finds what `save_sorted_vector` has written. -/
theorem mem_insertBlks (blks : List ℕ) (h : ∀ x ∈ blks, x < 2 ^ 64) {x : ℕ} :
    x ∈ insertBlks blks.length (blksBytes blks) ↔ x ∈ blks := by
  have hentry : ∀ i (hi : i < blks.length),
      ofLe (((blksBytes blks).drop (i * sizeofBlockT)).take sizeofBlockT) = blks[i] := by
    intro i hi
    have htake := take_drop_flatMap (le sizeofBlockT) (fun i => blks.getD i 0) [] hi
    rw [List.append_nil, ← blksBytes_eq] at htake
    have hbound : blks[i] < 256 ^ sizeofBlockT := h _ (List.getElem_mem hi)
    change ((blksBytes blks).drop (i * sizeofBlockT)).take sizeofBlockT =
      leBytes sizeofBlockT _ at htake
    rw [htake, ofLe_leBytes, List.getD_eq_getElem _ _ hi, Nat.mod_eq_of_lt hbound]
  rw [insertBlks, mem_foldl_insert, List.mem_iff_getElem]
  constructor
  · rintro ⟨i, hi, rfl⟩
    exact ⟨i, hi, (hentry i hi).symm⟩
  · rintro ⟨i, hi, rfl⟩
    exact ⟨i, hi, (hentry i hi).symm⟩

/-- The vector that is loaded for one that has been saved. -/
def loadedVect (v : SortedVector) : SortedVector := insertBlks v.size (blksBytes v.toList)

theorem mem_loadedVect {v : SortedVector} (h : ∀ x ∈ v, x < 2 ^ 64) {x : ℕ} :
    x ∈ loadedVect v ↔ x ∈ v := by
  have hmem := mem_insertBlks v.toList (fun x hx => h x (SortedVector.mem_toList.mp hx))
    (x := x)
  rw [SortedVector.length_toList, SortedVector.mem_toList] at hmem
  exact hmem

theorem overJunk_full (junk : ℕ → UInt8) {n : ℕ} {got : List UInt8} (h : got.length = n) :
    overJunk junk n got = got := by
  rw [overJunk, h, Nat.sub_self, List.range'_zero, List.map_nil, List.append_nil]

/-- The module after its length fields have been assigned. -/
def Ext2Sys.assignAll (s : Ext2Sys SmrDev) : Ext2Sys SmrDev :=
  s.assignVecLen.assignVectLen.assignLens

/-! ## The structs fit -/

section Fits

variable (st : Stray)

theorem mappingEntry_fits {e : MappingEntry} (h : e.InRange) (hmeta : e.metaFlag ≤ metaInodeTable) :
    (mappingEntryCodec st).Fits e := by
  have hpaddr : e.paddr < 256 ^ 8 := h.paddr.trans (by rw [totalSmrBlocksCnt_eq]; decide)
  have hcode : e.mappingFlag.code < 256 ^ 2 ∧
      MappingFlag.ofCode e.mappingFlag.code = e.mappingFlag := by
    rcases h.flag with hf | hf | hf <;> rw [hf] <;> exact ⟨by decide, rfl⟩
  exact ⟨⟨hcode.1, lt_of_le_of_lt hmeta (by decide), trivial, hpaddr⟩,
    congrArg (fun f => (⟨f, e.metaFlag, e.paddr⟩ : MappingEntry)) hcode.2⟩

theorem reverseEntry_fits {e : ReverseMappingEntry} (hblk : e.blkNo < totalSmrBlocksCnt)
    (hstatus : e.phyStatus = .freePhyBlock ∨ e.phyStatus = .validPhyBlock ∨
      e.phyStatus = .invalidPhyBlock) : (reverseEntryCodec st).Fits e := by
  have hcode : e.phyStatus.code < 256 ^ 4 ∧ PhyStatus.ofCode e.phyStatus.code = e.phyStatus := by
    rcases hstatus with hf | hf | hf <;> rw [hf] <;> exact ⟨by decide, rfl⟩
  exact ⟨⟨hblk.trans (by rw [totalSmrBlocksCnt_eq]; decide), hcode.1, trivial⟩,
    congrArg (fun f => (⟨e.blkNo, f⟩ : ReverseMappingEntry)) hcode.2⟩

theorem bandInfo_fits {t : ℕ → ReverseMappingEntry} {b : ℕ} {band : BandInfo}
    (h : band = ⟨slotCount t .invalidPhyBlock b, slotCount t .freePhyBlock b,
      slotCount t .validPhyBlock b⟩) : bandInfoCodec.Fits band := by
  have hint : ∀ st, int32.Fits (slotCount t st b : ℤ) := by
    intro st
    have := slotCount_le t st b
    rw [blocksPerBand_eq] at this
    exact ⟨by omega, by omega⟩
  rw [h]
  exact ⟨⟨hint _, hint _, hint _⟩, rfl⟩

theorem counter_fits {c : DsCounter} (h : c.enable = 0 ∨ c.enable = 1) :
    (counterCodec st).Fits c := by
  have hint : int32.Fits c.enable := by
    rcases h with h | h <;> rw [h] <;> exact ⟨by decide, by decide⟩
  refine ⟨⟨hint, trivial, c.readCount.toNat_lt, c.writeCount.toNat_lt⟩, ?_⟩
  show (⟨c.enable, .ofNat c.readCount.toNat, .ofNat c.writeCount.toNat⟩ : DsCounter) = c
  rw [UInt64.ofNat_toNat, UInt64.ofNat_toNat]

theorem access_fits (n : Int32) : accessCodec.Fits n :=
  ⟨⟨n.le_toInt, n.toInt_lt⟩, Int32.ofInt_toInt n⟩

theorem bufEntry_fits {e : HddBufEntry} (h : e.blkNo < totalSmrBlocksCnt) :
    bufEntryCodec.Fits e :=
  ⟨⟨h.trans (by rw [totalSmrBlocksCnt_eq]; decide), access_fits _, access_fits _⟩, rfl⟩

theorem coldBuf_fits {q : ℤ} (h : 0 ≤ q ∧ q < blocksOfHddBuf) : int32.Fits q := by
  rw [blocksOfHddBuf_eq] at h
  exact ⟨by omega, by omega⟩

theorem status_fits {s : MetaStatus} (h : ∀ code, s ≠ .undefined code) : statusCodec.Fits s := by
  have hcode : s.code < 256 ^ 4 ∧ MetaStatus.ofCode s.code = s := by
    cases s with
    | undefined code => exact absurd rfl (h code)
    | _ => exact ⟨by decide, rfl⟩
  exact hcode

variable {s : Ext2Sys SmrDev}

theorem Storable.smrCtr_fits (h : Storable s) :
    (smrCtrCodec st).Fits s.assignAll.dev.smr := by
  have hcur : s.dev.smr.curPaddr < 256 ^ 8 := by
    obtain ⟨hi, hlo, hle, -⟩ := h.inv.stl.frontier
    rw [totalSmrBlocksCnt_eq] at hle
    omega
  have hlen : s.dev.smr.fullyInvalidBands.size < 256 ^ 4 := by
    have hsize : s.dev.smr.fullyInvalidBands.size ≤ (Finset.range totalSmrBandsCnt).card :=
      SortedVector.size_le_card fun b hb =>
        Finset.mem_range.mpr ((h.inv.stl.queue b).mp hb).1
    rw [Finset.card_range, totalSmrBandsCnt_eq] at hsize
    omega
  obtain ⟨hsmr, hhdd, -⟩ := Prod.mk.inj h.ranges.enabled |>.imp_right Prod.mk.inj
  exact ⟨fun l hl => mappingEntry_fits st (h.ranges.mapping l hl) (h.metaFlag l hl),
    fun p hp => reverseEntry_fits st (h.ranges.rev p hp) (h.inv.stl.known p hp),
    fun b hb => bandInfo_fits (h.inv.stl.counts b hb), hcur, counter_fits st (Or.inr hsmr),
    counter_fits st (Or.inr hhdd), trivial, hlen, trivial⟩

theorem Storable.bufCtr_fits (h : Storable s) :
    (bufCtrCodec st).Fits s.assignAll.dev.buf := by
  have hlen : s.dev.buf.freeHddBufs.size < 256 ^ 4 := by
    have hsize : s.dev.buf.freeHddBufs.size ≤ (Finset.range blocksOfHddBuf).card :=
      SortedVector.size_le_card fun q hq => Finset.mem_range.mpr (h.ranges.free q hq)
    rw [Finset.card_range, blocksOfHddBuf_eq] at hsize
    omega
  obtain ⟨-, -, hrw⟩ := Prod.mk.inj h.ranges.enabled |>.imp_right Prod.mk.inj
  exact ⟨fun _ _ => trivial, fun q hq => bufEntry_fits (h.ranges.bufBlk q hq),
    fun i hi => coldBuf_fits (h.ranges.cold i hi), access_fits _, trivial,
    counter_fits st (Or.inr hrw), trivial, hlen, trivial⟩

theorem Storable.metaCtr_fits (h : Storable s) :
    (metaCtrCodec st).Fits s.assignAll.metaCtr := by
  have hlen : ∀ idx, (s.metaCtr.metaBlks idx).size < 256 ^ 4 := fun idx =>
    (h.vects idx).1.trans (by decide)
  have hcnt : (counterCodec st).Fits s.metaCtr.metaRwCnt := by
    rw [h.metaRwCnt]
    exact counter_fits st (Or.inl rfl)
  exact ⟨status_fits h.status, trivial, hcnt, ⟨trivial, rfl⟩,
    ⟨hlen _, hlen _, hlen _, hlen _, hlen _, hlen _⟩,
    trivial, trivial, trivial, trivial, trivial, trivial⟩

end Fits

/-! ## The control image -/

section ControlImage

variable (st : Stray)

/-- What `save_smr_ctrl` writes. -/
def ctrlImage (s : Ext2Sys SmrDev) : List UInt8 :=
  (smrCtrCodec st).encode s.assignAll.dev.smr ++
    (blksBytes s.dev.smr.fullyInvalidBands.toList ++
    ((bufCtrCodec st).encode s.assignAll.dev.buf ++
    (blksBytes s.dev.buf.freeHddBufs.toList ++
    ((metaCtrCodec st).encode s.assignAll.metaCtr ++
    (blksBytes (s.metaCtr.metaBlks .sbIdx).toList ++
    (blksBytes (s.metaCtr.metaBlks .bgDescIdx).toList ++
    (blksBytes (s.metaCtr.metaBlks .inoTableIdx).toList ++
    (blksBytes (s.metaCtr.metaBlks .inoBmpIdx).toList ++
    (blksBytes (s.metaCtr.metaBlks .blkBmpIdx).toList ++
    (blksBytes (s.metaCtr.metaBlks .tmpIdx).toList ++ []))))))))))

theorem image_saveSmrCtrlSteps (s : Ext2Sys SmrDev) :
    image (saveSmrCtrlSteps st) s = (ctrlImage st s, s.assignAll) := rfl

section Pieces

variable {σ α : Type} {steps : List (ReadStep σ)}

/-- A struct is found where it has been written. -/
theorem parse_readStruct {c d : Codec α} (hlike : LoadsLike d c) {get : σ → α} (set : α → σ → σ)
    {a : α} (b : α) (tail : List UInt8) {s : σ} (hload : c.load (c.encode a) (get s) = b) :
    parse (readStruct d get set :: steps) (c.encode a ++ tail) s = parse steps tail (set b s) := by
  have hlen : (c.encode a).length = d.size := (c.length_encode a).trans hlike.size.symm
  rw [parse_cons rfl hlen, ← hload, ← hlike.load, ← d.overlay_full (get s) hlen]
  rfl

/-- A vector is found where it has been written, if the length is the right one. -/
theorem parse_loadSortedVector (junk : ℕ → UInt8) {len : σ → ℕ} (set : SortedVector → σ → σ)
    {v : SortedVector} (tail : List UInt8) {s : σ} (hlen : len s = v.size) :
    parse (loadSortedVector junk len set :: steps) (blksBytes v.toList ++ tail) s =
      parse steps tail (set (loadedVect v) s) := by
  have hbytes : (blksBytes v.toList).length = len s * sizeofBlockT := by
    rw [length_blksBytes, SortedVector.length_toList, hlen]
  rw [parse_cons rfl hbytes]
  change parse steps tail (set (insertBlks (len s) (overJunk junk _ _)) s) = _
  rw [overJunk_full junk hbytes, hlen]
  rfl

end Pieces

/-- Two states agree in all that the control image holds. -/
structure SameCtrl (s t : Ext2Sys SmrDev) : Prop where
  mappingTable : ∀ l < totalSmrBlocksCnt, t.dev.smr.mappingTable l = s.dev.smr.mappingTable l
  smrReverseTable : ∀ p < totalSmrBlocksCnt,
    t.dev.smr.smrReverseTable p = s.dev.smr.smrReverseTable p
  phyBands : ∀ b < totalSmrBandsCnt, t.dev.smr.phyBands b = s.dev.smr.phyBands b
  curPaddr : t.dev.smr.curPaddr = s.dev.smr.curPaddr
  smrCnt : t.dev.smr.smrCnt = s.dev.smr.smrCnt
  hddCnt : t.dev.smr.hddCnt = s.dev.smr.hddCnt
  fullyInvalidBands : ∀ b, b ∈ t.dev.smr.fullyInvalidBands ↔ b ∈ s.dev.smr.fullyInvalidBands
  hddBuf : ∀ q < blocksOfHddBuf, t.dev.buf.hddBuf q = s.dev.buf.hddBuf q
  reverseTable : ∀ q < blocksOfHddBuf, t.dev.buf.reverseTable q = s.dev.buf.reverseTable q
  coldBufs : ∀ i < swapOutCnt, t.dev.buf.coldBufs i = s.dev.buf.coldBufs i
  hitCnt : t.dev.buf.hitCnt = s.dev.buf.hitCnt
  rwCounter : t.dev.buf.rwCounter = s.dev.buf.rwCounter
  freeHddBufs : ∀ q, q ∈ t.dev.buf.freeHddBufs ↔ q ∈ s.dev.buf.freeHddBufs
  status : t.metaCtr.status = s.metaCtr.status
  metaRwCnt : t.metaCtr.metaRwCnt = s.metaCtr.metaRwCnt
  sb0 : t.metaCtr.sb0 = s.metaCtr.sb0
  metaBlks : ∀ idx x, x ∈ t.metaCtr.metaBlks idx ↔ x ∈ s.metaCtr.metaBlks idx

/-- What `load_smr_ctrl` makes of the control image of `s`, from the state `t`. -/
def loadedCtrl (s t : Ext2Sys SmrDev) : Ext2Sys SmrDev :=
  let smr := (smrCtrCodec st).load ((smrCtrCodec st).encode s.assignAll.dev.smr) t.dev.smr
  let buf := (bufCtrCodec st).load ((bufCtrCodec st).encode s.assignAll.dev.buf) t.dev.buf
  let ctr := (metaCtrCodec st).load ((metaCtrCodec st).encode s.assignAll.metaCtr) t.metaCtr
  let t := t.setSmrCtr { smr with fullyInvalidBands := loadedVect s.dev.smr.fullyInvalidBands }
  let t := t.setBufCtr { buf with freeHddBufs := loadedVect s.dev.buf.freeHddBufs }
  t.setMetaCtr { ctr with metaBlks := fun idx => loadedVect (s.metaCtr.metaBlks idx) }

variable {s : Ext2Sys SmrDev}

theorem data_loadedCtrl (s t : Ext2Sys SmrDev) : (loadedCtrl st s t).dev.data = t.dev.data := rfl

/-- What is loaded is what has been saved. -/
theorem sameCtrl_loadedCtrl (h : Storable s) (t : Ext2Sys SmrDev) :
    SameCtrl s (loadedCtrl st s t) := by
  obtain ⟨hmap, hrev, hbands, hcur, hsmrCnt, hhddCnt, -⟩ :=
    (smrCtrCodec st).load_encode _ t.dev.smr (h.smrCtr_fits st)
  obtain ⟨hhddBuf, htable, hcold, hhit, -, hrw, -⟩ :=
    (bufCtrCodec st).load_encode _ t.dev.buf (h.bufCtr_fits st)
  obtain ⟨hstatus, -, hmetaCnt, hsb0, -⟩ :=
    (metaCtrCodec st).load_encode _ t.metaCtr (h.metaCtr_fits st)
  refine ⟨hmap, hrev, hbands, hcur, hsmrCnt, hhddCnt, fun b => mem_loadedVect fun b hb => ?_,
    hhddBuf, htable, hcold, hhit, hrw, fun q => mem_loadedVect fun q hq => ?_, hstatus, hmetaCnt,
    hsb0, fun idx x => mem_loadedVect (h.vects idx).2⟩
  · exact ((h.inv.stl.queue b).mp hb).1.trans (by rw [totalSmrBandsCnt_eq]; decide)
  · exact (h.ranges.free q hq).trans (by rw [blocksOfHddBuf_eq]; decide)

theorem vecLen_eq_of_same {c d : SmrCtrData} (h : (smrCtrCodec st).Same c d) :
    c.vecLen = d.vecLen := h.2.2.2.2.2.2.2.1

theorem vectLen_eq_of_same {c d : HddBufCtrData} (h : (bufCtrCodec st).Same c d) :
    c.vectLen = d.vectLen := h.2.2.2.2.2.2.2.1

theorem len_eq_of_same {c d : Ext2MetaCtr} (h : (metaCtrCodec st).Same c d)
    (idx : MetaVectIndex) : c.len idx = d.len idx := by
  obtain ⟨-, -, -, -, ⟨h₀, h₁, h₂, h₃, h₄, h₅⟩, -⟩ := h
  cases idx with
  | sbIdx => exact h₀
  | bgDescIdx => exact h₁
  | inoTableIdx => exact h₂
  | inoBmpIdx => exact h₃
  | blkBmpIdx => exact h₄
  | tmpIdx => exact h₅

/-- **What `load_smr_ctrl` finds in the control image** of a state is the state. -/
theorem parse_ctrlImage (h : Storable s) (st' : Stray) (junk : ℕ → ℕ → UInt8) (tail : List UInt8)
    (t : Ext2Sys SmrDev) : parse (loadSmrCtrlSteps st' junk) (ctrlImage st s ++ tail) t =
      some (loadedCtrl st s t, tail) := by
  obtain ⟨smr, hsmr⟩ : ∃ c,
    (smrCtrCodec st).load ((smrCtrCodec st).encode s.assignAll.dev.smr) t.dev.smr = c := ⟨_, rfl⟩
  obtain ⟨buf, hbuf⟩ : ∃ c,
    (bufCtrCodec st).load ((bufCtrCodec st).encode s.assignAll.dev.buf) t.dev.buf = c := ⟨_, rfl⟩
  obtain ⟨ctr, hctr⟩ : ∃ c,
    (metaCtrCodec st).load ((metaCtrCodec st).encode s.assignAll.metaCtr) t.metaCtr = c := ⟨_, rfl⟩
  have hvecLen := vecLen_eq_of_same st
    ((smrCtrCodec st).load_encode _ t.dev.smr (h.smrCtr_fits st))
  have hvectLen := vectLen_eq_of_same st
    ((bufCtrCodec st).load_encode _ t.dev.buf (h.bufCtr_fits st))
  have hlen := len_eq_of_same st
    ((metaCtrCodec st).load_encode _ t.metaCtr (h.metaCtr_fits st))
  rw [hsmr] at hvecLen
  rw [hbuf] at hvectLen
  rw [hctr] at hlen
  rw [ctrlImage, loadedCtrl, hsmr, hbuf, hctr]
  simp only [List.append_assoc, List.nil_append]
  refine (parse_readStruct (smrCtr_like st' st) _ smr _ ?_).trans ?_
  · exact hsmr
  refine (parse_loadSortedVector (junk 0) _ _ ?_).trans ?_
  · exact hvecLen
  refine (parse_readStruct (bufCtr_like st' st) _ buf _ ?_).trans ?_
  · exact hbuf
  refine (parse_loadSortedVector (junk 1) _ _ ?_).trans ?_
  · exact hvectLen
  refine (parse_readStruct (metaCtr_like st' st) _ ctr _ ?_).trans ?_
  · exact hctr
  refine (parse_loadSortedVector (junk 2) _ _ ?_).trans ?_
  · exact hlen .sbIdx
  refine (parse_loadSortedVector (junk 3) _ _ ?_).trans ?_
  · exact hlen .bgDescIdx
  refine (parse_loadSortedVector (junk 4) _ _ ?_).trans ?_
  · exact hlen .inoTableIdx
  refine (parse_loadSortedVector (junk 5) _ _ ?_).trans ?_
  · exact hlen .inoBmpIdx
  refine (parse_loadSortedVector (junk 6) _ _ ?_).trans ?_
  · exact hlen .blkBmpIdx
  refine (parse_loadSortedVector (junk 7) _ _ ?_).trans ?_
  · exact hlen .tmpIdx
  have hblks : ∀ f : MetaVectIndex → SortedVector,
      Function.update (Function.update (Function.update (Function.update (Function.update
        (Function.update ctr.metaBlks .sbIdx (f .sbIdx)) .bgDescIdx (f .bgDescIdx)) .inoTableIdx
        (f .inoTableIdx)) .inoBmpIdx (f .inoBmpIdx)) .blkBmpIdx (f .blkBmpIdx)) .tmpIdx
        (f .tmpIdx) = f := by
    intro f
    funext idx
    cases idx <;> rfl
  rw [← hblks fun idx => loadedVect (s.metaCtr.metaBlks idx)]
  rfl

end ControlImage

/-! ## The disk image -/

/-- What `save_smr_disk_data` writes. -/
def diskImage (s : Ext2Sys SmrDev) : List UInt8 :=
  (List.range totalSmrBlocksCnt).flatMap fun i => blockCodec.encode (s.dev.data i)

theorem size_blockCodec : blockCodec.size = ext2BlockSize := by
  rw [blockCodec]
  rfl

theorem length_encode_block (b : Block) : (blockCodec.encode b).length = ext2BlockSize :=
  (blockCodec.length_encode b).trans size_blockCodec

theorem length_diskImage (s : Ext2Sys SmrDev) : (diskImage s).length = diskImageSize := by
  rw [diskImage, length_flatMap_encode, diskImageSize_eq, size_blockCodec]

/-- The blocks of `bytes` are the data of the device. -/
def withDisk (bytes : List UInt8) (s : Ext2Sys SmrDev) : Ext2Sys SmrDev :=
  putBlocks ext2BlockSize (fun i got s => s.setData i (blockCodec.overlay got (s.dev.data i))) bytes
    totalSmrBlocksCnt s

theorem withDisk_eq (bytes : List UInt8) (s : Ext2Sys SmrDev) :
    withDisk bytes s = { s with dev := { s.dev with
      data := fun i =>
        if i < totalSmrBlocksCnt then
          blockCodec.overlay ((bytes.drop (i * ext2BlockSize)).take ext2BlockSize) (s.dev.data i)
        else s.dev.data i } } := by
  rw [withDisk]
  generalize totalSmrBlocksCnt = m
  induction m with
  | zero => simp [putBlocks]
  | succ m ih =>
    rw [putBlocks_succ, ih, Ext2Sys.setData]
    simp only [lt_irrefl, if_false]
    congr 2
    funext i
    by_cases him : i = m
    · rw [him, Function.update_self, if_pos (Nat.lt_succ_self m)]
    · rw [Function.update_of_ne him]
      simp only [show i < m + 1 ↔ i < m by omega]

/-- **What `load_smr_disk_data` finds in the disk image** of a state are the data of the state. -/
theorem data_withDisk_diskImage (s t : Ext2Sys SmrDev) {p : ℕ} (hp : p < totalSmrBlocksCnt) :
    (withDisk (diskImage s) t).dev.data p = s.dev.data p := by
  have hslice := take_drop_flatMap blockCodec s.dev.data [] hp
  rw [List.append_nil, ← diskImage, size_blockCodec] at hslice
  rw [withDisk_eq]
  dsimp only
  rw [if_pos hp, hslice, overlay_full _ _ (blockCodec.length_encode _)]
  exact blockCodec.load_encode _ _ trivial

section Disk

variable {f f' : IoFile} {s s' : Ext2Sys SmrDev}

theorem ext2BlockSize_pos : 0 < ext2BlockSize := by decide

/-- A save of the disk whose calls are sound. -/
theorem saveSmrDiskData_sound (h : saveSmrDiskData f s = some (.ok f')) (hsound : f'.AllSound)
    (hpos : f.pos = 0) : f'.done = diskImage s ∧ f'.pos = diskImageSize ∧
      (f.bytes.length ≤ diskImageSize → f'.bytes = diskImage s) := by
  rw [saveSmrDiskData, diskImageSize_eq] at h
  obtain ⟨h1, h2, h3, h4⟩ := writeLoop_sound ext2BlockSize_pos
    (fun i => length_encode_block _) h hsound (by rw [hpos, Nat.zero_mul]) (Nat.zero_le _)
    (by rw [hpos]; exact Nat.zero_le _) (by rw [done, hpos]; rfl)
  rw [← diskImageSize_eq] at h2 h4
  refine ⟨h1, h2, fun hlen => ?_⟩
  rw [← show f'.done = f'.bytes from List.take_of_length_le (by rw [h2]; exact h4 hlen)]
  exact h1

/-- A save of the disk when every call transfers what it is asked for. -/
theorem saveSmrDiskData_full (s : Ext2Sys SmrDev) (hout : f.outcome = fullIo) (hpos : f.pos = 0)
    (hsound : f.AllSound) : ∃ f', saveSmrDiskData f s = some (.ok f') ∧ f'.AllSound := by
  rw [saveSmrDiskData, diskImageSize_eq]
  obtain ⟨f', hf', hall⟩ := writeLoop_full (m := totalSmrBlocksCnt) (i := 0) ext2BlockSize_pos
    (fun i => length_encode_block (s.dev.data i)) hout (by rw [hpos, Nat.zero_mul]) (Nat.zero_le _)
    (by rw [Nat.sub_zero]; exact Nat.lt_succ_self _)
  exact ⟨f', hf', hall hsound⟩

/-- A load of the disk whose calls are sound. -/
theorem loadSmrDiskData_sound (h : loadSmrDiskData f s = some (.ok (f', s'))) (hsound : f'.AllSound)
    (hpos : f.pos = 0) : f.bytes.length = diskImageSize ∧ s' = withDisk f.bytes s := by
  rw [loadSmrDiskData] at h
  split_ifs at h with hlen
  · cases h
  · refine ⟨not_not.mp hlen, ?_⟩
    rw [diskImageSize_eq] at h
    exact readLoop_sound ext2BlockSize_pos h hsound (by rw [hpos, Nat.zero_mul]) (Nat.zero_le _) rfl

/-- A load of the disk when every call transfers what it is asked for. -/
theorem loadSmrDiskData_full (s : Ext2Sys SmrDev) (hout : f.outcome = fullIo) (hpos : f.pos = 0)
    (hsound : f.AllSound) (hlen : f.bytes.length = diskImageSize) :
    ∃ f', loadSmrDiskData f s = some (.ok (f', withDisk f.bytes s)) ∧ f'.AllSound := by
  have hload : ∃ f' s', loadSmrDiskData f s = some (.ok (f', s')) ∧ f'.AllSound := by
    rw [loadSmrDiskData, if_neg (not_not_intro hlen), diskImageSize_eq]
    rw [diskImageSize_eq] at hlen
    have hfuel : totalSmrBlocksCnt - 0 < totalSmrBlocksCnt + 1 := by
      rw [Nat.sub_zero]
      exact Nat.lt_succ_self _
    obtain ⟨f', s', hf', hall⟩ := readLoop_full
      (fun i got s => s.setData i (blockCodec.overlay got (s.dev.data i))) s ext2BlockSize_pos hout
      (by rw [hpos, Nat.zero_mul]) (Nat.zero_le _) hlen hfuel
    exact ⟨f', s', hf', hall hsound⟩
  obtain ⟨f', s', hf', hall⟩ := hload
  obtain ⟨-, rfl⟩ := loadSmrDiskData_sound hf' hall hpos
  exact ⟨f', hf', hall⟩

end Disk

/-! ## Both images -/

/-- All the calls of a run were sound. -/
structure ImageRun.AllSound (r : ImageRun) : Prop where
  disk : ∀ f ∈ r.disk, f.AllSound
  ctrl : ∀ f ∈ r.ctrl, f.AllSound

section Both

variable {st : Stray} {junk : ℕ → ℕ → UInt8} {disk ctrl : List UInt8}
  {diskIo ctrlIo : ℕ → ℕ → Option ℕ} {s : Ext2Sys SmrDev} {r : ImageRun}

/-- **A save whose calls are sound** and that returns zero has written both images. -/
theorem saveSystemData_sound
    (h : saveSystemData st (some (opened disk diskIo)) (some (opened ctrl ctrlIo)) s = some r)
    (hret : r.ret = 0) (hsound : r.AllSound) :
    ∃ diskFp ctrlFp, r.disk = some diskFp ∧ r.ctrl = some ctrlFp ∧ r.sys = s.assignAll ∧
      diskFp.bytes.take diskImageSize = diskImage s ∧
      (disk.length ≤ diskImageSize → diskFp.bytes = diskImage s) ∧
      ∃ tail, ctrlFp.bytes = ctrlImage st s ++ tail := by
  obtain ⟨diskFp, ctrlFp, hdisk, hctrl, hdiskFp, hctrlFp⟩ := saveSystemData_zero h hret
  obtain ⟨hdone, hpos, hbytes⟩ := saveSmrDiskData_sound hdisk (hsound.disk _ hdiskFp) rfl
  obtain ⟨-, hs', hctrlDone, -⟩ :=
    runWrites_sound hctrl (hsound.ctrl _ hctrlFp) (Nat.zero_le _)
  rw [image_saveSmrCtrlSteps, show (opened ctrl ctrlIo).done = [] from rfl, List.nil_append]
    at hctrlDone
  rw [image_saveSmrCtrlSteps] at hs'
  dsimp only at hctrlDone
  refine ⟨diskFp, ctrlFp, hdiskFp, hctrlFp, hs', ?_, hbytes, ctrlFp.bytes.drop ctrlFp.pos, ?_⟩
  · rw [← hpos]
    exact hdone
  · rw [← hctrlDone, done, List.take_append_drop]

/-- A save when every call transfers what it is asked for. -/
theorem saveSystemData_full (st : Stray) (disk ctrl : List UInt8) (s : Ext2Sys SmrDev) :
    ∃ r, saveSystemData st (some (opened disk fullIo)) (some (opened ctrl fullIo)) s = some r ∧
      r.ret = 0 ∧ r.AllSound := by
  obtain ⟨diskFp, hdisk, hdiskSound⟩ := saveSmrDiskData_full (f := opened disk fullIo) s rfl rfl
    (allSound_opened _ _)
  obtain ⟨ctrlFp, hctrl, hctrlSound⟩ := runWrites_full (saveSmrCtrlSteps st) s
    (f := opened ctrl fullIo) rfl
  refine ⟨_, saveSystemData_of_ok hdisk hctrl, rfl, ⟨?_, ?_⟩⟩
  · intro f hf
    rw [← Option.some.inj hf]
    exact hdiskSound
  · intro f hf
    rw [← Option.some.inj hf]
    exact hctrlSound (allSound_opened _ _)

/-- **A load whose calls are sound** and that returns zero has found a whole disk image and a whole
control image. -/
theorem loadSystemData_sound
    (h : loadSystemData st junk (some (opened disk diskIo)) (some (opened ctrl ctrlIo)) s = some r)
    (hret : r.ret = 0) (hsound : r.AllSound) :
    disk.length = diskImageSize ∧
      ∃ tail, parse (loadSmrCtrlSteps st junk) ctrl (withDisk disk s) = some (r.sys, tail) := by
  obtain ⟨diskFp, ctrlFp, s₁, hdisk, hctrl, hdiskFp, hctrlFp⟩ := loadSystemData_zero h hret
  obtain ⟨hlen, rfl⟩ := loadSmrDiskData_sound hdisk (hsound.disk _ hdiskFp) rfl
  exact ⟨hlen, _, (runReads_sound hctrl (hsound.ctrl _ hctrlFp)).2⟩

/-- A load when every call transfers what it is asked for. -/
theorem loadSystemData_full (hdisk : disk.length = diskImageSize) {s' : Ext2Sys SmrDev}
    {tail : List UInt8}
    (hctrl : parse (loadSmrCtrlSteps st junk) ctrl (withDisk disk s) = some (s', tail)) :
    ∃ r, loadSystemData st junk (some (opened disk fullIo)) (some (opened ctrl fullIo)) s = some r ∧
      r.ret = 0 ∧ r.sys = s' ∧ r.AllSound := by
  obtain ⟨diskFp, hload, hdiskSound⟩ := loadSmrDiskData_full (f := opened disk fullIo) s rfl rfl
    (allSound_opened _ _) hdisk
  obtain ⟨ctrlFp, hrun, hctrlSound⟩ := runReads_full (f := opened ctrl fullIo) rfl hctrl
  refine ⟨_, loadSystemData_of_ok hload hrun, rfl, rfl, ⟨?_, ?_⟩⟩
  · intro f hf
    rw [← Option.some.inj hf]
    exact hdiskSound
  · intro f hf
    rw [← Option.some.inj hf]
    exact hctrlSound (allSound_opened _ _)

end Both

/-- Two states agree in all that the two images hold. -/
structure SameState (s t : Ext2Sys SmrDev) : Prop extends SameCtrl s t where
  data : ∀ p < totalSmrBlocksCnt, t.dev.data p = s.dev.data p

/-- A save of `s` into two files, and a load by a fresh module of what the files hold then, return
zero and give `s` back. -/
def RoundTrip (st st' : Stray) (junk : ℕ → ℕ → UInt8) (data : ℕ → Block) (disk ctrl : List UInt8)
    (s : Ext2Sys SmrDev) : Prop :=
  ∃ saved diskFp ctrlFp loaded,
    saveSystemData st (some (opened disk fullIo)) (some (opened ctrl fullIo)) s = some saved ∧
    saved.ret = 0 ∧ saved.disk = some diskFp ∧ saved.ctrl = some ctrlFp ∧
    loadSystemData st' junk (some (opened diskFp.bytes fullIo)) (some (opened ctrlFp.bytes fullIo))
      (freshModule data) = some loaded ∧
    loaded.ret = 0 ∧ SameState s loaded.sys

/-- **What has been saved is loaded**, into an absent or full-size disk image and any control image,
from every state that fits into its types.  These are all states of the module, and those of its later
lives are among them. -/
theorem saved_state_loaded :
    (∀ s, Reached s → Storable s) ∧
      ∀ s, Storable s → ∀ (st st' : Stray) (junk : ℕ → ℕ → UInt8) (data : ℕ → Block)
        (disk ctrl : List UInt8), disk = [] ∨ disk.length = diskImageSize →
          RoundTrip st st' junk data disk ctrl s := by
  refine ⟨fun s hs => hs.storable, fun s hs st st' junk data disk ctrl hdisk => ?_⟩
  obtain ⟨saved, hsave, hret, hsound⟩ := saveSystemData_full st disk ctrl s
  obtain ⟨diskFp, ctrlFp, hdiskFp, hctrlFp, -, -, hbytes, tail, htail⟩ :=
    saveSystemData_sound hsave hret hsound
  have hlen : disk.length ≤ diskImageSize := by
    rcases hdisk with rfl | hdisk
    · exact Nat.zero_le _
    · exact hdisk.le
  have hdiskBytes := hbytes hlen
  have hctrl := parse_ctrlImage st hs st' junk tail
    (withDisk (diskImage s) (freshModule data))
  rw [← hdiskBytes, ← htail] at hctrl
  obtain ⟨loaded, hload, hret', hsys, -⟩ := loadSystemData_full
    (by rw [hdiskBytes, length_diskImage]) hctrl
  refine ⟨saved, diskFp, ctrlFp, loaded, hsave, hret, hdiskFp, hctrlFp, hload, hret', ?_⟩
  rw [hsys, hdiskBytes]
  refine ⟨sameCtrl_loadedCtrl st hs _, fun p hp => ?_⟩
  rw [data_loadedCtrl]
  exact data_withDisk_diskImage s _ hp

/-- Zeros in the gaps of the structs. -/
def zeroStray : Stray := ⟨0, 0, 0, fun _ => 0⟩

/-- A module that has detected the small file system. -/
theorem detected_reached : ∃ s, Reached s ∧ s.metaCtr.status = .ext2Detected := by
  let seg : Segment :=
    ⟨0, 48, fun i => [smallSuperBlk 0, smallDescBlk, smallBmpBlk, 0, 0, 0].getD i 0, true⟩
  have hwrite : (freshArray.writeSmrBlocks arrayLayer true seg.bufs seg.firstBlk).toOption.any
      (fun t => decide (t.metaCtr.status = .ext2Detected)) = true := by decide +kernel
  obtain ⟨t, ht, hstatus⟩ := Outcome.ok_of_any hwrite
  obtain ⟨s, hs, hst⟩ := ((smrLayer_sim awareEnv).writeSmrBlocks_refines true
    (shows_init fun _ => 0) seg.bufs seg.firstBlk).ok_of_ok_right
      (not_pastEndFault awareEnv_pastEndNotFree) ht
  have hacc : checkBlockSize seg.sector seg.nsect = true := by
    rw [checkBlockSize]
    decide
  refine ⟨_, (Reached.init fun _ => 0).transfer awareEnv (doDataTransfer_write hacc rfl hs), ?_⟩
  exact (congrArg Ext2MetaCtr.status hst.metaCtr).trans (of_decide_eq_true hstatus)

/-- The state after a detection is saved over a control image that is longer than what is written. -/
theorem saved_state_loaded_detected : ∃ s ctrl, s.metaCtr.status = .ext2Detected ∧
    (ctrlImage zeroStray s).length < ctrl.length ∧
      RoundTrip zeroStray zeroStray (fun _ _ => 0) (fun _ => 0) [] ctrl s := by
  obtain ⟨s, hs, hstatus⟩ := detected_reached
  refine ⟨s, List.replicate ((ctrlImage zeroStray s).length + 1) 0xAA, hstatus, ?_,
    saved_state_loaded.2 s (saved_state_loaded.1 s hs) _ _ _ _ _ _ (Or.inl rfl)⟩
  rw [List.length_replicate]
  exact Nat.lt_succ_self _

/-! ## Short transfers -/

section Short

variable {st : Stray} {junk : ℕ → ℕ → UInt8} {disk ctrl : List UInt8}
  {diskIo ctrlIo : ℕ → ℕ → Option ℕ} {s : Ext2Sys SmrDev}

theorem length_ctrlImage_pos (st : Stray) (s : Ext2Sys SmrDev) : 0 < (ctrlImage st s).length := by
  rw [ctrlImage, List.length_append, (smrCtrCodec st).length_encode, size_smrCtrCodec]
  exact Nat.lt_of_lt_of_le (by decide) (Nat.le_add_right _ _)

/-- What is left of a control image when its end is missing is not a control image. -/
theorem parse_incomplete (hs : Storable s) (st' : Stray) {ctrl tail : List UInt8} (htail : tail ≠ [])
    (h : ctrl ++ tail = ctrlImage st s) (t : Ext2Sys SmrDev) :
    parse (loadSmrCtrlSteps st' junk) ctrl t = none := by
  cases hparse : parse (loadSmrCtrlSteps st' junk) ctrl t with
  | none => rfl
  | some p =>
    obtain ⟨t', rest⟩ := p
    have hlonger := parse_append hparse tail
    have hwhole := parse_ctrlImage st hs st' junk [] t
    rw [List.append_nil, ← h, hlonger] at hwhole
    have hrest := (Prod.mk.inj (Option.some.inj hwhole)).2
    exact absurd (List.append_eq_nil_iff.mp hrest).2 htail

/-- The end of a save: zero only if both files hold the state. -/
def SavesAll (st : Stray) (s : Ext2Sys SmrDev) (r : ImageRun) : Prop :=
  r.ret = 0 → ∃ diskFp ctrlFp, r.disk = some diskFp ∧ r.ctrl = some ctrlFp ∧
    diskFp.bytes.take diskImageSize = diskImage s ∧ ∃ tail, ctrlFp.bytes = ctrlImage st s ++ tail

/-- The end of a load: zero only if the disk image was whole and its blocks are the data, and the
control image was whole and its pieces are the control structs.  So what `save_smr_ctrl` writes does
not do when its end is missing. -/
def LoadsAll (st : Stray) (junk : ℕ → ℕ → UInt8) (disk ctrl : List UInt8) (s : Ext2Sys SmrDev)
    (r : ImageRun) : Prop :=
  r.ret = 0 → disk.length = diskImageSize ∧
    (∃ tail, parse (loadSmrCtrlSteps st junk) ctrl (withDisk disk s) = some (r.sys, tail)) ∧
    ∀ st' t, Storable t → ∀ tail, tail ≠ [] → ctrl ++ tail ≠ ctrlImage st' t

/-- **When every call transfers what it is asked for, or fails and is checked**, zero is returned
only for what is complete. -/
theorem short_transfers_noticed (st : Stray) (junk : ℕ → ℕ → UInt8) (disk ctrl : List UInt8)
    (diskIo ctrlIo : ℕ → ℕ → Option ℕ) (s : Ext2Sys SmrDev) (r : ImageRun) (hsound : r.AllSound) :
    (saveSystemData st (some (opened disk diskIo)) (some (opened ctrl ctrlIo)) s = some r →
      SavesAll st s r) ∧
    (loadSystemData st junk (some (opened disk diskIo)) (some (opened ctrl ctrlIo)) s = some r →
      LoadsAll st junk disk ctrl s r) := by
  refine ⟨fun h hret => ?_, fun h hret => ?_⟩
  · obtain ⟨diskFp, ctrlFp, hdiskFp, hctrlFp, -, hdisk, -, hctrl⟩ :=
      saveSystemData_sound h hret hsound
    exact ⟨diskFp, ctrlFp, hdiskFp, hctrlFp, hdisk, hctrl⟩
  · obtain ⟨hdisk, tail, hctrl⟩ := loadSystemData_sound h hret hsound
    refine ⟨hdisk, ⟨tail, hctrl⟩, fun st' t ht tail' htail heq => ?_⟩
    rw [parse_incomplete ht st htail heq] at hctrl
    cases hctrl

/-! Where `load_smr_ctrl` stops at its first read. -/

theorem readStruct_none {σ α : Type} {c : Codec α} {f f₁ : IoFile} (hsize : c.size ≠ 0)
    (get : σ → α) (set : α → σ → σ) (s : σ) (h : f.read c.size true = (none, f₁)) :
    (readStruct c get set).run f s = .error (f₁, s) := by
  have hread : f.read ((readStruct c get set).size s) (readStruct c get set).fail.isNone =
    (none, f₁) := h
  rw [ReadStep.run, if_neg (show ¬(readStruct c get set).size s = 0 from hsize), hread]
  rfl

theorem size_smrCtrCodec_ne_zero (st : Stray) : (smrCtrCodec st).size ≠ 0 := by
  rw [size_smrCtrCodec]
  decide

/-- The first read fails. -/
theorem loadSmrCtrl_first (st : Stray) (junk : ℕ → ℕ → UInt8) (s : Ext2Sys SmrDev) {f f₁ : IoFile}
    (h : f.read (smrCtrCodec st).size true = (none, f₁)) :
    loadSmrCtrl st junk f s = .error (f₁, s) :=
  runReads_cons_error (readStruct_none (size_smrCtrCodec_ne_zero st) _ _ s h)

/-- A load whose control image cannot be read gives up, and has noticed it. -/
theorem loadSystemData_first (st : Stray) (junk : ℕ → ℕ → UInt8) {disk : List UInt8}
    (hlen : disk.length = diskImageSize) (ctrl : List UInt8) (s : Ext2Sys SmrDev) :
    ∃ r, loadSystemData st junk (some (opened disk fullIo))
      (some (opened ctrl fun _ _ => none)) s = some r ∧ r.AllSound ∧ r.ret = -1 := by
  obtain ⟨diskFp, hload, hdiskSound⟩ := loadSmrDiskData_full (f := opened disk fullIo) s rfl rfl
    (allSound_opened _ _) hlen
  have hfail := loadSystemData_of_error hload (loadSmrCtrl_first st junk (withDisk disk s)
    (f := opened ctrl fun _ _ => none) (read_none rfl))
  refine ⟨_, hfail, ⟨fun f hf => ?_, fun f hf => ?_⟩, rfl⟩
  · rw [← Option.some.inj hf]
    exact hdiskSound
  · rw [← Option.some.inj hf]
    exact List.forall_mem_cons.mpr ⟨Or.inr ⟨rfl, rfl⟩, fun _ h => absurd h List.not_mem_nil⟩

/-- A save after a detection and a load of what it has written, when every call transfers what it is
asked for; and a load that gives up, because the first read of the control image fails. -/
theorem short_transfers_noticed_both : ∃ s saved diskFp ctrlFp loaded failed,
    s.metaCtr.status = .ext2Detected ∧
    saveSystemData zeroStray (some (opened [] fullIo)) (some (opened [] fullIo)) s = some saved ∧
    saved.AllSound ∧ saved.ret = 0 ∧ SavesAll zeroStray s saved ∧
    saved.disk = some diskFp ∧ saved.ctrl = some ctrlFp ∧
    loadSystemData zeroStray (fun _ _ => 0) (some (opened diskFp.bytes fullIo))
      (some (opened ctrlFp.bytes fullIo)) (freshModule fun _ => 0) = some loaded ∧
    loaded.AllSound ∧ loaded.ret = 0 ∧
    LoadsAll zeroStray (fun _ _ => 0) diskFp.bytes ctrlFp.bytes (freshModule fun _ => 0) loaded ∧
    loadSystemData zeroStray (fun _ _ => 0) (some (opened diskFp.bytes fullIo))
      (some (opened ctrlFp.bytes fun _ _ => none)) (freshModule fun _ => 0) = some failed ∧
    failed.AllSound ∧ failed.ret = -1 ∧
    LoadsAll zeroStray (fun _ _ => 0) diskFp.bytes ctrlFp.bytes (freshModule fun _ => 0) failed := by
  obtain ⟨s, hs, hstatus⟩ := detected_reached
  obtain ⟨saved, hsave, hret, hsound⟩ := saveSystemData_full zeroStray [] [] s
  obtain ⟨diskFp, ctrlFp, hdiskFp, hctrlFp, -, -, hbytes, tail, htail⟩ :=
    saveSystemData_sound hsave hret hsound
  have hdisk := hbytes (Nat.zero_le _)
  have hlen : diskFp.bytes.length = diskImageSize := by rw [hdisk, length_diskImage]
  have hparse := parse_ctrlImage zeroStray hs.storable zeroStray (fun _ _ => 0) tail
    (withDisk diskFp.bytes (freshModule fun _ => 0))
  rw [← htail] at hparse
  obtain ⟨loaded, hload, hret', -, hsound'⟩ := loadSystemData_full hlen hparse
  obtain ⟨failed, hfail, hfailSound, hfailRet⟩ := loadSystemData_first zeroStray (fun _ _ => 0) hlen
    ctrlFp.bytes (freshModule fun _ => 0)
  exact ⟨s, saved, diskFp, ctrlFp, loaded, failed, hstatus, hsave, hsound, hret,
    (short_transfers_noticed zeroStray (fun _ _ => 0) [] [] fullIo fullIo s saved hsound).1 hsave,
    hdiskFp, hctrlFp, hload, hsound', hret',
    (short_transfers_noticed zeroStray _ _ _ fullIo fullIo _ loaded hsound').2 hload,
    hfail, hfailSound, hfailRet,
    (short_transfers_noticed zeroStray _ _ _ fullIo (fun _ _ => none) _ failed hfailSound).2 hfail⟩

/-- **An empty control image is taken for a whole one.**  Every read gets nothing, which is not
negative. -/
theorem empty_image_loaded :
    let s := initSmrDisk (freshModule fun _ => 0)
    ([] : List UInt8) ++ ctrlImage zeroStray s = ctrlImage zeroStray s ∧
      ctrlImage zeroStray s ≠ [] ∧
      ∃ r, loadSystemData zeroStray (fun _ _ => 0) (some (opened (diskImage s) fullIo))
        (some (opened [] fullIo)) (freshModule fun _ => 0) = some r ∧ r.ret = 0 ∧
        ¬ LoadsAll zeroStray (fun _ _ => 0) (diskImage s) [] (freshModule fun _ => 0) r := by
  intro s
  have hne : ctrlImage zeroStray s ≠ [] := List.ne_nil_of_length_pos (length_ctrlImage_pos _ _)
  refine ⟨List.nil_append _, hne, ?_⟩
  obtain ⟨diskFp, hdisk, -⟩ := loadSmrDiskData_full (f := opened (diskImage s) fullIo)
    (freshModule fun _ => 0) rfl rfl (allSound_opened _ _) (length_diskImage s)
  obtain ⟨ctrlFp, s', hctrl⟩ := runReads_of_no_error (f := opened [] fullIo)
    (loadSmrCtrlSteps zeroStray fun _ _ => 0) (withDisk (diskImage s) (freshModule fun _ => 0))
    fun _ _ => Option.some_ne_none _
  refine ⟨_, loadSystemData_of_ok hdisk hctrl, rfl, fun hall => ?_⟩
  exact (hall rfl).2.2 zeroStray s (Reached.storable (.init _)) _ hne (List.nil_append _)

end Short

end MemSmr
