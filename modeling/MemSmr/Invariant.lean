import MemSmr.HddBuf

/-!
# The invariants of the translation layer

* `slotCount`: the number of slots of a band with a given status.
* `StlInv s lo`: the two maps of the SMR area are inverse, the band counters and the queue of fully
  invalid bands are exact, and the free slots are those from `lo` to the end of a band.  Between
  two operations `lo` is `cur_paddr`; while a slot is being filled it is one behind.
* `BufInv d F`: the buffers outside `F` and the blocks in the buffer name each other.  Between two
  operations `F` is `free_hdd_bufs`.
* `LogInv`: every recorded moment was as it should be, and `cur_paddr` is one past the slot handed
  out last.
* `contents`: the block that a read of the device finds, if there is one.
-/

namespace MemSmr

/-! ## Slots of a band -/

/-- The number of slots of band `b` with status `st`. -/
def slotCount (table : ℕ → ReverseMappingEntry) (st : PhyStatus) (b : ℕ) : ℕ :=
  Nat.count (fun i => (table (b * blocksPerBand + i)).phyStatus = st) blocksPerBand

section SlotCount

variable {table table' : ℕ → ReverseMappingEntry} {st : PhyStatus} {b p : ℕ}
  {e : ReverseMappingEntry}

theorem slotCount_le (table : ℕ → ReverseMappingEntry) (st : PhyStatus) (b : ℕ) :
    slotCount table st b ≤ blocksPerBand := by
  rw [slotCount]
  exact Nat.count_le _

theorem slotCount_congr
    (h : ∀ i < blocksPerBand, (table (b * blocksPerBand + i)).phyStatus = st ↔
      (table' (b * blocksPerBand + i)).phyStatus = st) :
    slotCount table st b = slotCount table' st b := by
  rw [slotCount, slotCount, Slots.count_congr h]

theorem slotCount_eq_zero
    (h : ∀ i < blocksPerBand, (table (b * blocksPerBand + i)).phyStatus ≠ st) :
    slotCount table st b = 0 := by
  rw [slotCount, Nat.count_of_forall_not h]

/-- A slot is found in its band. -/
theorem band_add_slot (p : ℕ) : p / blocksPerBand * blocksPerBand + p % blocksPerBand = p :=
  Nat.div_add_mod' p blocksPerBand

theorem blocksPerBand_pos : 0 < blocksPerBand := by
  rw [blocksPerBand_eq]
  decide

theorem slot_lt (p : ℕ) : p % blocksPerBand < blocksPerBand := Nat.mod_lt p blocksPerBand_pos

/-- A slot of another band. -/
theorem band_add_ne {i : ℕ} (hb : b ≠ p / blocksPerBand) (hi : i < blocksPerBand) :
    b * blocksPerBand + i ≠ p := by
  rw [blocksPerBand_eq] at *
  omega

/-- Another slot of the same band. -/
theorem slot_ne {i : ℕ} (hi : i ≠ p % blocksPerBand) :
    p / blocksPerBand * blocksPerBand + i ≠ p := by
  rw [blocksPerBand_eq] at *
  omega

theorem slotCount_update_of_ne (hb : b ≠ p / blocksPerBand) :
    slotCount (Function.update table p e) st b = slotCount table st b :=
  slotCount_congr fun i hi => by rw [Function.update_of_ne (band_add_ne hb hi)]

theorem slotCount_update_same (h : (table p).phyStatus = st ↔ e.phyStatus = st) :
    slotCount (Function.update table p e) st b = slotCount table st b := by
  refine slotCount_congr fun i _ => ?_
  by_cases hp : b * blocksPerBand + i = p
  · rw [hp, Function.update_self, h]
  · rw [Function.update_of_ne hp]

theorem slotCount_update_gain (h0 : (table p).phyStatus ≠ st) (h1 : e.phyStatus = st) :
    slotCount (Function.update table p e) st (p / blocksPerBand) =
      slotCount table st (p / blocksPerBand) + 1 := by
  rw [slotCount, slotCount]
  refine Slots.count_succ_of_gain (slot_lt p) ?_ ?_ fun i _ hi => ?_
  · rwa [band_add_slot]
  · rwa [band_add_slot, Function.update_self]
  · rw [Function.update_of_ne (slot_ne hi)]

theorem slotCount_update_loss (h0 : (table p).phyStatus = st) (h1 : e.phyStatus ≠ st) :
    slotCount table st (p / blocksPerBand) =
      slotCount (Function.update table p e) st (p / blocksPerBand) + 1 := by
  rw [slotCount, slotCount]
  refine Slots.count_of_loss (slot_lt p) ?_ ?_ fun i _ hi => ?_
  · rwa [band_add_slot]
  · rwa [band_add_slot, Function.update_self]
  · rw [Function.update_of_ne (slot_ne hi)]

theorem forall_status_of_slotCount_eq (h : slotCount table st b = blocksPerBand) {i : ℕ}
    (hi : i < blocksPerBand) : (table (b * blocksPerBand + i)).phyStatus = st := by
  rw [slotCount] at h
  exact Nat.count_iff_forall.mp h i hi

theorem slotCount_pos (h : (table p).phyStatus = st) :
    0 < slotCount table st (p / blocksPerBand) := by
  rw [slotCount]
  exact Nat.pos_of_ne_zero
    (Nat.count_ne_iff_exists.mpr ⟨_, slot_lt p, by rwa [band_add_slot]⟩)

/-- The three counts of a band make up the band. -/
theorem slotCount_sum (table : ℕ → ReverseMappingEntry) (b : ℕ)
    (h : ∀ i < blocksPerBand, (table (b * blocksPerBand + i)).phyStatus = .freePhyBlock ∨
      (table (b * blocksPerBand + i)).phyStatus = .validPhyBlock ∨
      (table (b * blocksPerBand + i)).phyStatus = .invalidPhyBlock) :
    slotCount table .freePhyBlock b + slotCount table .validPhyBlock b +
      slotCount table .invalidPhyBlock b = blocksPerBand := by
  rw [slotCount, slotCount, slotCount]
  exact Slots.count_add_count_add_count h (fun _ h1 h2 => absurd (h1.symm.trans h2) (by decide))
    (fun _ h1 h2 => absurd (h1.symm.trans h2) (by decide))
    (fun _ h1 h2 => absurd (h1.symm.trans h2) (by decide))

end SlotCount

/-! ## The SMR area -/

/-- The invariant of the SMR area; `lo` is the first free slot. -/
structure StlInv (s : SmrCtrData) (lo : ℕ) : Prop where
  fwd : ∀ l < totalSmrBlocksCnt, (s.mappingTable l).mappingFlag = .inSmrDisk →
    (s.mappingTable l).paddr < totalSmrBlocksCnt ∧
      s.smrReverseTable (s.mappingTable l).paddr = ⟨l, .validPhyBlock⟩
  rev : ∀ p < totalSmrBlocksCnt, ∀ l, s.smrReverseTable p = ⟨l, .validPhyBlock⟩ →
    l < totalSmrBlocksCnt ∧ (s.mappingTable l).mappingFlag = .inSmrDisk ∧
      (s.mappingTable l).paddr = p
  known : ∀ p < totalSmrBlocksCnt, (s.smrReverseTable p).phyStatus = .freePhyBlock ∨
    (s.smrReverseTable p).phyStatus = .validPhyBlock ∨
    (s.smrReverseTable p).phyStatus = .invalidPhyBlock
  counts : ∀ b < totalSmrBandsCnt, s.phyBands b =
    ⟨slotCount s.smrReverseTable .invalidPhyBlock b, slotCount s.smrReverseTable .freePhyBlock b,
      slotCount s.smrReverseTable .validPhyBlock b⟩
  queue : ∀ b, b ∈ s.fullyInvalidBands ↔
    b < totalSmrBandsCnt ∧ slotCount s.smrReverseTable .invalidPhyBlock b = blocksPerBand
  frontier : ∃ hi, lo ≤ hi ∧ hi ≤ totalSmrBlocksCnt ∧ hi % blocksPerBand = 0 ∧
    ∀ p < totalSmrBlocksCnt, (s.smrReverseTable p).phyStatus = .freePhyBlock ↔ lo ≤ p ∧ p < hi

theorem bands_mul_blocks : totalSmrBandsCnt * blocksPerBand = totalSmrBlocksCnt := by
  rw [totalSmrBandsCnt_eq, totalSmrBlocksCnt_eq, blocksPerBand_eq]

/-- The band of a slot. -/
theorem band_lt {p : ℕ} (hp : p < totalSmrBlocksCnt) : p / blocksPerBand < totalSmrBandsCnt := by
  simp only [totalSmrBandsCnt_eq, totalSmrBlocksCnt_eq, blocksPerBand_eq] at *
  omega

/-- A slot of a band. -/
theorem band_add_lt {b i : ℕ} (hb : b < totalSmrBandsCnt) (hi : i < blocksPerBand) :
    b * blocksPerBand + i < totalSmrBlocksCnt := by
  simp only [totalSmrBandsCnt_eq, totalSmrBlocksCnt_eq, blocksPerBand_eq] at *
  omega

theorem band_add_div {b i : ℕ} (hi : i < blocksPerBand) :
    (b * blocksPerBand + i) / blocksPerBand = b := by
  rw [blocksPerBand_eq] at *
  omega

namespace StlInv

variable {s : SmrCtrData} {lo : ℕ}

/-- The invariant speaks of the tables, the bands and the queue. -/
theorem congr {s' : SmrCtrData} (h : StlInv s lo) (hmap : s'.mappingTable = s.mappingTable)
    (hrev : s'.smrReverseTable = s.smrReverseTable) (hbands : s'.phyBands = s.phyBands)
    (hqueue : s'.fullyInvalidBands = s.fullyInvalidBands) : StlInv s' lo := by
  obtain ⟨h1, h2, h3, h4, h5, h6⟩ := h
  constructor
  all_goals
    simp only [hmap, hrev, hbands, hqueue]
    assumption

theorem lo_le (h : StlInv s lo) : lo ≤ totalSmrBlocksCnt := by
  obtain ⟨hi, h1, h2, -⟩ := h.frontier
  exact Nat.le_trans h1 h2

/-- A slot below the end of the device is free when the frontier is inside a band. -/
theorem free_lo (h : StlInv s lo) (hlo : lo % blocksPerBand ≠ 0) :
    lo < totalSmrBlocksCnt ∧ (s.smrReverseTable lo).phyStatus = .freePhyBlock := by
  obtain ⟨hi, h1, h2, h3, h4⟩ := h.frontier
  have hlt : lo < hi := Nat.lt_of_le_of_ne h1 fun heq => hlo (heq ▸ h3)
  have hN : lo < totalSmrBlocksCnt := Nat.lt_of_lt_of_le hlt h2
  exact ⟨hN, (h4 lo hN).mpr ⟨Nat.le_refl lo, hlt⟩⟩

/-- If the slot at the frontier is not free, no slot is. -/
theorem none_free (h : StlInv s lo)
    (hlo : lo < totalSmrBlocksCnt → (s.smrReverseTable lo).phyStatus ≠ .freePhyBlock) :
    ∀ p < totalSmrBlocksCnt, (s.smrReverseTable p).phyStatus ≠ .freePhyBlock := by
  obtain ⟨hi, h1, h2, -, h4⟩ := h.frontier
  intro p hp hfree
  obtain ⟨hp1, hp2⟩ := (h4 p hp).mp hfree
  have hlt : lo < totalSmrBlocksCnt := Nat.lt_of_le_of_lt hp1 hp
  exact hlo hlt ((h4 lo hlt).mpr ⟨Nat.le_refl lo, Nat.lt_of_le_of_lt hp1 hp2⟩)

/-- The slots of a band that are above a free slot at the frontier are free. -/
theorem free_above (h : StlInv s lo) (hfree : (s.smrReverseTable lo).phyStatus = .freePhyBlock)
    {q : ℕ} (hlo : lo < totalSmrBlocksCnt) (hq : lo < q)
    (hband : q / blocksPerBand = lo / blocksPerBand) :
    (s.smrReverseTable q).phyStatus = .freePhyBlock := by
  obtain ⟨hi, -, h2, h3, h4⟩ := h.frontier
  have hlt : lo < hi := ((h4 lo hlo).mp hfree).2
  have hqhi : q < hi := by
    rw [blocksPerBand_eq] at *
    omega
  exact (h4 q (Nat.lt_of_lt_of_le hqhi h2)).mpr ⟨Nat.le_of_lt hq, hqhi⟩

/-- No slot below the frontier is free. -/
theorem notFree_below (h : StlInv s lo) {q : ℕ} (hlo : lo < totalSmrBlocksCnt) (hq : q < lo) :
    (s.smrReverseTable q).phyStatus ≠ .freePhyBlock := by
  obtain ⟨hi, -, -, -, h4⟩ := h.frontier
  intro hfree
  exact Nat.not_lt.mpr ((h4 q (Nat.lt_trans hq hlo)).mp hfree).1 hq

theorem validCnt_eq (h : StlInv s lo) {b : ℕ} (hb : b < totalSmrBandsCnt) :
    (s.phyBands b).validCnt = slotCount s.smrReverseTable .validPhyBlock b := by
  rw [h.counts b hb]

theorem invalidCnt_eq (h : StlInv s lo) {b : ℕ} (hb : b < totalSmrBandsCnt) :
    (s.phyBands b).invalidCnt = slotCount s.smrReverseTable .invalidPhyBlock b := by
  rw [h.counts b hb]

/-- **The slots cannot run out.**  While some block is not in the SMR area and no slot is free, some
slot is invalid: the valid slots name distinct blocks other than that one. -/
theorem exists_invalid (h : StlInv s lo) {l : ℕ} (hl : l < totalSmrBlocksCnt)
    (hflag : (s.mappingTable l).mappingFlag ≠ .inSmrDisk)
    (hfull : ∀ p < totalSmrBlocksCnt, (s.smrReverseTable p).phyStatus ≠ .freePhyBlock) :
    ∃ p < totalSmrBlocksCnt, (s.smrReverseTable p).phyStatus = .invalidPhyBlock := by
  have hentry : ∀ p, (s.smrReverseTable p).phyStatus = .validPhyBlock →
      s.smrReverseTable p = ⟨(s.smrReverseTable p).blkNo, .validPhyBlock⟩ := fun p hp => by
    rw [← hp]
  obtain ⟨p, hp, hnot⟩ := Slots.exists_not_of_injOn_avoiding hl
    (fun p => (s.smrReverseTable p).phyStatus = .validPhyBlock)
    (fun p => (s.smrReverseTable p).blkNo)
    (fun p hp hv => (h.rev p hp _ (hentry p hv)).1)
    (fun p hp hv heq => hflag (heq ▸ (h.rev p hp _ (hentry p hv)).2.1))
    (fun p hp q hq hvp hvq heq => by
      have h1 := (h.rev p hp _ (hentry p hvp)).2.2
      have h2 := (h.rev q hq _ (hentry q hvq)).2.2
      rw [heq] at h1
      exact h1.symm.trans h2)
  exact ⟨p, hp, ((h.known p hp).resolve_left (hfull p hp)).resolve_left hnot⟩

end StlInv

/-! ## The HDD buffer -/

/-- The invariant of the HDD buffer; `F` is the set of buffers that count as free. -/
structure BufInv (d : SmrDev) (F : ℕ → Prop) : Prop where
  fwd : ∀ l < totalSmrBlocksCnt, (d.smr.mappingTable l).mappingFlag = .inHddBuf →
    (d.smr.mappingTable l).paddr < blocksOfHddBuf ∧ ¬ F (d.smr.mappingTable l).paddr ∧
      (d.buf.reverseTable (d.smr.mappingTable l).paddr).blkNo = l
  rev : ∀ q < blocksOfHddBuf, ¬ F q →
    (d.buf.reverseTable q).blkNo < totalSmrBlocksCnt ∧
      (d.smr.mappingTable (d.buf.reverseTable q).blkNo).mappingFlag = .inHddBuf ∧
      (d.smr.mappingTable (d.buf.reverseTable q).blkNo).paddr = q

/-! ## The log -/

/-- The slot that `get_free_smr_block` handed out last. -/
def lastHanded : List Event → Option ℕ
  | [] => none
  | .handed paddr _ :: _ => some paddr
  | _ :: past => lastHanded past

/-- One past the slot that was handed out last. -/
def nextSlot (log : List Event) : ℕ := (lastHanded log).elim 0 (· + 1)

/-- What should hold of a moment of a run; `past` is the run before it. -/
def Event.Ok (past : List Event) : Event → Prop
  | .frontierCheck index => index = nextSlot past ∧ index ≤ totalSmrBlocksCnt
  | .collected curPaddr table =>
    curPaddr < totalSmrBlocksCnt ∧ (table curPaddr).phyStatus = .freePhyBlock
  | .handed paddr table =>
    paddr < totalSmrBlocksCnt ∧ (table paddr).phyStatus = .freePhyBlock ∧
      (∀ q, q / blocksPerBand = paddr / blocksPerBand → paddr < q →
        (table q).phyStatus = .freePhyBlock) ∧
      ∀ q, q / blocksPerBand = paddr / blocksPerBand → q < paddr →
        (table q).phyStatus ≠ .freePhyBlock
  | .freeBufAsked avail => 0 < avail

/-- Every moment of a run was as it should be. -/
def LogOk : List Event → Prop
  | [] => True
  | e :: past => e.Ok past ∧ LogOk past

theorem LogOk.of_mem {log : List Event} (h : LogOk log) {e : Event} (he : e ∈ log) :
    ∃ past, e.Ok past := by
  induction log with
  | nil => exact absurd he List.not_mem_nil
  | cons e' past ih =>
    rcases List.mem_cons.mp he with rfl | he
    · exact ⟨past, h.1⟩
    · exact ih h.2 he

/-- The log is as it should be, and it says where the frontier is. -/
structure LogInv (d : SmrDev) : Prop where
  ok : LogOk d.log
  cur : d.smr.curPaddr = nextSlot d.log

theorem LogInv.congr {d d' : SmrDev} (h : LogInv d) (hcur : d'.smr.curPaddr = d.smr.curPaddr)
    (hlog : d'.log = d.log) : LogInv d' := by
  obtain ⟨h1, h2⟩ := h
  constructor
  · rwa [hlog]
  · rwa [hlog, hcur]

/-! ## The contents of the device -/

namespace SmrDev

/-- The block that `read_smr_blocks` finds. -/
def contents (d : SmrDev) (l : ℕ) : Option Block :=
  if d.inHddBuf l then some (d.buf.hddBuf (d.smr.mappingTable l).paddr)
  else if d.inSmrDisk l then some (d.data (d.smr.mappingTable l).paddr)
  else none

/-- The flags of the blocks, and where those outside the SMR area are. -/
structure SameFlags (d d' : SmrDev) : Prop where
  flag : ∀ l, (d'.smr.mappingTable l).mappingFlag = (d.smr.mappingTable l).mappingFlag
  metaFlag : ∀ l, (d'.smr.mappingTable l).metaFlag = (d.smr.mappingTable l).metaFlag
  paddr : ∀ l < totalSmrBlocksCnt, (d.smr.mappingTable l).mappingFlag ≠ .inSmrDisk →
    (d'.smr.mappingTable l).paddr = (d.smr.mappingTable l).paddr

/-- A step that may move blocks inside the SMR area but that nobody can see. -/
structure Moves (d d' : SmrDev) : Prop extends SameFlags d d' where
  buf : d'.buf = d.buf
  contents : ∀ l < totalSmrBlocksCnt, d'.contents l = d.contents l

theorem SameFlags.refl (d : SmrDev) : SameFlags d d :=
  ⟨fun _ => rfl, fun _ => rfl, fun _ _ _ => rfl⟩

theorem Moves.refl (d : SmrDev) : Moves d d := ⟨SameFlags.refl d, rfl, fun _ _ => rfl⟩

/-- The log is not part of the device. -/
theorem Moves.emit (d : SmrDev) (e : Event) : Moves d (d.emit e) :=
  ⟨⟨fun _ => rfl, fun _ => rfl, fun _ _ _ => rfl⟩, rfl, fun _ _ => rfl⟩

theorem SameFlags.trans {d d' d'' : SmrDev} (h : SameFlags d d') (h' : SameFlags d' d'') :
    SameFlags d d'' where
  flag l := (h'.flag l).trans (h.flag l)
  metaFlag l := (h'.metaFlag l).trans (h.metaFlag l)
  paddr l hl hf := (h'.paddr l hl (by rwa [h.flag l])).trans (h.paddr l hl hf)

theorem Moves.trans {d d' d'' : SmrDev} (h : Moves d d') (h' : Moves d' d'') : Moves d d'' where
  toSameFlags := h.toSameFlags.trans h'.toSameFlags
  buf := h'.buf.trans h.buf
  contents l hl := (h'.contents l hl).trans (h.contents l hl)

theorem inSmrDisk_iff {d : SmrDev} {l : ℕ} :
    d.inSmrDisk l = true ↔ (d.smr.mappingTable l).mappingFlag = .inSmrDisk := decide_eq_true_iff

theorem inHddBuf_iff {d : SmrDev} {l : ℕ} :
    d.inHddBuf l = true ↔ (d.smr.mappingTable l).mappingFlag = .inHddBuf := decide_eq_true_iff

theorem inSmrDisk_eq_false {d : SmrDev} {l : ℕ}
    (h : (d.smr.mappingTable l).mappingFlag ≠ .inSmrDisk) : d.inSmrDisk l = false := decide_eq_false h

theorem inHddBuf_eq_false {d : SmrDev} {l : ℕ}
    (h : (d.smr.mappingTable l).mappingFlag ≠ .inHddBuf) : d.inHddBuf l = false := decide_eq_false h

theorem contents_of_inHddBuf {d : SmrDev} {l : ℕ}
    (h : (d.smr.mappingTable l).mappingFlag = .inHddBuf) :
    d.contents l = some (d.buf.hddBuf (d.smr.mappingTable l).paddr) := if_pos (inHddBuf_iff.mpr h)

theorem contents_of_inSmrDisk {d : SmrDev} {l : ℕ}
    (h : (d.smr.mappingTable l).mappingFlag = .inSmrDisk) :
    d.contents l = some (d.data (d.smr.mappingTable l).paddr) := by
  rw [contents, if_neg, if_pos (inSmrDisk_iff.mpr h)]
  rw [inHddBuf_iff, h]
  decide

theorem contents_of_unmapped {d : SmrDev} {l : ℕ}
    (hb : (d.smr.mappingTable l).mappingFlag ≠ .inHddBuf)
    (hs : (d.smr.mappingTable l).mappingFlag ≠ .inSmrDisk) : d.contents l = none := by
  rw [contents, if_neg fun h => hb (inHddBuf_iff.mp h), if_neg fun h => hs (inSmrDisk_iff.mp h)]

theorem hasMapping_eq (d : SmrDev) (l : ℕ) : d.hasMapping l = (d.contents l).isSome := by
  rw [hasMapping, contents]
  cases d.inHddBuf l <;> cases d.inSmrDisk l <;> rfl

/-- What a block's contents depend on. -/
theorem contents_congr {d d' : SmrDev} {l : ℕ}
    (hf : (d'.smr.mappingTable l).mappingFlag = (d.smr.mappingTable l).mappingFlag)
    (hb : (d.smr.mappingTable l).mappingFlag = .inHddBuf →
      d'.buf.hddBuf (d'.smr.mappingTable l).paddr = d.buf.hddBuf (d.smr.mappingTable l).paddr)
    (hs : (d.smr.mappingTable l).mappingFlag = .inSmrDisk →
      d'.data (d'.smr.mappingTable l).paddr = d.data (d.smr.mappingTable l).paddr) :
    d'.contents l = d.contents l := by
  by_cases h1 : (d.smr.mappingTable l).mappingFlag = .inHddBuf
  · rw [contents_of_inHddBuf h1, contents_of_inHddBuf (hf.trans h1), hb h1]
  · by_cases h2 : (d.smr.mappingTable l).mappingFlag = .inSmrDisk
    · rw [contents_of_inSmrDisk h2, contents_of_inSmrDisk (hf.trans h2), hs h2]
    · rw [contents_of_unmapped h1 h2, contents_of_unmapped (hf ▸ h1) (hf ▸ h2)]

end SmrDev

end MemSmr
