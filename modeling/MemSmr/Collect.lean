import MemSmr.Invariant

/-!
# Garbage collection

Both branches of `garbage_collecting` rewrite one band: its valid slots move to the front of the
band, in order, and the others become free.  A fully invalid band is the case without valid slots.

* `rank d b i`: the number of valid slots of band `b` before slot `i`, which is where the
  compaction puts slot `i`.
* `GcLoop`: the invariant of the loop of `do_gc_in_band`, which overwrites the reverse table while
  it is reading it.
* `bandCompacted_doGcInBand`: what `do_gc_in_band` does to a band that the mapping table knows.
* `Compacted`: what a collection does, and `Compacted.stlInv`, `Compacted.moves`: that this keeps
  the invariant and cannot be seen from outside.
* `garbageCollecting_spec`: a collection without free slots leaves a free slot at `cur_paddr`.
-/

namespace MemSmr

namespace SmrDev

/-! ## The compaction of a band -/

/-- Slot `i` of band `b` is valid. -/
abbrev ValidAt (d : SmrDev) (b i : ℕ) : Prop :=
  (d.smr.smrReverseTable (b * blocksPerBand + i)).phyStatus = .validPhyBlock

/-- The number of valid slots of band `b` before slot `i`. -/
def rank (d : SmrDev) (b i : ℕ) : ℕ := Nat.count (d.ValidAt b) i

theorem rank_le (d : SmrDev) (b i : ℕ) : d.rank b i ≤ i := Nat.count_le _

theorem rank_lt_rank {d : SmrDev} {b i j : ℕ} (hij : i < j) (hi : d.ValidAt b i) :
    d.rank b i < d.rank b j := Nat.count_strict_mono hi hij

theorem rank_eq_slotCount (d : SmrDev) (b : ℕ) :
    d.rank b blocksPerBand = slotCount d.smr.smrReverseTable .validPhyBlock b := by
  rw [rank, slotCount]

theorem rank_lt_slotCount {d : SmrDev} {b i : ℕ} (hi : i < blocksPerBand) (hv : d.ValidAt b i) :
    d.rank b i < slotCount d.smr.smrReverseTable .validPhyBlock b := by
  rw [← rank_eq_slotCount]
  exact rank_lt_rank hi hv

/-- The mapping table knows where the blocks in the valid slots of band `b` are. -/
def BandLinked (d : SmrDev) (b : ℕ) : Prop :=
  ∀ i < blocksPerBand, d.ValidAt b i →
    (d.smr.mappingTable (d.smr.smrReverseTable (b * blocksPerBand + i)).blkNo).mappingFlag =
        .inSmrDisk ∧
      (d.smr.mappingTable (d.smr.smrReverseTable (b * blocksPerBand + i)).blkNo).paddr =
        b * blocksPerBand + i

theorem bandLinked_of_stlInv {d : SmrDev} {lo b : ℕ} (h : StlInv d.smr lo)
    (hb : b < totalSmrBandsCnt) : d.BandLinked b := fun _ hi hv =>
  (h.rev _ (band_add_lt hb hi) _ (by rw [← hv])).2

/-- Different valid slots hold different blocks. -/
theorem BandLinked.slot_eq {d : SmrDev} {b i j : ℕ} (h : d.BandLinked b) (hi : i < blocksPerBand)
    (hj : j < blocksPerBand) (hvi : d.ValidAt b i) (hvj : d.ValidAt b j)
    (heq : (d.smr.smrReverseTable (b * blocksPerBand + i)).blkNo =
      (d.smr.smrReverseTable (b * blocksPerBand + j)).blkNo) : i = j := by
  have h1 := (h i hi hvi).2
  have h2 := (h j hj hvj).2
  rw [heq] at h1
  exact Nat.add_left_cancel (h1.symm.trans h2)

/-- What a collection of band `b` does. -/
structure Compacted (d d' : SmrDev) (b : ℕ) : Prop where
  outside : ∀ p, p / blocksPerBand ≠ b →
    d'.smr.smrReverseTable p = d.smr.smrReverseTable p ∧ d'.data p = d.data p
  moved : ∀ i < blocksPerBand, d.ValidAt b i →
    d'.smr.smrReverseTable (b * blocksPerBand + d.rank b i) =
      d.smr.smrReverseTable (b * blocksPerBand + i) ∧
    d'.data (b * blocksPerBand + d.rank b i) = d.data (b * blocksPerBand + i)
  freed : ∀ i < blocksPerBand, slotCount d.smr.smrReverseTable .validPhyBlock b ≤ i →
    d'.smr.smrReverseTable (b * blocksPerBand + i) = ⟨0, .freePhyBlock⟩
  entry : ∀ i < blocksPerBand, d.ValidAt b i →
    d'.smr.mappingTable (d.smr.smrReverseTable (b * blocksPerBand + i)).blkNo =
      ⟨.inSmrDisk,
        (d.smr.mappingTable (d.smr.smrReverseTable (b * blocksPerBand + i)).blkNo).metaFlag,
        b * blocksPerBand + d.rank b i⟩
  others : ∀ l, (∀ i < blocksPerBand, d.ValidAt b i →
      (d.smr.smrReverseTable (b * blocksPerBand + i)).blkNo ≠ l) →
    d'.smr.mappingTable l = d.smr.mappingTable l
  bands : d'.smr.phyBands = Function.update d.smr.phyBands b
    ⟨0, blocksPerBand - slotCount d.smr.smrReverseTable .validPhyBlock b,
      slotCount d.smr.smrReverseTable .validPhyBlock b⟩
  queue : ∀ a, a ∈ d'.smr.fullyInvalidBands ↔ a ≠ b ∧ a ∈ d.smr.fullyInvalidBands
  cur : d'.smr.curPaddr = b * blocksPerBand + slotCount d.smr.smrReverseTable .validPhyBlock b
  buf : d'.buf = d.buf
  log : d'.log = d.log

namespace Compacted

variable {d d' : SmrDev} {b lo : ℕ}

/-- A slot at the front of the compacted band comes from a valid slot. -/
theorem exists_source (hc : Compacted d d' b) {i : ℕ}
    (hi : i < slotCount d.smr.smrReverseTable .validPhyBlock b) :
    ∃ j < blocksPerBand, d.ValidAt b j ∧ d.rank b j = i ∧
      d'.smr.smrReverseTable (b * blocksPerBand + i) =
        d.smr.smrReverseTable (b * blocksPerBand + j) := by
  rw [← rank_eq_slotCount] at hi
  obtain ⟨j, hj, hv, hr⟩ := Slots.exists_count_eq hi
  exact ⟨j, hj, hv, hr, hr ▸ (hc.moved j hj hv).1⟩

/-- The status of a slot of the compacted band. -/
theorem status_front (hc : Compacted d d' b) {i : ℕ}
    (hi : i < slotCount d.smr.smrReverseTable .validPhyBlock b) :
    (d'.smr.smrReverseTable (b * blocksPerBand + i)).phyStatus = .validPhyBlock := by
  obtain ⟨j, -, hv, -, heq⟩ := hc.exists_source hi
  rw [heq]
  exact hv

theorem status_back (hc : Compacted d d' b) {i : ℕ} (hi : i < blocksPerBand)
    (hle : slotCount d.smr.smrReverseTable .validPhyBlock b ≤ i) :
    (d'.smr.smrReverseTable (b * blocksPerBand + i)).phyStatus = .freePhyBlock := by
  rw [hc.freed i hi hle]

theorem slotCount_of_ne (hc : Compacted d d' b) {a : ℕ} (ha : a ≠ b) (st : PhyStatus) :
    slotCount d'.smr.smrReverseTable st a = slotCount d.smr.smrReverseTable st a :=
  slotCount_congr fun i hi => by rw [(hc.outside _ (by rwa [band_add_div hi])).1]

theorem slotCount_valid (hc : Compacted d d' b) :
    slotCount d'.smr.smrReverseTable .validPhyBlock b =
      slotCount d.smr.smrReverseTable .validPhyBlock b := by
  rw [slotCount, Slots.count_congr (q := fun i =>
    i < slotCount d.smr.smrReverseTable .validPhyBlock b)]
  · exact Slots.count_lt_of_le (slotCount_le _ _ _)
  · intro i hi
    by_cases hlt : i < slotCount d.smr.smrReverseTable .validPhyBlock b
    · exact ⟨fun _ => hlt, fun _ => hc.status_front hlt⟩
    · rw [hc.status_back hi (Nat.not_lt.mp hlt)]
      exact ⟨fun h => absurd h (by decide), fun h => absurd h hlt⟩

theorem slotCount_invalid (hc : Compacted d d' b) :
    slotCount d'.smr.smrReverseTable .invalidPhyBlock b = 0 := by
  refine slotCount_eq_zero fun i hi => ?_
  rcases Nat.lt_or_ge i (slotCount d.smr.smrReverseTable .validPhyBlock b) with hlt | hge
  · rw [hc.status_front hlt]
    decide
  · rw [hc.status_back hi hge]
    decide

theorem slotCount_free (hc : Compacted d d' b) :
    slotCount d'.smr.smrReverseTable .freePhyBlock b +
      slotCount d.smr.smrReverseTable .validPhyBlock b = blocksPerBand := by
  have hsum := slotCount_sum d'.smr.smrReverseTable b fun i hi => by
    rcases Nat.lt_or_ge i (slotCount d.smr.smrReverseTable .validPhyBlock b) with hlt | hge
    · exact Or.inr (Or.inl (hc.status_front hlt))
    · exact Or.inl (hc.status_back hi hge)
  rw [hc.slotCount_valid, hc.slotCount_invalid, Nat.add_zero] at hsum
  exact hsum

/-- Where the compaction puts a block of the SMR area. -/
theorem entry_of_inSmrDisk (hc : Compacted d d' b) (h : StlInv d.smr lo)
    (hb : b < totalSmrBandsCnt) {l : ℕ} (hl : l < totalSmrBlocksCnt)
    (hf : (d.smr.mappingTable l).mappingFlag = .inSmrDisk) :
    (∃ i < blocksPerBand, d.ValidAt b i ∧
      (d.smr.mappingTable l).paddr = b * blocksPerBand + i ∧
      d.smr.smrReverseTable (b * blocksPerBand + i) = ⟨l, .validPhyBlock⟩ ∧
      d'.smr.mappingTable l =
        ⟨.inSmrDisk, (d.smr.mappingTable l).metaFlag, b * blocksPerBand + d.rank b i⟩) ∨
    ((d.smr.mappingTable l).paddr / blocksPerBand ≠ b ∧
      d'.smr.mappingTable l = d.smr.mappingTable l) := by
  obtain ⟨-, hrev⟩ := h.fwd l hl hf
  by_cases hband : (d.smr.mappingTable l).paddr / blocksPerBand = b
  · left
    have hslot : (d.smr.mappingTable l).paddr =
        b * blocksPerBand + (d.smr.mappingTable l).paddr % blocksPerBand := by
      rw [← hband, band_add_slot]
    rw [hslot] at hrev
    have hv : d.ValidAt b ((d.smr.mappingTable l).paddr % blocksPerBand) := by
      rw [ValidAt, hrev]
    have he := hc.entry _ (slot_lt _) hv
    rw [hrev] at he
    exact ⟨_, slot_lt _, hv, hslot, hrev, he⟩
  · right
    refine ⟨hband, hc.others l fun i hi hv heq => hband ?_⟩
    rw [(h.rev _ (band_add_lt hb hi) l (by rw [← hv, ← heq])).2.2, band_add_div hi]

/-- The compaction leaves every flag, and every address outside the SMR area. -/
theorem sameFlags (hc : Compacted d d' b) (h : StlInv d.smr lo) (hb : b < totalSmrBandsCnt) :
    SameFlags d d' := by
  have key : ∀ l, d'.smr.mappingTable l = d.smr.mappingTable l ∨
      ((d.smr.mappingTable l).mappingFlag = .inSmrDisk ∧
        (d'.smr.mappingTable l).mappingFlag = .inSmrDisk ∧
        (d'.smr.mappingTable l).metaFlag = (d.smr.mappingTable l).metaFlag) := by
    intro l
    by_cases hex : ∃ i < blocksPerBand, d.ValidAt b i ∧
        (d.smr.smrReverseTable (b * blocksPerBand + i)).blkNo = l
    · obtain ⟨i, hi, hv, rfl⟩ := hex
      right
      rw [hc.entry i hi hv]
      exact ⟨(h.rev _ (band_add_lt hb hi) _ (by rw [← hv])).2.1, rfl, rfl⟩
    · exact Or.inl (hc.others l fun i hi hv heq => hex ⟨i, hi, hv, heq⟩)
  refine ⟨fun l => ?_, fun l => ?_, fun l _ hf => ?_⟩
  · rcases key l with heq | ⟨h1, h2, -⟩
    · rw [heq]
    · rw [h1, h2]
  · rcases key l with heq | ⟨-, -, h3⟩
    · rw [heq]
    · exact h3
  · rcases key l with heq | ⟨h1, -, -⟩
    · rw [heq]
    · exact absurd h1 hf

/-- Nobody can see the compaction. -/
theorem moves (hc : Compacted d d' b) (h : StlInv d.smr lo) (hb : b < totalSmrBandsCnt) :
    Moves d d' where
  toSameFlags := hc.sameFlags h hb
  buf := hc.buf
  contents l hl := by
    refine contents_congr ((hc.sameFlags h hb).flag l) (fun hf => ?_) fun hf => ?_
    · rw [hc.buf, (hc.sameFlags h hb).paddr l hl (by rw [hf]; decide)]
    · rcases hc.entry_of_inSmrDisk h hb hl hf with ⟨i, hi, hv, hp, -, he⟩ | ⟨hband, he⟩
      · rw [he, hp]
        exact (hc.moved i hi hv).2
      · rw [he]
        exact (hc.outside _ hband).2

/-- **A collection keeps the invariant.**  It is entered without free slots, on a band that is not
full of valid blocks. -/
theorem stlInv (hc : Compacted d d' b) (h : StlInv d.smr lo) (hb : b < totalSmrBandsCnt)
    (hfull : ∀ p < totalSmrBlocksCnt, (d.smr.smrReverseTable p).phyStatus ≠ .freePhyBlock) :
    StlInv d'.smr d'.smr.curPaddr where
  fwd l hl hf := by
    rw [(hc.sameFlags h hb).flag l] at hf
    rcases hc.entry_of_inSmrDisk h hb hl hf with ⟨i, hi, hv, -, hrev, he⟩ | ⟨hband, he⟩
    · rw [he]
      refine ⟨band_add_lt hb (Nat.lt_of_le_of_lt (d.rank_le b i) hi), ?_⟩
      rw [(hc.moved i hi hv).1, hrev]
    · rw [he, (hc.outside _ hband).1]
      exact h.fwd l hl hf
  rev p hp l hr := by
    by_cases hband : p / blocksPerBand = b
    · have hslot : p = b * blocksPerBand + p % blocksPerBand := by rw [← hband, band_add_slot]
      rcases Nat.lt_or_ge (p % blocksPerBand) (slotCount d.smr.smrReverseTable .validPhyBlock b)
        with hlt | hge
      · obtain ⟨j, hj, hv, hrank, heq⟩ := hc.exists_source hlt
        rw [← hslot, hr] at heq
        have he := hc.entry j hj hv
        rw [← heq, hrank, ← hslot] at he
        refine ⟨(h.rev _ (band_add_lt hb hj) l heq.symm).1, ?_, ?_⟩
        · rw [he]
        · rw [he]
      · rw [hslot, hc.freed _ (slot_lt p) hge] at hr
        cases congrArg ReverseMappingEntry.phyStatus hr
    · rw [(hc.outside p hband).1] at hr
      obtain ⟨hl, hf, hpa⟩ := h.rev p hp l hr
      rcases hc.entry_of_inSmrDisk h hb hl hf with ⟨i, hi, -, hp', -, -⟩ | ⟨-, he⟩
      · refine absurd ?_ hband
        rw [← hpa, hp', band_add_div hi]
      · rw [he]
        exact ⟨hl, hf, hpa⟩
  known p hp := by
    by_cases hband : p / blocksPerBand = b
    · rw [← band_add_slot p, hband]
      rcases Nat.lt_or_ge (p % blocksPerBand) (slotCount d.smr.smrReverseTable .validPhyBlock b)
        with hlt | hge
      · exact Or.inr (Or.inl (hc.status_front hlt))
      · exact Or.inl (hc.status_back (slot_lt p) hge)
    · rw [(hc.outside p hband).1]
      exact h.known p hp
  counts a ha := by
    by_cases hab : a = b
    · subst hab
      have hfree := hc.slotCount_free
      rw [hc.bands, Function.update_self, hc.slotCount_invalid, hc.slotCount_valid]
      refine congrArg₂ (BandInfo.mk 0) ?_ rfl
      omega
    · rw [hc.bands, Function.update_of_ne hab, hc.slotCount_of_ne hab, hc.slotCount_of_ne hab,
        hc.slotCount_of_ne hab]
      exact h.counts a ha
  queue a := by
    rw [hc.queue, h.queue]
    by_cases hab : a = b
    · subst hab
      rw [hc.slotCount_invalid]
      exact ⟨fun ha => absurd rfl ha.1, fun ha => absurd ha.2 (Nat.ne_of_lt blocksPerBand_pos)⟩
    · rw [hc.slotCount_of_ne hab]
      exact ⟨fun ha => ha.2, fun ha => ⟨hab, ha⟩⟩
  frontier := by
    refine ⟨(b + 1) * blocksPerBand, ?_, ?_, Nat.mul_mod_left _ _, fun p hp => ?_⟩
    · have := slotCount_le d.smr.smrReverseTable .validPhyBlock b
      rw [hc.cur, Nat.succ_mul]
      omega
    · rw [← bands_mul_blocks]
      exact Nat.mul_le_mul_right blocksPerBand hb
    · rw [hc.cur]
      by_cases hband : p / blocksPerBand = b
      · have hslot : p = b * blocksPerBand + p % blocksPerBand := by rw [← hband, band_add_slot]
        have hp' := slot_lt p
        rcases Nat.lt_or_ge (p % blocksPerBand) (slotCount d.smr.smrReverseTable .validPhyBlock b)
          with hlt | hge
        · have hst := hc.status_front hlt
          rw [← hslot] at hst
          rw [hst]
          exact ⟨fun h => absurd h (by decide), fun h => by omega⟩
        · have hst := hc.status_back (slot_lt p) hge
          rw [← hslot] at hst
          rw [Nat.succ_mul]
          exact ⟨fun _ => by omega, fun _ => hst⟩
      · rw [(hc.outside p hband).1]
        refine ⟨fun h => absurd h (hfull p hp), fun h => absurd ?_ hband⟩
        have h1 := h.1
        have h2 := h.2
        rw [blocksPerBand_eq] at *
        omega

end Compacted

/-! ## A fully invalid band -/

/-- `free_band` and the reset of `cur_paddr`. -/
theorem compacted_freeBand {d : SmrDev} {b : ℕ}
    (hinv : slotCount d.smr.smrReverseTable .invalidPhyBlock b = blocksPerBand)
    {v : SortedVector} (hv : ∀ a, a ∈ v ↔ a ≠ b ∧ a ∈ d.smr.fullyInvalidBands) :
    Compacted d (((d.setFullyInvalidBands v).freeBand b).setCurPaddr (b * blocksPerBand)) b := by
  have hnone : ∀ i < blocksPerBand, ¬ d.ValidAt b i := fun i hi hval => by
    rw [ValidAt, forall_status_of_slotCount_eq hinv hi] at hval
    exact absurd hval (by decide)
  have hzero : slotCount d.smr.smrReverseTable .validPhyBlock b = 0 := slotCount_eq_zero hnone
  refine
    { outside := fun p hp => ⟨Slots.fillRange_of_notMem fun h => hp ?_, rfl⟩
      moved := fun i hi hval => absurd hval (hnone i hi)
      freed := fun i hi _ => Slots.fillRange_of_mem ⟨Nat.le_add_right _ _, by omega⟩
      entry := fun i hi hval => absurd hval (hnone i hi)
      others := fun _ _ => rfl
      bands := by rw [hzero, Int.natCast_zero, Int.sub_zero]; rfl
      queue := hv
      cur := by rw [hzero]; exact (Nat.add_zero _).symm
      buf := rfl
      log := rfl }
  rw [blocksPerBand_eq] at *
  omega

/-! ## The loop of `do_gc_in_band` -/

/-- The invariant of the loop, before round `i`. -/
structure GcLoop (d : SmrDev) (b i : ℕ) (st : ℕ × SmrDev) : Prop where
  cnt : st.1 = d.rank b i
  rest : ∀ p, (∀ j < i, d.ValidAt b j → p ≠ b * blocksPerBand + d.rank b j) →
    st.2.smr.smrReverseTable p = d.smr.smrReverseTable p
  moved : ∀ j < i, d.ValidAt b j → st.2.smr.smrReverseTable (b * blocksPerBand + d.rank b j) =
    d.smr.smrReverseTable (b * blocksPerBand + j)
  bandBuf : ∀ j < i, d.ValidAt b j → st.2.bandBuf (d.rank b j) =
    d.data (b * blocksPerBand + j)
  entry : ∀ j < i, d.ValidAt b j →
    st.2.smr.mappingTable (d.smr.smrReverseTable (b * blocksPerBand + j)).blkNo =
      ⟨.inSmrDisk,
        (d.smr.mappingTable (d.smr.smrReverseTable (b * blocksPerBand + j)).blkNo).metaFlag,
        b * blocksPerBand + d.rank b j⟩
  others : ∀ l, (∀ j < i, d.ValidAt b j →
      (d.smr.smrReverseTable (b * blocksPerBand + j)).blkNo ≠ l) →
    st.2.smr.mappingTable l = d.smr.mappingTable l
  bands : st.2.smr.phyBands = d.smr.phyBands
  queue : st.2.smr.fullyInvalidBands = d.smr.fullyInvalidBands
  cur : st.2.smr.curPaddr = d.smr.curPaddr
  data : st.2.data = d.data
  buf : st.2.buf = d.buf
  log : st.2.log = d.log

theorem GcLoop.init (d : SmrDev) (b : ℕ) : GcLoop d b 0 (0, d) where
  cnt := (Nat.count_zero _).symm
  rest _ _ := rfl
  moved j hj := absurd hj (Nat.not_lt_zero j)
  bandBuf j hj := absurd hj (Nat.not_lt_zero j)
  entry j hj := absurd hj (Nat.not_lt_zero j)
  others _ _ := rfl
  bands := rfl
  queue := rfl
  cur := rfl
  data := rfl
  buf := rfl
  log := rfl

/-- The slot that the loop reads next has not been overwritten. -/
theorem GcLoop.unread {d : SmrDev} {b i : ℕ} {st : ℕ × SmrDev} (h : GcLoop d b i st) :
    st.2.smr.smrReverseTable (b * blocksPerBand + i) =
      d.smr.smrReverseTable (b * blocksPerBand + i) := by
  refine h.rest _ fun j hj _ => ?_
  have := d.rank_le b j
  omega

theorem GcLoop.step {d : SmrDev} {b i : ℕ} {st : ℕ × SmrDev} (hs : d.BandLinked b)
    (hi : i < blocksPerBand) (h : GcLoop d b i st) :
    GcLoop d b (i + 1) (gcRound b st i) := by
  by_cases hv : d.ValidAt b i
  · have hst : (st.2.smr.smrReverseTable (b * blocksPerBand + i)).phyStatus = .validPhyBlock := by
      rw [h.unread]
      exact hv
    have hround : gcRound b st i = (st.1 + 1,
        ({ (st.2.readHddBlock (b * blocksPerBand + i)).2 with
            bandBuf := Function.update st.2.bandBuf st.1
              (st.2.data (b * blocksPerBand + i)) }.setupGlobalMappingEntry
            (st.2.smr.smrReverseTable (b * blocksPerBand + i)).blkNo
            (b * blocksPerBand + st.1) .inSmrDisk).setupSmrReverseMapping
            (b * blocksPerBand + st.1)
            (st.2.smr.smrReverseTable (b * blocksPerBand + i)).blkNo .validPhyBlock) := by
      rw [gcRound]
      simp only [if_pos hst]
      rfl
    rw [hround, h.unread, h.cnt]
    have hrank : ∀ j < i, d.ValidAt b j → d.rank b j ≠ d.rank b i := fun j hj hvj =>
      Nat.ne_of_lt (rank_lt_rank hj hvj)
    refine
      { cnt := ?_
        rest := fun p hp => ?_
        moved := fun j hj hvj => ?_
        bandBuf := fun j hj hvj => ?_
        entry := fun j hj hvj => ?_
        others := fun l hl => ?_
        bands := h.bands
        queue := h.queue
        cur := h.cur
        data := h.data
        buf := h.buf
        log := h.log }
    · exact ((Nat.count_succ _ i).trans (by rw [if_pos hv]; rfl)).symm
    · exact (Function.update_of_ne (hp i (Nat.lt_succ_self i) hv) _ _).trans
        (h.rest p fun j hj hvj => hp j (Nat.lt_succ_of_lt hj) hvj)
    · rcases Nat.lt_succ_iff_lt_or_eq.mp hj with hlt | rfl
      · refine (Function.update_of_ne ?_ _ _).trans (h.moved j hlt hvj)
        have := hrank j hlt hvj
        omega
      · refine (Function.update_self _ _ _).trans ?_
        rw [← hv]
    · rcases Nat.lt_succ_iff_lt_or_eq.mp hj with hlt | rfl
      · exact (Function.update_of_ne (hrank j hlt hvj) _ _).trans (h.bandBuf j hlt hvj)
      · refine (Function.update_self _ _ _).trans ?_
        rw [h.data]
    · rcases Nat.lt_succ_iff_lt_or_eq.mp hj with hlt | rfl
      · refine (Function.update_of_ne (fun heq => ?_) _ _).trans (h.entry j hlt hvj)
        exact Nat.ne_of_lt hlt
          (hs.slot_eq (Nat.lt_trans hlt hi) hi hvj hv heq)
      · refine (Function.update_self _ _ _).trans ?_
        have hother := h.others (d.smr.smrReverseTable (b * blocksPerBand + j)).blkNo
          fun k hk hvk heq => Nat.ne_of_lt hk
            (hs.slot_eq (Nat.lt_trans hk hi) hi hvk hv heq)
        exact congrArg (fun e : MappingEntry => MappingEntry.mk .inSmrDisk e.metaFlag _) hother
    · refine (Function.update_of_ne (fun heq => ?_) _ _).trans
        (h.others l fun j hj hvj => hl j (Nat.lt_succ_of_lt hj) hvj)
      exact hl i (Nat.lt_succ_self i) hv heq.symm
  · have hst : (st.2.smr.smrReverseTable (b * blocksPerBand + i)).phyStatus ≠ .validPhyBlock := by
      rw [h.unread]
      exact hv
    have hround : gcRound b st i = st := by
      rw [gcRound]
      simp only [if_neg hst]
    rw [hround]
    -- A slot that is not valid adds nothing to what the clauses speak about.
    have hlt : ∀ j < i + 1, d.ValidAt b j → j < i := fun j hj hvj =>
      Nat.lt_of_le_of_ne (Nat.le_of_lt_succ hj) fun heq => hv (heq ▸ hvj)
    exact
      { cnt := h.cnt.trans ((Nat.count_succ _ i).trans (by rw [if_neg hv]; rfl)).symm
        rest := fun p hp => h.rest p fun j hj => hp j (Nat.lt_succ_of_lt hj)
        moved := fun j hj hvj => h.moved j (hlt j hj hvj) hvj
        bandBuf := fun j hj hvj => h.bandBuf j (hlt j hj hvj) hvj
        entry := fun j hj hvj => h.entry j (hlt j hj hvj) hvj
        others := fun l hl => h.others l fun j hj => hl j (Nat.lt_succ_of_lt hj)
        bands := h.bands
        queue := h.queue
        cur := h.cur
        data := h.data
        buf := h.buf
        log := h.log }

/-- The loop reads the whole band. -/
theorem gcLoop_spec {d : SmrDev} {b : ℕ} (h : d.BandLinked b) :
    GcLoop d b blocksPerBand ((List.range blocksPerBand).foldl (gcRound b) (0, d)) :=
  Outcome.foldl_range (GcLoop d b) (GcLoop.init d b) fun _ hi _ hst => hst.step h hi

/-- What `do_gc_in_band` does. -/
structure BandCompacted (d d' : SmrDev) (b : ℕ) : Prop where
  outside : ∀ p, p / blocksPerBand ≠ b →
    d'.smr.smrReverseTable p = d.smr.smrReverseTable p ∧ d'.data p = d.data p
  moved : ∀ i < blocksPerBand, d.ValidAt b i →
    d'.smr.smrReverseTable (b * blocksPerBand + d.rank b i) =
      d.smr.smrReverseTable (b * blocksPerBand + i) ∧
    d'.data (b * blocksPerBand + d.rank b i) = d.data (b * blocksPerBand + i)
  freed : ∀ i < blocksPerBand, slotCount d.smr.smrReverseTable .validPhyBlock b ≤ i →
    d'.smr.smrReverseTable (b * blocksPerBand + i) = ⟨0, .freePhyBlock⟩
  entry : ∀ i < blocksPerBand, d.ValidAt b i →
    d'.smr.mappingTable (d.smr.smrReverseTable (b * blocksPerBand + i)).blkNo =
      ⟨.inSmrDisk,
        (d.smr.mappingTable (d.smr.smrReverseTable (b * blocksPerBand + i)).blkNo).metaFlag,
        b * blocksPerBand + d.rank b i⟩
  others : ∀ l, (∀ i < blocksPerBand, d.ValidAt b i →
      (d.smr.smrReverseTable (b * blocksPerBand + i)).blkNo ≠ l) →
    d'.smr.mappingTable l = d.smr.mappingTable l
  bands : d'.smr.phyBands = Function.update d.smr.phyBands b
    ⟨0, blocksPerBand - slotCount d.smr.smrReverseTable .validPhyBlock b,
      slotCount d.smr.smrReverseTable .validPhyBlock b⟩
  queue : d'.smr.fullyInvalidBands = d.smr.fullyInvalidBands
  cur : d'.smr.curPaddr = d.smr.curPaddr
  buf : d'.buf = d.buf
  log : d'.log = d.log

/-- The loop, and what `do_gc_in_band` does after it. -/
theorem GcLoop.bandCompacted {d : SmrDev} {b : ℕ} {st : ℕ × SmrDev}
    (h : GcLoop d b blocksPerBand st) :
    BandCompacted d
      (st.2.writeBackBand b (slotCount d.smr.smrReverseTable .validPhyBlock b)) b := by
  have hle := slotCount_le d.smr.smrReverseTable .validPhyBlock b
  constructor
  all_goals
    simp only [writeBackBand, writeHddBlocks, freeSlots, setPhyBand, Int.toNat_natCast]
  case outside =>
    intro p hp
    have hout : ¬ (b * blocksPerBand ≤ p ∧ p < b * blocksPerBand + blocksPerBand) := fun h => hp (by
      rw [blocksPerBand_eq] at *
      omega)
    refine ⟨(Slots.fillRange_of_notMem fun hin => hout ?_).trans
      (h.rest p fun j hj _ heq => hout ?_), (if_neg fun hin => hout ?_).trans (congrFun h.data p)⟩
    · omega
    · have := d.rank_le b j
      omega
    · omega
  case moved =>
    intro i hi hv
    have := rank_lt_slotCount hi hv
    refine ⟨(Slots.fillRange_of_notMem fun hin => ?_).trans (h.moved i hi hv),
      (if_pos ⟨Nat.le_add_right _ _, Nat.add_lt_add_left this _⟩).trans ?_⟩
    · omega
    · rw [Nat.add_sub_cancel_left]
      exact h.bandBuf i hi hv
  case freed =>
    intro i hi hge
    rw [Slots.fillRange_of_mem ⟨Nat.add_le_add_left hge _, by omega⟩]
  case entry => exact h.entry
  case others => exact h.others
  case bands => rw [h.bands]
  case queue => exact h.queue
  case cur => exact h.cur
  case buf => exact h.buf
  case log => exact h.log

/-- The address that `do_gc_in_band` returns is one past the blocks that it has kept. -/
theorem doGcInBand_fst {d : SmrDev} {b : ℕ}
    (hcnt : (d.smr.phyBands b).validCnt = slotCount d.smr.smrReverseTable .validPhyBlock b) :
    (d.doGcInBand b).1 =
      b * blocksPerBand + slotCount d.smr.smrReverseTable .validPhyBlock b := by
  rw [doGcInBand, hcnt, Int.toNat_natCast]

/-- **`do_gc_in_band` compacts the band**, whatever the rest of the device is like. -/
theorem bandCompacted_doGcInBand {d : SmrDev} {b : ℕ} (hs : d.BandLinked b)
    (hcnt : (d.smr.phyBands b).validCnt = slotCount d.smr.smrReverseTable .validPhyBlock b) :
    BandCompacted d (d.doGcInBand b).2 b := by
  rw [doGcInBand, hcnt]
  exact (gcLoop_spec hs).bandCompacted

/-- After the reset of `cur_paddr` it is a collection. -/
theorem BandCompacted.compacted {d d' : SmrDev} {b p : ℕ} (h : BandCompacted d d' b)
    (hq : b ∉ d.smr.fullyInvalidBands)
    (hp : p = b * blocksPerBand + slotCount d.smr.smrReverseTable .validPhyBlock b) :
    Compacted d (d'.setCurPaddr p) b where
  outside := h.outside
  moved := h.moved
  freed := h.freed
  entry := h.entry
  others := h.others
  bands := h.bands
  queue a := by
    change a ∈ d'.smr.fullyInvalidBands ↔ _
    rw [h.queue]
    exact ⟨fun ha => ⟨fun heq => hq (heq ▸ ha), ha⟩, And.right⟩
  cur := hp
  buf := h.buf
  log := h.log

theorem compacted_doGcInBand {d : SmrDev} {lo b : ℕ} (hs : StlInv d.smr lo)
    (hb : b < totalSmrBandsCnt) (hq : b ∉ d.smr.fullyInvalidBands) :
    Compacted d ((d.doGcInBand b).2.setCurPaddr (d.doGcInBand b).1) b :=
  (bandCompacted_doGcInBand (bandLinked_of_stlInv hs hb) (hs.validCnt_eq hb)).compacted hq
    (doGcInBand_fst (hs.validCnt_eq hb))

/-! ## The choice of the band -/

/-- The scan starts with band 0. -/
theorem mostInvalidBand_lt (d : SmrDev) : d.mostInvalidBand.1 < totalSmrBandsCnt := by
  have hpos : 0 < totalSmrBandsCnt := by
    rw [totalSmrBandsCnt_eq]
    decide
  refine Outcome.foldl_range (fun _ (st : ℕ × ℤ) => st.1 < totalSmrBandsCnt) hpos ?_
  rintro i hi st hst
  split_ifs
  · exact hi
  · exact hst

/-- The scan for the band with most invalid blocks finds one, if there is any. -/
theorem mostInvalidBand_spec {d : SmrDev} {b : ℕ} (hb : b < totalSmrBandsCnt)
    (hpos : 0 < (d.smr.phyBands b).invalidCnt) :
    d.mostInvalidBand.1 < totalSmrBandsCnt ∧
      0 < (d.smr.phyBands d.mostInvalidBand.1).invalidCnt := by
  have hscan := Outcome.foldl_range (n := totalSmrBandsCnt) (a := ((0, 0) : ℕ × ℤ))
    (f := fun st i => if st.2 < (d.smr.phyBands i).invalidCnt
      then (i, (d.smr.phyBands i).invalidCnt) else st)
    (fun n st => (∀ i < n, (d.smr.phyBands i).invalidCnt ≤ st.2) ∧
      (0 < st.2 → st.1 < n ∧ (d.smr.phyBands st.1).invalidCnt = st.2))
    ⟨fun i hi => absurd hi (Nat.not_lt_zero i), fun h => absurd h (lt_irrefl _)⟩
    fun i _ st ⟨hmax, hat⟩ => by
      split_ifs with hlt
      · refine ⟨fun j hj => ?_, fun _ => ⟨Nat.lt_succ_self i, rfl⟩⟩
        rcases Nat.lt_succ_iff_lt_or_eq.mp hj with hj | rfl
        · exact (hmax j hj).trans hlt.le
        · exact le_refl _
      · refine ⟨fun j hj => ?_, fun h => ⟨Nat.lt_succ_of_lt (hat h).1, (hat h).2⟩⟩
        rcases Nat.lt_succ_iff_lt_or_eq.mp hj with hj | rfl
        · exact hmax j hj
        · exact not_lt.mp hlt
  have hmax : 0 < d.mostInvalidBand.2 := lt_of_lt_of_le hpos (hscan.1 b hb)
  obtain ⟨h1, h2⟩ := hscan.2 hmax
  exact ⟨h1, lt_of_lt_of_eq hmax h2.symm⟩

/-- The vector of fully invalid bands gives one of them up. -/
theorem getFullyInvalidBand_spec {d : SmrDev} (h : 0 < d.smr.fullyInvalidBands.size) :
    d.getFullyInvalidBand.1 ∈ d.smr.fullyInvalidBands ∧
      ∃ v : SortedVector, d.getFullyInvalidBand.2 = d.setFullyInvalidBands v ∧
        ∀ a, a ∈ v ↔ a ≠ d.getFullyInvalidBand.1 ∧ a ∈ d.smr.fullyInvalidBands := by
  rw [getFullyInvalidBand, if_pos h]
  exact ⟨SortedVector.get_mem h, _, rfl, fun a => SortedVector.mem_remove.trans and_comm⟩

/-- A collection compacts a band that has an invalid slot. -/
theorem exists_compacted {d : SmrDev} {lo p : ℕ} (hs : StlInv d.smr lo)
    (hp : p < totalSmrBlocksCnt) (hinv : (d.smr.smrReverseTable p).phyStatus = .invalidPhyBlock) :
    ∃ b < totalSmrBandsCnt, 0 < slotCount d.smr.smrReverseTable .invalidPhyBlock b ∧
      ∃ d', Compacted d d' b ∧
        d.garbageCollecting = d'.emit (.collected d'.smr.curPaddr d'.smr.smrReverseTable) := by
  unfold garbageCollecting
  by_cases hq : 0 < d.smr.fullyInvalidBands.size
  · obtain ⟨hmem, v, hv, hmemv⟩ := getFullyInvalidBand_spec hq
    obtain ⟨hb, hall⟩ := (hs.queue _).mp hmem
    refine ⟨_, hb, by rw [hall]; exact blocksPerBand_pos, _, compacted_freeBand hall hmemv, ?_⟩
    rw [← hv]
    simp only [if_pos hq]
  · have hpos : 0 < (d.smr.phyBands (p / blocksPerBand)).invalidCnt := by
      rw [hs.invalidCnt_eq (band_lt hp)]
      exact Int.natCast_pos.mpr (slotCount_pos hinv)
    obtain ⟨hb, hposb⟩ := mostInvalidBand_spec (band_lt hp) hpos
    rw [hs.invalidCnt_eq hb] at hposb
    refine ⟨_, hb, Int.natCast_pos.mp hposb, _, compacted_doGcInBand hs hb fun hmem => hq ?_, ?_⟩
    · exact SortedVector.size_pos_iff.mpr ⟨_, hmem⟩
    · simp only [if_neg hq]

/-- **A collection makes room.**  It is entered when no slot is free but some slot is invalid; it
leaves `cur_paddr` on a free slot, the invariant as it was and everything else out of sight. -/
theorem garbageCollecting_spec {d : SmrDev} {lo p : ℕ} (hs : StlInv d.smr lo)
    (hfull : ∀ p < totalSmrBlocksCnt, (d.smr.smrReverseTable p).phyStatus ≠ .freePhyBlock)
    (hp : p < totalSmrBlocksCnt) (hinv : (d.smr.smrReverseTable p).phyStatus = .invalidPhyBlock) :
    StlInv d.garbageCollecting.smr d.garbageCollecting.smr.curPaddr ∧
      Moves d d.garbageCollecting ∧
      d.garbageCollecting.smr.curPaddr < totalSmrBlocksCnt ∧
      (d.garbageCollecting.smr.smrReverseTable d.garbageCollecting.smr.curPaddr).phyStatus =
        .freePhyBlock ∧
      d.garbageCollecting.log = .collected d.garbageCollecting.smr.curPaddr
        d.garbageCollecting.smr.smrReverseTable :: d.log := by
  obtain ⟨b, hb, hpos, d', hc, heq⟩ := exists_compacted hs hp hinv
  rw [heq]
  have hlt : slotCount d.smr.smrReverseTable .validPhyBlock b < blocksPerBand := by
    have := slotCount_sum d.smr.smrReverseTable b fun i hi => hs.known _ (band_add_lt hb hi)
    omega
  have hmoves := hc.moves hs hb
  refine ⟨hc.stlInv hs hb hfull, hmoves.trans (Moves.emit _ _), ?_, ?_, ?_⟩
  · exact lt_of_eq_of_lt hc.cur (band_add_lt hb hlt)
  · change (d'.smr.smrReverseTable d'.smr.curPaddr).phyStatus = _
    rw [hc.cur, hc.freed _ hlt (Nat.le_refl _)]
  · exact congrArg (_ :: ·) hc.log

end SmrDev

end MemSmr
