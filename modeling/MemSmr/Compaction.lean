import MemSmr.Device
import MemSmr.Collect

/-!
# What a collection does to a band

`do_gc_in_band` on its own, on a band of which nothing is known but that its counters, its slots and
the entries of the mapping table that point into it agree.  The rest of the device may be in any state.

* `BandConsistent`: what is asked of the band.
* `StablyCompacted`: the valid blocks are at the front of the band, in the order they were in.
* `do_gc_in_band_stable`: that is what `do_gc_in_band` leaves.
-/

namespace MemSmr

namespace SmrDev

/-- The counters of band `b`, its slots and the entries that point into it agree. -/
structure BandConsistent (d : SmrDev) (b : ℕ) : Prop where
  counts : d.smr.phyBands b =
    ⟨slotCount d.smr.smrReverseTable .invalidPhyBlock b,
      slotCount d.smr.smrReverseTable .freePhyBlock b,
      slotCount d.smr.smrReverseTable .validPhyBlock b⟩
  fwd : ∀ l < totalSmrBlocksCnt, (d.smr.mappingTable l).mappingFlag = .inSmrDisk →
    (d.smr.mappingTable l).paddr / blocksPerBand = b →
      d.smr.smrReverseTable (d.smr.mappingTable l).paddr = ⟨l, .validPhyBlock⟩
  rev : ∀ i < blocksPerBand, ∀ l,
    d.smr.smrReverseTable (b * blocksPerBand + i) = ⟨l, .validPhyBlock⟩ →
      l < totalSmrBlocksCnt ∧ (d.smr.mappingTable l).mappingFlag = .inSmrDisk ∧
        (d.smr.mappingTable l).paddr = b * blocksPerBand + i

/-- The invariant of the SMR area says it of every band. -/
theorem bandConsistent_of_stlInv {d : SmrDev} {lo b : ℕ} (h : StlInv d.smr lo)
    (hb : b < totalSmrBandsCnt) : d.BandConsistent b where
  counts := h.counts b hb
  fwd l hl hf _ := (h.fwd l hl hf).2
  rev _ hi l hr := h.rev _ (band_add_lt hb hi) l hr

theorem BandConsistent.bandLinked {d : SmrDev} {b : ℕ} (h : d.BandConsistent b) :
    d.BandLinked b := fun i hi hv => (h.rev i hi _ (by rw [← hv])).2

/-- What is left of band `b` after the collection `r` of it, with the returned address in front. -/
structure StablyCompacted (d : SmrDev) (b : ℕ) (r : ℕ × SmrDev) : Prop where
  /-- The ranks of the valid slots are the numbers below the count, in the order of the slots. -/
  rankLt : ∀ i < blocksPerBand, d.ValidAt b i → (d.rank b i : ℤ) < (d.smr.phyBands b).validCnt
  order : ∀ i j, i < j → d.ValidAt b i → d.rank b i < d.rank b j
  onto : ∀ k : ℕ, (k : ℤ) < (d.smr.phyBands b).validCnt →
    ∃ i < blocksPerBand, d.ValidAt b i ∧ d.rank b i = k
  /-- A valid block is in the slot of its rank, and the tables say so. -/
  slot : ∀ i < blocksPerBand, d.ValidAt b i →
    r.2.smr.smrReverseTable (b * blocksPerBand + d.rank b i) =
      ⟨(d.smr.smrReverseTable (b * blocksPerBand + i)).blkNo, .validPhyBlock⟩
  entry : ∀ i < blocksPerBand, d.ValidAt b i →
    r.2.smr.mappingTable (d.smr.smrReverseTable (b * blocksPerBand + i)).blkNo =
      ⟨.inSmrDisk,
        (d.smr.mappingTable (d.smr.smrReverseTable (b * blocksPerBand + i)).blkNo).metaFlag,
        b * blocksPerBand + d.rank b i⟩
  bytes : ∀ i < blocksPerBand, d.ValidAt b i →
    r.2.data (b * blocksPerBand + d.rank b i) = d.data (b * blocksPerBand + i)
  /-- The other slots of the band are free. -/
  freed : ∀ k < blocksPerBand, (d.smr.phyBands b).validCnt ≤ (k : ℤ) →
    r.2.smr.smrReverseTable (b * blocksPerBand + k) = ⟨0, .freePhyBlock⟩
  counts : r.2.smr.phyBands b =
    ⟨0, blocksPerBand - (d.smr.phyBands b).validCnt, (d.smr.phyBands b).validCnt⟩
  address : (r.1 : ℤ) = b * blocksPerBand + (d.smr.phyBands b).validCnt
  firstFree : ∀ k < blocksPerBand,
    (r.2.smr.smrReverseTable (b * blocksPerBand + k)).phyStatus = .freePhyBlock ↔
      r.1 ≤ b * blocksPerBand + k
  /-- Nothing else has changed. -/
  otherSlots : ∀ p, p / blocksPerBand ≠ b →
    r.2.smr.smrReverseTable p = d.smr.smrReverseTable p ∧ r.2.data p = d.data p
  otherBands : ∀ a, a ≠ b → r.2.smr.phyBands a = d.smr.phyBands a
  otherEntries : ∀ l, (∀ i < blocksPerBand,
      d.smr.smrReverseTable (b * blocksPerBand + i) ≠ ⟨l, .validPhyBlock⟩) →
    r.2.smr.mappingTable l = d.smr.mappingTable l
  contents : ∀ l < totalSmrBlocksCnt, r.2.contents l = d.contents l
  buf : r.2.buf = d.buf
  queue : r.2.smr.fullyInvalidBands = d.smr.fullyInvalidBands
  cur : r.2.smr.curPaddr = d.smr.curPaddr

section Band

variable {d d' : SmrDev} {b : ℕ}

/-- A block that is not in a valid slot of the band keeps its entry. -/
theorem BandCompacted.entry_of_ne (hc : BandCompacted d d' b) {l : ℕ}
    (h : ∀ i < blocksPerBand,
      d.smr.smrReverseTable (b * blocksPerBand + i) ≠ ⟨l, .validPhyBlock⟩) :
    d'.smr.mappingTable l = d.smr.mappingTable l := by
  refine hc.others l fun i hi hv heq => h i hi ?_
  rw [← hv, ← heq]

/-- **Nobody can see the compaction.** -/
theorem BandCompacted.contents (hc : BandCompacted d d' b) (h : d.BandConsistent b) {l : ℕ}
    (hl : l < totalSmrBlocksCnt) : d'.contents l = d.contents l := by
  by_cases hin : ∃ i < blocksPerBand,
      d.smr.smrReverseTable (b * blocksPerBand + i) = ⟨l, .validPhyBlock⟩
  · obtain ⟨i, hi, hrev⟩ := hin
    have hv : d.ValidAt b i := by rw [ValidAt, hrev]
    obtain ⟨-, hf, hp⟩ := h.rev i hi l hrev
    have he := hc.entry i hi hv
    rw [hrev] at he
    rw [contents_of_inSmrDisk (by rw [he]), contents_of_inSmrDisk hf, he, hp]
    exact congrArg some (hc.moved i hi hv).2
  · have hne : ∀ i < blocksPerBand,
        d.smr.smrReverseTable (b * blocksPerBand + i) ≠ ⟨l, .validPhyBlock⟩ :=
      fun i hi heq => hin ⟨i, hi, heq⟩
    have he := hc.entry_of_ne hne
    refine contents_congr (by rw [he]) (fun _ => by rw [he, hc.buf]) fun hf => ?_
    rw [he]
    refine (hc.outside _ fun hband => ?_).2
    have hrev := h.fwd l hl hf hband
    rw [← band_add_slot (d.smr.mappingTable l).paddr, hband] at hrev
    exact hne _ (slot_lt _) hrev

theorem BandCompacted.status_iff (hc : BandCompacted d d' b) {k : ℕ} (hk : k < blocksPerBand) :
    (d'.smr.smrReverseTable (b * blocksPerBand + k)).phyStatus = .freePhyBlock ↔
      slotCount d.smr.smrReverseTable .validPhyBlock b ≤ k := by
  rcases Nat.lt_or_ge k (slotCount d.smr.smrReverseTable .validPhyBlock b) with hlt | hge
  · refine iff_of_false (fun hfree => ?_) (Nat.not_le.mpr hlt)
    rw [← rank_eq_slotCount] at hlt
    obtain ⟨i, hi, hv, rfl⟩ := Slots.exists_count_eq hlt
    rw [← rank, (hc.moved i hi hv).1, hv] at hfree
    cases hfree
  · rw [hc.freed k hk hge]
    exact iff_of_true rfl hge

/-- **`do_gc_in_band` is a stable compaction** of any band that is consistent. -/
theorem do_gc_in_band_stable (h : d.BandConsistent b) : d.StablyCompacted b (d.doGcInBand b) := by
  have hcnt : (d.smr.phyBands b).validCnt = slotCount d.smr.smrReverseTable .validPhyBlock b := by
    rw [h.counts]
  have hc := bandCompacted_doGcInBand h.bandLinked hcnt
  have hfst := doGcInBand_fst hcnt
  generalize d.doGcInBand b = r at hc hfst ⊢
  constructor
  case order => exact fun i j hij hv => rank_lt_rank hij hv
  case entry => exact hc.entry
  case bytes => exact fun i hi hv => (hc.moved i hi hv).2
  case otherSlots => exact hc.outside
  case otherEntries => exact fun l hl => hc.entry_of_ne hl
  case contents => exact fun l hl => hc.contents h hl
  case buf => exact hc.buf
  case queue => exact hc.queue
  case cur => exact hc.cur
  case rankLt =>
    intro i hi hv
    rw [hcnt]
    exact Int.ofNat_lt.mpr (rank_lt_slotCount hi hv)
  case onto =>
    intro k hk
    rw [hcnt, ← rank_eq_slotCount] at hk
    exact Slots.exists_count_eq (Int.ofNat_lt.mp hk)
  case slot =>
    intro i hi hv
    rw [(hc.moved i hi hv).1, ← hv]
  case freed =>
    intro k hk hge
    rw [hcnt] at hge
    exact hc.freed k hk (Int.ofNat_le.mp hge)
  case counts => rw [hc.bands, Function.update_self, hcnt]
  case address =>
    rw [hfst, hcnt]
    push_cast
    rfl
  case firstFree =>
    intro k hk
    rw [hc.status_iff hk, hfst, Nat.add_le_add_iff_left]
  case otherBands =>
    intro a ha
    rw [hc.bands, Function.update_of_ne ha]

end Band

/-- A device of which only the first slots of band 0 are set up: one is invalid, one holds block 5 and
one is free. -/
def threeSlots : SmrDev :=
  { (freshModule fun _ => 0).dev with smr := { zeroSmrCtr with
      mappingTable := Function.update zeroSmrCtr.mappingTable 5 ⟨.inSmrDisk, 0, 1⟩
      smrReverseTable := Function.update (Function.update (Function.update
        zeroSmrCtr.smrReverseTable 0 ⟨0, .invalidPhyBlock⟩) 1 ⟨5, .validPhyBlock⟩) 2
        ⟨0, .freePhyBlock⟩
      phyBands := Function.update zeroSmrCtr.phyBands 0 ⟨1, 1, 1⟩ } }

theorem bandConsistent_threeSlots : threeSlots.BandConsistent 0 where
  counts := by
    rw [slotCount, slotCount, slotCount, blocksPerBand_eq]
    decide +kernel
  fwd l _ hf _ := by
    by_cases hl : l = 5
    · subst hl
      rfl
    · have he : threeSlots.smr.mappingTable l = ⟨.other 0, 0, 0⟩ := Function.update_of_ne hl _ _
      rw [he] at hf
      cases hf
  rev i _ l hr := by
    rw [Nat.zero_mul, Nat.zero_add] at hr ⊢
    have hi : i = 1 := by
      by_contra hne
      have hstatus : (threeSlots.smr.smrReverseTable i).phyStatus ≠ .validPhyBlock := by
        by_cases h2 : i = 2
        · rw [h2]
          decide
        · by_cases h0 : i = 0
          · rw [h0]
            decide
          · have he : threeSlots.smr.smrReverseTable i = ⟨0, .other 0⟩ :=
              (Function.update_of_ne h2 _ _).trans
                ((Function.update_of_ne hne _ _).trans (Function.update_of_ne h0 _ _))
            rw [he]
            decide
      exact hstatus (by rw [hr])
    subst hi
    obtain rfl : 5 = l := congrArg ReverseMappingEntry.blkNo hr
    exact ⟨by rw [totalSmrBlocksCnt_eq]; decide, rfl, rfl⟩

/-- The valid block in the middle of a band. -/
theorem do_gc_in_band_stable_three : threeSlots.StablyCompacted 0 (threeSlots.doGcInBand 0) :=
  do_gc_in_band_stable bandConsistent_threeSlots

end SmrDev

end MemSmr
