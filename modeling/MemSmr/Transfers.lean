import MemSmr.Requests

/-!
# Transfers that are accepted

`check_block_size` compares byte offsets, the loops of `write_smr_blocks` and `read_smr_blocks`
count blocks, and both are 64-bit words.

* `loopBlks`: the block numbers that the loops come to.
* `checkBlockSize_iff`: what is accepted, over the numbers.
* `InsideDevice`: an accepted transfer stays inside the device.
* `accepted_inside_iff`: when it does; a byte offset that wraps is the only way out.
* `doDataTransfer_inside`: a transfer that leaves the device is not completed.
-/

namespace MemSmr

open Outcome

/-! ## The device and its blocks -/

/-- `nsectors`. -/
def nsectors : Int32 := 262144

/-- `hardsect_size`. -/
def hardsectSize : Int32 := 4096

/-- `dev->size`, an `int`. -/
def devSize : Int32 := nsectors * hardsectSize

/-- The product does not overflow, and it is what `check_block_size` compares with. -/
theorem devSize_toUInt64 : devSize.toInt64.toUInt64 = UInt64.ofNat smrDiskSize := by decide

/-- The block numbers that `write_smr_blocks` and `read_smr_blocks` come to, in `n` rounds. -/
def loopBlks (blkNo : UInt64) : ℕ → List UInt64
  | 0 => []
  | n + 1 => blkNo :: loopBlks (blkNo + 1) n

theorem mem_loopBlks {blkNo : UInt64} {n : ℕ} (hn : blkNo.toNat + n < 2 ^ 64) {b : UInt64} :
    b ∈ loopBlks blkNo n ↔ blkNo.toNat ≤ b.toNat ∧ b.toNat < blkNo.toNat + n := by
  induction n generalizing blkNo with
  | zero =>
    rw [loopBlks]
    simp only [List.not_mem_nil, false_iff]
    omega
  | succ n ih =>
    have hsucc : (blkNo + 1).toNat = blkNo.toNat + 1 := by
      rw [UInt64.toNat_add, UInt64.toNat_one]
      omega
    rw [loopBlks, List.mem_cons, ih (by omega), hsucc, ← UInt64.toNat_inj]
    omega

theorem toNat_div_sects (w : UInt64) : (w / kernSectsPerHardSect).toNat = w.toNat / 8 := by
  rw [UInt64.toNat_div]
  rfl

theorem mod_sects_eq_zero (w : UInt64) : w % kernSectsPerHardSect = 0 ↔ 8 ∣ w.toNat := by
  rw [← UInt64.toNat_inj, UInt64.toNat_mod]
  exact Nat.dvd_iff_mod_eq_zero.symm

/-- The blocks of a transfer: in sectors, no number wraps. -/
theorem mem_loopBlks_transfer {sector nsect b : UInt64} :
    b ∈ loopBlks (sector / kernSectsPerHardSect) (nsect / kernSectsPerHardSect).toNat ↔
      sector.toNat / 8 ≤ b.toNat ∧ b.toNat < sector.toNat / 8 + nsect.toNat / 8 := by
  have hsector := sector.toNat_lt
  have hnsect := nsect.toNat_lt
  rw [mem_loopBlks (by rw [toNat_div_sects, toNat_div_sects]; omega), toNat_div_sects,
    toNat_div_sects]

/-! ## What is accepted -/

/-- The transfer begins and ends at a block. -/
structure Aligned (sector nsect : UInt64) : Prop where
  sector : 8 ∣ sector.toNat
  nsect : 8 ∣ nsect.toNat

/-- **What `check_block_size` accepts**: its offsets are remainders modulo `2 ^ 64`. -/
theorem checkBlockSize_iff {sector nsect : UInt64} : checkBlockSize sector nsect = true ↔
    Aligned sector nsect ∧ (sector.toNat + nsect.toNat) % 2 ^ 55 ≤ 2 ^ 21 := by
  have hsector := sector.toNat_lt
  have hnsect := nsect.toNat_lt
  have hsize : (UInt64.ofNat smrDiskSize).toNat = 2 ^ 30 := by
    rw [← devSize_toUInt64]
    decide
  have hend : (sector * kernelSectorSize + nsect * kernelSectorSize).toNat =
      (sector.toNat + nsect.toNat) % 2 ^ 55 * 512 := by
    rw [UInt64.toNat_add, UInt64.toNat_mul, UInt64.toNat_mul]
    change (sector.toNat * 512 % 2 ^ 64 + nsect.toNat * 512 % 2 ^ 64) % 2 ^ 64 = _
    omega
  have hlt : UInt64.ofNat smrDiskSize < sector * kernelSectorSize + nsect * kernelSectorSize ↔
      2 ^ 21 < (sector.toNat + nsect.toNat) % 2 ^ 55 := by
    rw [UInt64.lt_iff_toNat_lt, hsize, hend]
    omega
  unfold checkBlockSize
  simp only [ne_eq, mod_sects_eq_zero, hlt]
  split_ifs with h1 h2 h3
  · exact iff_of_false (by decide) fun h => absurd h.2 (not_le.mpr h3)
  · exact iff_of_true rfl ⟨⟨h1, h2⟩, not_lt.mp h3⟩
  · exact iff_of_false (by decide) fun h => h2 h.1.nsect
  · exact iff_of_false (by decide) fun h => h1 h.1.sector

/-! ## Inside the device -/

/-- If the transfer is accepted, it is aligned and every block it comes to is one of the device. -/
def InsideDevice (sector nsect : UInt64) : Prop :=
  checkBlockSize sector nsect = true →
    sector % 8 = 0 ∧ nsect % 8 = 0 ∧
      ∀ b ∈ loopBlks (sector / kernSectsPerHardSect) (nsect / kernSectsPerHardSect).toNat,
        b.toNat < totalSmrBlocksCnt

/-- The end of the transfer, in bytes, does not fit in 64 bits, and what is left of it lies inside
the device. -/
structure WrapsInside (sector nsect : UInt64) : Prop where
  aligned : Aligned sector nsect
  nonempty : 0 < nsect.toNat
  wraps : 2 ^ 55 ≤ sector.toNat + nsect.toNat
  left : (sector.toNat + nsect.toNat) % 2 ^ 55 ≤ 2 ^ 21

/-- **Accepted transfers stay inside the device** just when the end of the transfer does not wrap
into it. -/
theorem accepted_inside_iff (sector nsect : UInt64) :
    InsideDevice sector nsect ↔ ¬ WrapsInside sector nsect := by
  have hsector := sector.toNat_lt
  have hnsect := nsect.toNat_lt
  unfold InsideDevice
  simp only [checkBlockSize_iff, mem_loopBlks_transfer, totalSmrBlocksCnt_eq]
  constructor
  · rintro h ⟨hal, hpos, hwraps, hleft⟩
    obtain ⟨-, -, hblks⟩ := h ⟨hal, hleft⟩
    obtain ⟨⟨k, hk⟩, ⟨m, hm⟩⟩ := hal
    -- The last block of the transfer.
    have hlast : (UInt64.ofNat (k + m - 1)).toNat = k + m - 1 := by
      rw [UInt64.toNat_ofNat']
      omega
    have := hblks (UInt64.ofNat (k + m - 1)) (by rw [hlast]; omega)
    rw [hlast] at this
    omega
  · rintro h ⟨hal, hleft⟩
    refine ⟨(mod_sects_eq_zero sector).mpr hal.sector, (mod_sects_eq_zero nsect).mpr hal.nsect,
      fun b hb => ?_⟩
    have hwraps : ¬ 2 ^ 55 ≤ sector.toNat + nsect.toNat := fun hwraps =>
      h ⟨hal, by omega, hwraps, hleft⟩
    rw [Nat.mod_eq_of_lt (not_le.mp hwraps)] at hleft
    obtain ⟨⟨k, hk⟩, ⟨m, hm⟩⟩ := hal
    omega

/-- Sector `2 ^ 55` is byte `2 ^ 64`: the transfer of one block there is accepted. -/
theorem wrapped_offset_accepted : checkBlockSize 36028797018963968 8 = true ∧
    loopBlks (36028797018963968 / kernSectsPerHardSect) (8 / kernSectsPerHardSect).toNat =
      [4503599627370496] ∧
    ¬ InsideDevice 36028797018963968 8 := by
  have hacc : checkBlockSize 36028797018963968 8 = true := by
    rw [checkBlockSize_iff]
    exact ⟨⟨by decide, by decide⟩, by decide⟩
  refine ⟨hacc, by decide, fun h => ?_⟩
  have hlt := (h hacc).2.2 4503599627370496 (by decide)
  rw [totalSmrBlocksCnt_eq] at hlt
  revert hlt
  decide

/-! ## The transfers of the driver -/

/-- **A transfer that leaves the device is not completed**: the tables of the module end there. -/
theorem doDataTransfer_inside {env : Env} {s s' : Ext2Sys SmrDev} {seg : Segment}
    {buffer : ℕ → Block} (h : BetweenCalls s)
    (hrun : doDataTransfer env s seg = .ok (buffer, s')) : ¬ WrapsInside seg.sector seg.nsect := by
  refine (accepted_inside_iff _ _).mp fun hacc => ?_
  obtain ⟨hsector, hnsect⟩ := (checkBlockSize_iff.mp hacc).1
  refine ⟨(mod_sects_eq_zero _).mpr hsector, (mod_sects_eq_zero _).mpr hnsect, fun b hb => ?_⟩
  rw [mem_loopBlks_transfer, ← toNat_div_sects, ← toNat_div_sects] at hb
  change seg.firstBlk ≤ _ ∧ _ < seg.firstBlk + seg.blks at hb
  have hrange : seg.firstBlk + seg.blks ≤ totalSmrBlocksCnt := by
    cases hw : seg.write with
    | false => exact (h.readTransfer hacc hw hrun).2.1 (by omega)
    | true =>
      obtain ⟨s₁, hs₁, -⟩ := doDataTransfer_write_ok hacc hw hrun
      have hlen : seg.bufs.length = seg.blks := by
        rw [Segment.bufs, List.length_map, List.length_range]
      have hle := (h.writeSmrBlocks hs₁).2.1 fun hnil => by
        rw [hnil, List.length_nil] at hlen
        omega
      rwa [hlen] at hle
  omega

end MemSmr
