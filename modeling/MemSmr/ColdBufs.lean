import MemSmr.Lib.Select
import MemSmr.Buffer
import MemSmr.Device

/-!
# The buffers chosen for a swap

`swap_out_coldest` goes through the buffers and keeps the `SWAP_OUT_CNT` coldest so far in `cold_bufs`.
`update_cold_buf` compares the *writes* of a buffer with the largest access count kept.

* `updateColdBuf_spec`: one round, with the position of the largest access count.
* `swap_out_coldest_iff`: when the buffers left in `cold_bufs` are the coldest.
-/

namespace MemSmr

open Select

namespace SmrDev

/-- The access count of a buffer, as a number. -/
def accesses (d : SmrDev) (bufNo : ℕ) : ℤ := (d.getAccessCnt bufNo).toInt

/-- Its writes. -/
def writes (d : SmrDev) (bufNo : ℕ) : ℤ := (d.buf.reverseTable bufNo).writeCnt.toInt

/-- The counts are not negative, and their sum is an `int`. -/
def CountsFit (d : SmrDev) : Prop := ∀ q < blocksOfHddBuf, 0 ≤ d.writes q ∧
  0 ≤ (d.buf.reverseTable q).readCnt.toInt ∧
  d.writes q + (d.buf.reverseTable q).readCnt.toInt < 2 ^ 31

/-- No buffer outside `cold_bufs` is colder than one in it. -/
def Coldest (d : SmrDev) : Prop := ∀ i < swapOutCnt, ∀ q < blocksOfHddBuf,
  (∀ j < swapOutCnt, d.coldBuf j ≠ q) → d.accesses (d.coldBuf i) ≤ d.accesses q

theorem CountsFit.accesses_eq {d : SmrDev} (h : d.CountsFit) {q : ℕ} (hq : q < blocksOfHddBuf) :
    d.accesses q = d.writes q + (d.buf.reverseTable q).readCnt.toInt := by
  obtain ⟨h1, h2, h3⟩ := h q hq
  rw [writes] at h1 h3
  rw [accesses, getAccessCnt, writes, Int32.toInt_add]
  exact Int.bmod_eq_of_le (by omega) (by omega)

theorem CountsFit.writes_le {d : SmrDev} (h : d.CountsFit) {q : ℕ} (hq : q < blocksOfHddBuf) :
    d.writes q ≤ d.accesses q := by
  rw [h.accesses_eq hq]
  have := (h q hq).2.1
  omega

theorem CountsFit.minValue_lt {d : SmrDev} (h : d.CountsFit) {q : ℕ} (hq : q < blocksOfHddBuf) :
    Int32.minValue < d.getAccessCnt q := by
  rw [Int32.lt_iff_toInt_lt, Int32.toInt_minValue]
  have h1 := (h q hq).1
  have h2 := h.writes_le hq
  rw [accesses] at h2
  omega

/-! ## One round -/

/-- The loop of `update_cold_buf` finds the largest access count among the first `n` entries. -/
theorem scanColdBufs_loop (d : SmrDev) (bufNo : ℕ) {n : ℕ} (hn : 0 < n)
    (hne : ∀ j < n, d.coldBuf j ≠ bufNo)
    (hmin : ∀ j < n, Int32.minValue < d.getAccessCnt (d.coldBuf j)) :
    ∃ p < n, (List.range n).foldlM (fun st i =>
        let curNo := d.buf.coldBufs i
        if curNo = (bufNo : ℤ) then none
        else if st.2 < d.getAccessCnt (d.coldBuf i) then some (some i, d.getAccessCnt (d.coldBuf i))
        else some st) ((none : Option ℕ), Int32.minValue) =
          some (some p, d.getAccessCnt (d.coldBuf p)) ∧
      ∀ j < n, d.accesses (d.coldBuf j) ≤ d.accesses (d.coldBuf p) := by
  have hother : ∀ j < n, d.buf.coldBufs j ≠ (bufNo : ℤ) := fun j hj heq =>
    hne j hj (by rw [coldBuf, heq, Int.toNat_natCast])
  clear hne
  induction n with
  | zero => exact absurd hn (lt_irrefl 0)
  | succ n ih =>
    rw [List.range_succ, List.foldlM_append]
    rcases Nat.eq_zero_or_pos n with rfl | hpos
    · refine ⟨0, Nat.one_pos, ?_, fun j hj => ?_⟩
      · simp [hother 0 Nat.one_pos, hmin 0 Nat.one_pos]
      · obtain rfl : j = 0 := by omega
        exact le_refl _
    · obtain ⟨p, hp, hfold, hmax⟩ := ih hpos (fun j hj => hmin j (by omega))
        fun j hj => hother j (by omega)
      rw [hfold]
      have hnext := hother n (Nat.lt_succ_self n)
      by_cases hlt : d.getAccessCnt (d.coldBuf p) < d.getAccessCnt (d.coldBuf n)
      · refine ⟨n, Nat.lt_succ_self n, by simp [hnext, hlt], fun j hj => ?_⟩
        have hlt' := Int32.lt_iff_toInt_lt.mp hlt
        by_cases hjn : j = n
        · rw [hjn]
        · exact (hmax j (by omega)).trans hlt'.le
      · refine ⟨p, by omega, by simp [hnext, hlt], fun j hj => ?_⟩
        have hlt' := mt Int32.lt_iff_toInt_lt.mpr hlt
        by_cases hjn : j = n
        · rw [hjn]
          exact not_lt.mp hlt'
        · exact hmax j (by omega)

/-- **`update_cold_buf`** on a buffer that is not in `cold_bufs`. -/
theorem updateColdBuf_spec (d : SmrDev) (bufNo : ℕ)
    (hne : ∀ j < swapOutCnt, d.coldBuf j ≠ bufNo)
    (hmin : ∀ j < swapOutCnt, Int32.minValue < d.getAccessCnt (d.coldBuf j)) :
    ∃ p < swapOutCnt,
      (∀ j < swapOutCnt, d.accesses (d.coldBuf j) ≤ d.accesses (d.coldBuf p)) ∧
      d.updateColdBuf bufNo = if d.writes bufNo < d.accesses (d.coldBuf p)
        then d.setColdBuf p bufNo else d := by
  obtain ⟨p, hp, hscan, hmax⟩ := scanColdBufs_loop d bufNo (by rw [swapOutCnt_eq]; decide) hne hmin
  refine ⟨p, hp, hmax, ?_⟩
  rw [updateColdBuf, scanColdBufs, hscan]
  exact if_congr Int32.lt_iff_toInt_lt rfl rfl

/-! ## All rounds -/

/-- The buffers in `cold_bufs`. -/
def kept (c : ℕ → ℕ) : Finset ℕ := (Finset.range swapOutCnt).image c

/-- `cold_bufs` after the first `n` rounds of the selection. -/
def coldAfter (d : SmrDev) (n : ℕ) : ℕ → ℕ := ((List.range n).foldl
  (fun d i => if i < swapOutCnt then d.setColdBuf i i else d.updateColdBuf i) d).coldBuf

theorem mem_kept {c : ℕ → ℕ} {q : ℕ} : q ∈ kept c ↔ ∃ j < swapOutCnt, c j = q := by
  rw [kept, Finset.mem_image]
  simp only [Finset.mem_range]

theorem kept_update {c : ℕ → ℕ} {n p q : ℕ} (h : ColdBufs c swapOutCnt n) (hp : p < swapOutCnt) :
    kept (Function.update c p q) = insert q ((kept c).erase (c p)) := by
  ext x
  rw [mem_kept, Finset.mem_insert, Finset.mem_erase, mem_kept]
  constructor
  · rintro ⟨j, hj, rfl⟩
    by_cases hjp : j = p
    · rw [hjp, Function.update_self]
      exact Or.inl rfl
    · rw [Function.update_of_ne hjp]
      exact Or.inr ⟨fun heq => hjp (h.inj j hj p hp heq), j, hj, rfl⟩
  · rintro (rfl | ⟨hne, j, hj, rfl⟩)
    · exact ⟨p, hp, Function.update_self _ _ _⟩
    · exact ⟨j, hj, Function.update_of_ne (fun hjp => hne (by rw [hjp])) _ _⟩

theorem coldAfter_start (d : SmrDev) {n : ℕ} (hn : n ≤ swapOutCnt) :
    ∀ j < n, d.coldAfter n j = j := by
  refine Outcome.foldl_range (fun i (d' : SmrDev) => i ≤ swapOutCnt → ∀ j < i, d'.coldBuf j = j)
    (fun _ j hj => absurd hj (by omega)) (fun i _ d' hd' hi j hj => ?_) hn
  rw [if_pos (by omega), coldBuf_setColdBuf]
  by_cases hji : j = i
  · rw [hji, Function.update_self]
  · rw [Function.update_of_ne hji]
    exact hd' (by omega) j (by omega)

/-- At first the first buffers are kept, and there are no others yet. -/
theorem least_start (d : SmrDev) :
    Least d.accesses swapOutCnt swapOutCnt (kept (d.coldAfter swapOutCnt)) := by
  have hkept : kept (d.coldAfter swapOutCnt) = Finset.range swapOutCnt := by
    ext q
    rw [mem_kept, Finset.mem_range]
    constructor
    · rintro ⟨j, hj, rfl⟩
      rwa [coldAfter_start d (le_refl _) j hj]
    · exact fun hq => ⟨q, hq, coldAfter_start d (le_refl _) q hq⟩
  rw [hkept]
  exact ⟨Finset.Subset.refl _, Finset.card_range _,
    fun _ _ x hx hout => absurd (Finset.mem_range.mpr hx) hout⟩

theorem coldAfter_step {d : SmrDev} (h : d.CountsFit) {q : ℕ} (hq : swapOutCnt ≤ q)
    (hlt : q < blocksOfHddBuf) : Step d.accesses d.writes q (kept (d.coldAfter q))
      (kept (d.coldAfter (q + 1))) := by
  obtain ⟨e, he, hcold⟩ := selectRounds_spec d q
  rw [Nat.min_eq_right hq] at hcold
  obtain ⟨p, hp, hmax, hupdate⟩ := updateColdBuf_spec (d.setColdBufs e) q
    (fun j hj => (hcold.lt j hj).ne)
    (fun j hj => h.minValue_lt ((hcold.lt j hj).trans hlt))
  have hq₁ : d.coldAfter q = (d.setColdBufs e).coldBuf := by
    rw [coldAfter, he]
  have hq₂ : d.coldAfter (q + 1) = if d.writes q < d.accesses ((d.setColdBufs e).coldBuf p) then
      Function.update (d.setColdBufs e).coldBuf p q else (d.setColdBufs e).coldBuf := by
    rw [coldAfter, List.range_succ, List.foldl_append, he, List.foldl_cons, List.foldl_nil,
      if_neg (not_lt.mpr hq), hupdate]
    change (if d.writes q < d.accesses ((d.setColdBufs e).coldBuf p) then _ else _ : SmrDev).coldBuf = _
    split_ifs
    · exact coldBuf_setColdBuf (d.setColdBufs e) p q
    · rfl
  generalize (d.setColdBufs e).coldBuf = c at *
  refine ⟨c p, ⟨?_, fun x hx => ?_⟩, ?_⟩
  · rw [hq₁]
    exact mem_kept.mpr ⟨p, hp, rfl⟩
  · rw [hq₁] at hx
    obtain ⟨j, hj, rfl⟩ := mem_kept.mp hx
    exact hmax j hj
  · rw [hq₁, hq₂]
    split_ifs
    · exact kept_update hcold hp
    · rfl

/-- The buffers left in `cold_bufs` are the coldest just when no other selection of as many has
colder ones. -/
theorem coldest_iff (d : SmrDev) : d.selectColdBufs.Coldest ↔
    Least d.accesses blocksOfHddBuf swapOutCnt (kept (d.coldAfter blocksOfHddBuf)) := by
  obtain ⟨⟨e, he⟩, hcold⟩ := selectColdBufs_spec d
  rw [show d.coldAfter blocksOfHddBuf = d.selectColdBufs.coldBuf from rfl]
  rw [he] at hcold ⊢
  constructor
  · intro h
    refine ⟨fun x hx => ?_, ?_, fun x hx q hq hout => ?_⟩
    · obtain ⟨j, hj, rfl⟩ := mem_kept.mp hx
      exact Finset.mem_range.mpr (hcold.lt j hj)
    · rw [kept, Finset.card_image_of_injOn, Finset.card_range]
      intro i hi j hj heq
      exact hcold.inj i (Finset.mem_range.mp hi) j (Finset.mem_range.mp hj) heq
    · obtain ⟨i, hi, rfl⟩ := mem_kept.mp hx
      exact h i hi q hq fun j hj heq => hout (mem_kept.mpr ⟨j, hj, heq⟩)
  · intro h i hi q hq hout
    refine h.le _ (mem_kept.mpr ⟨i, hi, rfl⟩) q hq fun hmem => ?_
    obtain ⟨j, hj, heq⟩ := mem_kept.mp hmem
    exact hout j hj heq

theorem selectColdBufs_coldest_iff {d : SmrDev} (h : d.CountsFit) : d.selectColdBufs.Coldest ↔
    AllMended d.accesses d.writes swapOutCnt swapOutCnt blocksOfHddBuf :=
  (coldest_iff d).trans (selection_least_iff (S := fun n => kept (d.coldAfter n)) swapOutCnt_le
    (least_start d) (fun _ _ hi => h.writes_le hi) fun _ hi hlt => coldAfter_step h hi hlt)

/-- **The coldest buffers are swapped out** just when every mistake is made good.  Buffer `i` is a
mistake if fewer than `SWAP_OUT_CNT` buffers before it have no more accesses than it has writes, but
at least as many have fewer accesses than it.  It is made good by a later buffer that has, of those
before it, fewer than `SWAP_OUT_CNT` with fewer accesses. -/
theorem swap_out_coldest_iff (d : SmrDev) (h : d.CountsFit) :
    d.selectColdBufs.Coldest ↔ ∀ i, swapOutCnt ≤ i → i < blocksOfHddBuf →
      Nat.count (fun q => d.accesses q ≤ d.writes i) i < swapOutCnt →
      swapOutCnt ≤ Nat.count (fun q => d.accesses q < d.accesses i) i →
      ∃ j, i < j ∧ j < blocksOfHddBuf ∧
        Nat.count (fun q => d.accesses q < d.accesses j) j < swapOutCnt := by
  rw [selectColdBufs_coldest_iff h, AllMended]
  simp only [Mistaken, Mended, and_imp]

/-- The counts of a buffer in which the block in buffer 128 has been written once and read five times,
those before it have been written twice, and those after it nine times. -/
def readMostly (q : ℕ) : HddBufEntry :=
  if q < 128 then ⟨q, 0, 2⟩ else if q = 128 then ⟨q, 5, 1⟩ else ⟨q, 0, 9⟩

/-- A device with these counts. -/
def readMostlyDev : SmrDev :=
  { (freshModule fun _ => 0).dev with buf := { zeroBufCtr with reverseTable := readMostly } }

theorem readMostlyDev_counts (q : ℕ) :
    readMostlyDev.writes q = (if q < 128 then 2 else if q = 128 then 1 else 9) ∧
    (readMostlyDev.buf.reverseTable q).readCnt.toInt = (if q = 128 then 5 else 0) ∧
    readMostlyDev.accesses q = if q < 128 then 2 else if q = 128 then 6 else 9 := by
  rw [writes, accesses, getAccessCnt]
  change (readMostly q).writeCnt.toInt = _ ∧ (readMostly q).readCnt.toInt = _ ∧
    ((readMostly q).writeCnt + (readMostly q).readCnt).toInt = _
  rw [readMostly]
  split_ifs
  · omega
  · exact ⟨rfl, rfl, rfl⟩
  · exact ⟨rfl, rfl, rfl⟩
  · exact ⟨rfl, rfl, rfl⟩

theorem countsFit_readMostlyDev : readMostlyDev.CountsFit := by
  intro q _
  obtain ⟨h1, h2, -⟩ := readMostlyDev_counts q
  rw [h1, h2]
  split_ifs <;> omega

/-- The condition for the buffer with these counts. -/
theorem swap_out_coldest_readMostly :
    readMostlyDev.selectColdBufs.Coldest ↔ ∀ i, swapOutCnt ≤ i → i < blocksOfHddBuf →
      Nat.count (fun q => readMostlyDev.accesses q ≤ readMostlyDev.writes i) i < swapOutCnt →
      swapOutCnt ≤ Nat.count (fun q => readMostlyDev.accesses q < readMostlyDev.accesses i) i →
      ∃ j, i < j ∧ j < blocksOfHddBuf ∧
        Nat.count (fun q => readMostlyDev.accesses q < readMostlyDev.accesses j) j < swapOutCnt :=
  swap_out_coldest_iff readMostlyDev countsFit_readMostlyDev

/-- **A swap that is not of the coldest**: buffer 128, with six accesses, is swapped out in the place
of a buffer with two. -/
theorem swap_out_warm : readMostlyDev.CountsFit ∧ ¬ readMostlyDev.selectColdBufs.Coldest := by
  have hlow : ∀ n, 128 ≤ n → ∀ v, (2 : ℤ) < v →
      128 ≤ Nat.count (fun q => readMostlyDev.accesses q < v) n := by
    intro n hn v hv
    have hle := card_le_count (R := Finset.range 128) (q := n)
      (p := fun q => readMostlyDev.accesses q < v) (Finset.range_subset_range.mpr hn) fun q hq => by
        rw [(readMostlyDev_counts q).2.2, if_pos (Finset.mem_range.mp hq)]
        exact hv
    rwa [Finset.card_range] at hle
  refine ⟨countsFit_readMostlyDev, fun h => ?_⟩
  rw [selectColdBufs_coldest_iff countsFit_readMostlyDev] at h
  have haccess : readMostlyDev.accesses 128 = 6 := (readMostlyDev_counts 128).2.2
  have hwrites : readMostlyDev.writes 128 = 1 := (readMostlyDev_counts 128).1
  obtain ⟨j, hj, -, hmended⟩ := h 128 (by rw [swapOutCnt_eq]) (by rw [blocksOfHddBuf_eq]; decide) (by
    refine ⟨?_, ?_⟩
    · rw [hwrites, Nat.count_eq_card_filter_range, Finset.filter_false_of_mem, swapOutCnt_eq]
      · decide
      · intro q hq
        rw [(readMostlyDev_counts q).2.2, if_pos (Finset.mem_range.mp hq)]
        decide
    · rw [haccess, swapOutCnt_eq]
      exact hlow 128 (le_refl _) 6 (by decide))
  have h9 : readMostlyDev.accesses j = 9 := by
    rw [(readMostlyDev_counts j).2.2, if_neg (by omega), if_neg (by omega)]
  rw [Mended, h9, swapOutCnt_eq] at hmended
  have := hlow j (by omega) 9 (by decide)
  omega

end SmrDev

end MemSmr
