import MemSmr.Lib.Outcome

/-!
# `hash_set.c`: the sorted vector

A `sorted_vector` is a `hash_set` with one bucket, and the bucket is an array of block numbers kept
in ascending order.  `doBlkNo` is the routine that searches, inserts and removes in one binary
search.

* `BlocksBucket`, `HashSet`: the two structs.  `BlocksBucket.overrun` is not in the source; it
  records that a store fell outside the `capacity` entries that were allocated.
* `Bucket.WF`, `HashSet.WF`: what holds of every vector between calls.
* `SortedVector`: a `HashSet` that carries its `HashSet.WF`.  The rest of the development uses
  vectors only in this form, through `mem_insert`, `mem_remove`, `mem_clear` and `mem_copyFrom`.
-/

namespace MemSmr

/-- `DEF_CAPACITY_OF_BUCKET`. -/
abbrev defCapacityOfBucket : ℕ := 8

/-- `HSET_ACTION_FAIL`. -/
abbrev hsetActionFail : ℤ := -1

/-- `enum BLOCK_ACTION`. -/
inductive BlockAction where
  | searchBlk
  | insertBlk
  | removeBlk
  deriving DecidableEq

/-- `blocks_bucket`.  `blks` is the allocated array, of which `capacity` entries exist. -/
structure BlocksBucket where
  blksCnt : ℕ
  capacity : ℕ
  blks : ℕ → ℕ
  overrun : Bool

/-- `hash_set`, also under the name `sorted_vector`. -/
structure HashSet where
  buckets : ℕ → BlocksBucket
  bucketsCnt : ℕ
  blocksCnt : ℕ

namespace BlocksBucket

/-- `bk->blks[i] = v`. -/
def store (bk : BlocksBucket) (i v : ℕ) : BlocksBucket :=
  if i < bk.capacity then { bk with blks := Function.update bk.blks i v }
  else { bk with overrun := true }

/-- Where the binary search of `do_blk_no` ends. -/
inductive SearchResult where
  | found : ℕ → SearchResult
  | missing : ℕ → SearchResult

/-- The binary search of `do_blk_no`.  `hi` is `right + 1`, which never goes below zero; every round
shrinks `[left, hi)`, so its length is fuel enough. -/
def searchLoop (bk : BlocksBucket) (blkNo : ℕ) : ℕ → ℕ → ℕ → SearchResult
  | 0, left, _ => .missing left
  | fuel + 1, left, hi =>
    if left < hi then
      let i := (left + hi - 1) / 2
      if blkNo < bk.blks i then searchLoop bk blkNo fuel left i
      else if bk.blks i < blkNo then searchLoop bk blkNo fuel (i + 1) hi
      else .found i
    else .missing left

/-- The removal loop: move the entries after `i` down by one. -/
def shiftDown (bk : BlocksBucket) (i : ℕ) : BlocksBucket :=
  (List.range (bk.blksCnt - 1 - i)).foldl
    (fun b k => b.store (i + k) (b.blks (i + k + 1))) bk

/-- The insertion loop, `j` from `blks_cnt - 1` down to `left`: move the entries up by one. -/
def shiftUp (bk : BlocksBucket) (left : ℕ) : BlocksBucket :=
  (List.range (bk.blksCnt - left)).foldl
    (fun b k => b.store (bk.blksCnt - k) (b.blks (bk.blksCnt - k - 1))) bk

/-- `do_blk_no`. -/
def doBlkNo (bk : BlocksBucket) (blkNo : ℕ) (action : BlockAction) : ℤ × BlocksBucket :=
  if bk.blksCnt = 0 then
    if action = .searchBlk ∨ action = .removeBlk then (hsetActionFail, bk)
    else (0, { bk.store 0 blkNo with blksCnt := bk.blksCnt + 1 })
  else
    match bk.searchLoop blkNo bk.blksCnt 0 bk.blksCnt with
    | .found i =>
      match action with
      | .searchBlk => (i, bk)
      | .removeBlk => (i, { bk.shiftDown i with blksCnt := bk.blksCnt - 1 })
      | .insertBlk => (hsetActionFail, bk)
    | .missing left =>
      if action = .searchBlk ∨ action = .removeBlk then (hsetActionFail, bk)
      else if bk.blksCnt ≤ left then
        (bk.blksCnt, { bk.store bk.blksCnt blkNo with blksCnt := bk.blksCnt + 1 })
      else
        (left, { (bk.shiftUp left).store left blkNo with blksCnt := bk.blksCnt + 1 })

/-- The reallocation in `insert_into_sorted_vector`: twice the capacity, the old entries copied. -/
def grow (bk : BlocksBucket) : BlocksBucket :=
  { bk with
    blks := fun i => if i < bk.capacity then bk.blks i else 0
    capacity := bk.capacity * 2 }

end BlocksBucket

namespace HashSet

/-- `hset->buckets[blk_no % hset->buckets_cnt]`. -/
def bucketOf (hset : HashSet) (blkNo : ℕ) : BlocksBucket :=
  hset.buckets (blkNo % hset.bucketsCnt)

/-- Put a bucket back where `bucketOf` found it. -/
def setBucketOf (hset : HashSet) (blkNo : ℕ) (bk : BlocksBucket) : HashSet :=
  { hset with buckets := Function.update hset.buckets (blkNo % hset.bucketsCnt) bk }

/-- `search_in_sorted_vector`. -/
def searchInSortedVector (hset : HashSet) (blkNo : ℕ) : ℤ :=
  ((hset.bucketOf blkNo).doBlkNo blkNo .searchBlk).1

/-- `is_existing`. -/
def isExisting (hset : HashSet) (blkNo : ℕ) : Bool :=
  hset.searchInSortedVector blkNo ≠ hsetActionFail

/-- `insert_into_sorted_vector`. -/
def insertIntoSortedVector (hset : HashSet) (blkNo : ℕ) : ℤ × HashSet :=
  let bk := hset.bucketOf blkNo
  let bk := if bk.blksCnt = bk.capacity then bk.grow else bk
  let (ret, bk) := bk.doBlkNo blkNo .insertBlk
  let hset := hset.setBucketOf blkNo bk
  (ret, if ret ≠ hsetActionFail then { hset with blocksCnt := hset.blocksCnt + 1 } else hset)

/-- `remove_from_sorted_vector`. -/
def removeFromSortedVector (hset : HashSet) (blkNo : ℕ) : ℤ × HashSet :=
  let (ret, bk) := (hset.bucketOf blkNo).doBlkNo blkNo .removeBlk
  let hset := hset.setBucketOf blkNo bk
  (ret, if ret ≠ hsetActionFail then { hset with blocksCnt := hset.blocksCnt - 1 } else hset)

/-- `create_hash_set`.  The arrays come from `vmalloc`; their first contents are never read. -/
def createHashSet (bucketsCnt : ℕ) : HashSet where
  buckets := fun _ => ⟨0, defCapacityOfBucket, fun _ => 0, false⟩
  bucketsCnt := bucketsCnt
  blocksCnt := 0

/-- `get_vect_size`. -/
def getVectSize (hset : HashSet) : ℕ := hset.blocksCnt

/-- `get_vect_element`.  The failure value is `HSET_ACTION_FAIL` as a `block_t`. -/
def getVectElement (vect : HashSet) (pos : ℤ) : ℕ :=
  if pos < 0 ∨ (vect.getVectSize : ℤ) ≤ pos then 2 ^ 64 - 1 else (vect.buckets 0).blks pos.toNat

/-- `remove_all_elements`. -/
def removeAllElements (vect : HashSet) : HashSet :=
  { vect with
    blocksCnt := 0
    buckets := Function.update vect.buckets 0 { vect.buckets 0 with blksCnt := 0 } }

/-- `copy_all_elements`. -/
def copyAllElements (dst src : HashSet) : HashSet :=
  (List.range src.getVectSize).foldl
    (fun d (i : ℕ) => (d.insertIntoSortedVector (src.getVectElement i)).2) dst.removeAllElements

end HashSet

/-! ## One bucket -/

namespace BlocksBucket

/-- What holds of a bucket between calls. -/
structure WF (bk : BlocksBucket) : Prop where
  cnt_le : bk.blksCnt ≤ bk.capacity
  capacity_pos : 0 < bk.capacity
  no_overrun : bk.overrun = false
  ascending : ∀ i j, i < j → j < bk.blksCnt → bk.blks i < bk.blks j

/-- The bucket holds the block number `b`. -/
def Has (bk : BlocksBucket) (b : ℕ) : Prop := ∃ i < bk.blksCnt, bk.blks i = b

theorem store_of_lt {bk : BlocksBucket} {i v : ℕ} (h : i < bk.capacity) :
    bk.store i v = { bk with blks := Function.update bk.blks i v } := if_pos h

theorem WF.blks_injective {bk : BlocksBucket} (h : bk.WF) {i j : ℕ} (hi : i < bk.blksCnt)
    (hj : j < bk.blksCnt) (he : bk.blks i = bk.blks j) : i = j := by
  rcases Nat.lt_trichotomy i j with hlt | rfl | hlt
  · exact absurd he (Nat.ne_of_lt (h.ascending i j hlt hj))
  · rfl
  · exact absurd he (Nat.ne_of_gt (h.ascending j i hlt hi))

/-- What the binary search promises: the position of `b`, or the place where it belongs. -/
def SearchResult.Correct (bk : BlocksBucket) (b : ℕ) : SearchResult → Prop
  | .found i => i < bk.blksCnt ∧ bk.blks i = b
  | .missing left => left ≤ bk.blksCnt ∧ (∀ j < left, bk.blks j < b) ∧
      ∀ j, left ≤ j → j < bk.blksCnt → b < bk.blks j

/-- The loop invariant: everything left of the window is smaller than `b`, everything from its
right end on is larger. -/
theorem searchLoop_correct {bk : BlocksBucket} (h : bk.WF) (b : ℕ) :
    ∀ fuel left hi, hi ≤ bk.blksCnt → left ≤ hi → hi - left ≤ fuel →
      (∀ j < left, bk.blks j < b) → (∀ j, hi ≤ j → j < bk.blksCnt → b < bk.blks j) →
      (bk.searchLoop b fuel left hi).Correct bk b := by
  intro fuel
  induction fuel with
  | zero =>
    intro left hi hhi hle hfuel hlo hup
    have : left = hi := by omega
    subst this
    exact ⟨hhi, hlo, hup⟩
  | succ fuel ih =>
    intro left hi hhi hle hfuel hlo hup
    rw [searchLoop]
    by_cases hlt : left < hi
    · rw [if_pos hlt]
      have hmid : left ≤ (left + hi - 1) / 2 ∧ (left + hi - 1) / 2 < hi := by omega
      generalize (left + hi - 1) / 2 = i at hmid
      obtain ⟨hli, hih⟩ := hmid
      have hi' : i < bk.blksCnt := lt_of_lt_of_le hih hhi
      dsimp only
      split_ifs with hbi hib
      · -- continue on the left half
        refine ih left i (by omega) hli (by omega) hlo fun j hij hj => ?_
        rcases Nat.eq_or_lt_of_le hij with rfl | hij
        · exact hbi
        · exact lt_trans hbi (h.ascending i j hij hj)
      · -- continue on the right half
        refine ih (i + 1) hi hhi (by omega) (by omega) (fun j hj => ?_) hup
        rcases Nat.lt_succ_iff_lt_or_eq.mp hj with hj | rfl
        · exact lt_trans (h.ascending j i hj hi') hib
        · exact hib
      · exact ⟨hi', by omega⟩
    · rw [if_neg hlt]
      have : left = hi := by omega
      subst this
      exact ⟨hhi, hlo, hup⟩

theorem search_correct {bk : BlocksBucket} (h : bk.WF) (b : ℕ) :
    (bk.searchLoop b bk.blksCnt 0 bk.blksCnt).Correct bk b :=
  searchLoop_correct h b _ _ _ (Nat.le_refl _) (Nat.zero_le _) (Nat.le_refl _)
    (fun j hj => absurd hj (Nat.not_lt_zero j)) fun _ hj hj' => absurd hj' (Nat.not_lt.mpr hj)

theorem not_has_of_missing {bk : BlocksBucket} {b left : ℕ}
    (h : SearchResult.Correct bk b (.missing left)) : ¬ bk.Has b := by
  rintro ⟨j, hj, rfl⟩
  rcases Nat.lt_or_ge j left with hlt | hge
  · exact Nat.lt_irrefl _ (h.2.1 j hlt)
  · exact Nat.lt_irrefl _ (h.2.2 j hge hj)

theorem shiftDown_eq {bk : BlocksBucket} (h : bk.blksCnt ≤ bk.capacity) (i : ℕ) :
    bk.shiftDown i = { bk with
      blks := fun j => if i ≤ j ∧ j < i + (bk.blksCnt - 1 - i) then bk.blks (j + 1)
        else bk.blks j } := by
  refine Outcome.foldl_range (n := bk.blksCnt - 1 - i) (fun k b => b = { bk with
    blks := fun j => if i ≤ j ∧ j < i + k then bk.blks (j + 1) else bk.blks j }) ?_ ?_
  · have : (fun j => if i ≤ j ∧ j < i + 0 then bk.blks (j + 1) else bk.blks j) = bk.blks := by
      funext j
      exact if_neg (by omega)
    rw [this]
  · rintro k hk b rfl
    rw [store_of_lt (by dsimp only; omega)]
    dsimp only
    congr 1
    funext j
    rw [Function.update_apply]
    by_cases hj : j = i + k
    · rw [if_pos hj, if_neg (by omega), if_pos (by omega), hj]
    · rw [if_neg hj]
      exact if_congr (by omega) rfl rfl

theorem shiftUp_eq {bk : BlocksBucket} (h : bk.blksCnt < bk.capacity) (left : ℕ) :
    bk.shiftUp left = { bk with
      blks := fun j => if bk.blksCnt - (bk.blksCnt - left) < j ∧ j ≤ bk.blksCnt
        then bk.blks (j - 1) else bk.blks j } := by
  refine Outcome.foldl_range (n := bk.blksCnt - left) (fun k b => b = { bk with
    blks := fun j => if bk.blksCnt - k < j ∧ j ≤ bk.blksCnt then bk.blks (j - 1)
      else bk.blks j }) ?_ ?_
  · have : (fun j => if bk.blksCnt - 0 < j ∧ j ≤ bk.blksCnt then bk.blks (j - 1)
        else bk.blks j) = bk.blks := by
      funext j
      exact if_neg (by omega)
    rw [this]
  · rintro k hk b rfl
    rw [store_of_lt (by dsimp only; omega)]
    dsimp only
    congr 1
    funext j
    rw [Function.update_apply]
    by_cases hj : j = bk.blksCnt - k
    · rw [if_pos hj, if_neg (by omega), if_pos (by omega), hj]
    · rw [if_neg hj]
      exact if_congr (by omega) rfl rfl

/-- The bucket after `b` has been put at position `pos`. -/
def insertAt (bk : BlocksBucket) (pos b : ℕ) : BlocksBucket :=
  { bk with
    blksCnt := bk.blksCnt + 1
    blks := fun j =>
      if j = pos then b else if pos < j ∧ j ≤ bk.blksCnt then bk.blks (j - 1) else bk.blks j }

/-- The bucket after the entry at position `pos` has been taken out. -/
def eraseAt (bk : BlocksBucket) (pos : ℕ) : BlocksBucket :=
  { bk with
    blksCnt := bk.blksCnt - 1
    blks := fun j => if pos ≤ j ∧ j < bk.blksCnt - 1 then bk.blks (j + 1) else bk.blks j }

theorem WF.insertAt {bk : BlocksBucket} (h : bk.WF) (hroom : bk.blksCnt < bk.capacity) {pos b : ℕ}
    (hp : SearchResult.Correct bk b (.missing pos)) : (bk.insertAt pos b).WF := by
  obtain ⟨hpos, hlo, hup⟩ := hp
  refine ⟨hroom, h.capacity_pos, h.no_overrun, fun i j hij hj => ?_⟩
  simp only [BlocksBucket.insertAt] at hj ⊢
  split_ifs with h1 h2 h3 h4 h5 h6 h7
  · omega
  · exact hup _ (by omega) (by omega)
  · exact hup _ (by omega) (by omega)
  · omega
  · exact h.ascending _ _ (by omega) (by omega)
  · omega
  · exact hlo i (by omega)
  · exact h.ascending _ _ (by omega) (by omega)
  · exact h.ascending _ _ (by omega) (by omega)

theorem has_insertAt {bk : BlocksBucket} {pos : ℕ} (hpos : pos ≤ bk.blksCnt) (b x : ℕ) :
    (bk.insertAt pos b).Has x ↔ x = b ∨ bk.Has x := by
  constructor
  · rintro ⟨j, hj, hx⟩
    simp only [insertAt] at hj hx
    split_ifs at hx with h1 h2
    · exact Or.inl hx.symm
    · exact Or.inr ⟨j - 1, by omega, hx⟩
    · exact Or.inr ⟨j, by omega, hx⟩
  · rintro (rfl | ⟨j, hj, rfl⟩)
    · exact ⟨pos, Nat.lt_succ_of_le hpos, if_pos rfl⟩
    · rcases Nat.lt_or_ge j pos with hlt | hge
      · refine ⟨j, Nat.lt_succ_of_lt hj, ?_⟩
        simp only [insertAt]
        rw [if_neg (by omega), if_neg (by omega)]
      · refine ⟨j + 1, Nat.succ_lt_succ hj, ?_⟩
        simp only [insertAt]
        rw [if_neg (by omega), if_pos (by omega), Nat.add_sub_cancel]

theorem WF.eraseAt {bk : BlocksBucket} (h : bk.WF) (pos : ℕ) : (bk.eraseAt pos).WF := by
  have hle := h.cnt_le
  refine ⟨le_trans (Nat.sub_le _ _) hle, h.capacity_pos, h.no_overrun, fun i j hij hj => ?_⟩
  simp only [BlocksBucket.eraseAt] at hj ⊢
  split_ifs with h1 h2 h3
  · exact h.ascending _ _ (by omega) (by omega)
  · omega
  · exact h.ascending _ _ (by omega) (by omega)
  · exact h.ascending _ _ (by omega) (by omega)

theorem has_eraseAt {bk : BlocksBucket} (h : bk.WF) {pos : ℕ} (hpos : pos < bk.blksCnt) (x : ℕ) :
    (bk.eraseAt pos).Has x ↔ bk.Has x ∧ x ≠ bk.blks pos := by
  constructor
  · rintro ⟨j, hj, rfl⟩
    simp only [eraseAt] at hj ⊢
    split_ifs with h1
    · exact ⟨⟨j + 1, by omega, rfl⟩, fun he => by
        have := h.blks_injective (by omega) hpos he
        omega⟩
    · exact ⟨⟨j, by omega, rfl⟩, fun he => by
        have := h.blks_injective (by omega) hpos he
        omega⟩
  · rintro ⟨⟨j, hj, rfl⟩, hne⟩
    have hjp : j ≠ pos := fun he => hne (by rw [he])
    rcases Nat.lt_or_ge j pos with hlt | hge
    · refine ⟨j, ?_, ?_⟩
      · simp only [eraseAt]; omega
      · simp only [eraseAt]
        exact if_neg (by omega)
    · refine ⟨j - 1, ?_, ?_⟩
      · simp only [eraseAt]; omega
      · simp only [eraseAt]
        rw [if_pos (by omega), Nat.sub_add_cancel (by omega)]

/-- `do_blk_no` with `SEARCH_BLK`. -/
theorem doBlkNo_search {bk : BlocksBucket} (h : bk.WF) (b : ℕ) :
    (∃ i < bk.blksCnt, bk.blks i = b ∧ bk.doBlkNo b .searchBlk = ((i : ℤ), bk)) ∨
      ¬ bk.Has b ∧ bk.doBlkNo b .searchBlk = (hsetActionFail, bk) := by
  rw [doBlkNo]
  by_cases h0 : bk.blksCnt = 0
  · rw [if_pos h0, if_pos (Or.inl rfl)]
    exact Or.inr ⟨fun ⟨i, hi, _⟩ => by omega, rfl⟩
  · rw [if_neg h0]
    have hs := search_correct h b
    cases hr : bk.searchLoop b bk.blksCnt 0 bk.blksCnt with
    | found i =>
      rw [hr] at hs
      exact Or.inl ⟨i, hs.1, hs.2, rfl⟩
    | missing left =>
      rw [hr] at hs
      exact Or.inr ⟨not_has_of_missing hs, rfl⟩

/-- `do_blk_no` with `INSERT_BLK`, on a bucket with room for one more entry. -/
theorem doBlkNo_insert {bk : BlocksBucket} (h : bk.WF) (hroom : bk.blksCnt < bk.capacity) (b : ℕ) :
    (bk.Has b ∧ bk.doBlkNo b .insertBlk = (hsetActionFail, bk)) ∨
      ∃ pos, SearchResult.Correct bk b (.missing pos) ∧
        bk.doBlkNo b .insertBlk = ((pos : ℤ), bk.insertAt pos b) := by
  rw [doBlkNo]
  by_cases h0 : bk.blksCnt = 0
  · refine Or.inr ⟨0, ⟨Nat.zero_le _, fun j hj => absurd hj (Nat.not_lt_zero j),
      fun j _ hj => by omega⟩, ?_⟩
    rw [if_pos h0, if_neg (by simp), store_of_lt h.capacity_pos]
    refine Prod.ext rfl ?_
    simp only [insertAt, h0]
    congr 1
    funext j
    rw [Function.update_apply]
    exact if_congr Iff.rfl rfl (if_neg (by omega)).symm
  · rw [if_neg h0]
    have hs := search_correct h b
    cases hr : bk.searchLoop b bk.blksCnt 0 bk.blksCnt with
    | found i =>
      rw [hr] at hs
      exact Or.inl ⟨⟨i, hs.1, hs.2⟩, rfl⟩
    | missing left =>
      rw [hr] at hs
      refine Or.inr ⟨left, hs, ?_⟩
      dsimp only
      rw [if_neg (by simp)]
      have hleft : left ≤ bk.blksCnt := hs.1
      by_cases hle : bk.blksCnt ≤ left
      · have he : left = bk.blksCnt := by omega
        rw [if_pos hle, store_of_lt hroom, he]
        refine Prod.ext rfl ?_
        simp only [insertAt]
        congr 1
        funext j
        rw [Function.update_apply]
        exact if_congr Iff.rfl rfl (if_neg (by omega)).symm
      · rw [if_neg hle, shiftUp_eq hroom, store_of_lt (by dsimp only; omega)]
        refine Prod.ext rfl ?_
        simp only [insertAt]
        congr 1
        funext j
        rw [Function.update_apply]
        exact if_congr Iff.rfl rfl (if_congr (by omega) rfl rfl)

/-- `do_blk_no` with `REMOVE_BLK`. -/
theorem doBlkNo_remove {bk : BlocksBucket} (h : bk.WF) (b : ℕ) :
    (∃ pos < bk.blksCnt, bk.blks pos = b ∧
        bk.doBlkNo b .removeBlk = ((pos : ℤ), bk.eraseAt pos)) ∨
      ¬ bk.Has b ∧ bk.doBlkNo b .removeBlk = (hsetActionFail, bk) := by
  rw [doBlkNo]
  by_cases h0 : bk.blksCnt = 0
  · rw [if_pos h0, if_pos (Or.inr rfl)]
    exact Or.inr ⟨fun ⟨i, hi, _⟩ => by omega, rfl⟩
  · rw [if_neg h0]
    have hs := search_correct h b
    cases hr : bk.searchLoop b bk.blksCnt 0 bk.blksCnt with
    | found i =>
      rw [hr] at hs
      refine Or.inl ⟨i, hs.1, hs.2, ?_⟩
      dsimp only
      rw [shiftDown_eq h.cnt_le]
      refine Prod.ext rfl ?_
      simp only [eraseAt]
      congr 1
      funext j
      have hi := hs.1
      exact if_congr (by omega) rfl rfl
    | missing left =>
      rw [hr] at hs
      exact Or.inr ⟨not_has_of_missing hs, rfl⟩

theorem WF.grow {bk : BlocksBucket} (h : bk.WF) : bk.grow.WF := by
  have hle := h.cnt_le
  refine ⟨?_, ?_, h.no_overrun, fun i j hij hj => ?_⟩
  · simp only [BlocksBucket.grow]; omega
  · have := h.capacity_pos
    simp only [BlocksBucket.grow]; omega
  · simp only [BlocksBucket.grow] at hj ⊢
    rw [if_pos (by omega), if_pos (by omega)]
    exact h.ascending i j hij hj

theorem has_grow {bk : BlocksBucket} (h : bk.WF) (x : ℕ) : bk.grow.Has x ↔ bk.Has x := by
  have hle := h.cnt_le
  constructor
  · rintro ⟨j, hj, hx⟩
    simp only [grow] at hj hx
    rw [if_pos (by omega)] at hx
    exact ⟨j, hj, hx⟩
  · rintro ⟨j, hj, rfl⟩
    exact ⟨j, hj, if_pos (by omega)⟩

end BlocksBucket

/-! ## The vector -/

namespace HashSet

/-- What holds of every vector between calls. -/
structure WF (hset : HashSet) : Prop where
  one_bucket : hset.bucketsCnt = 1
  cnt_eq : hset.blocksCnt = (hset.buckets 0).blksCnt
  bucket : (hset.buckets 0).WF

theorem WF.bucketOf {hset : HashSet} (h : hset.WF) (b : ℕ) : hset.bucketOf b = hset.buckets 0 := by
  rw [HashSet.bucketOf, h.one_bucket, Nat.mod_one]

theorem WF.setBucketOf {hset : HashSet} (h : hset.WF) (b : ℕ) (bk : BlocksBucket) :
    hset.setBucketOf b bk = { hset with buckets := Function.update hset.buckets 0 bk } := by
  rw [HashSet.setBucketOf, h.one_bucket, Nat.mod_one]

theorem createHashSet_wf : (createHashSet 1).WF :=
  ⟨rfl, rfl, ⟨Nat.zero_le _, by decide, rfl, fun _ _ _ hj => absurd hj (Nat.not_lt_zero _)⟩⟩

/-- `insert_into_sorted_vector` makes room and leaves the rest to `do_blk_no`. -/
theorem insertIntoSortedVector_eq {hset : HashSet} (h : hset.WF) (b : ℕ) :
    ∃ bk : BlocksBucket, bk.WF ∧ (∀ x, bk.Has x ↔ (hset.buckets 0).Has x) ∧
      bk.blksCnt = (hset.buckets 0).blksCnt ∧ bk.blksCnt < bk.capacity ∧
      hset.insertIntoSortedVector b = ((bk.doBlkNo b .insertBlk).1,
        if (bk.doBlkNo b .insertBlk).1 ≠ hsetActionFail then
          { hset.setBucketOf b (bk.doBlkNo b .insertBlk).2 with blocksCnt := hset.blocksCnt + 1 }
        else hset.setBucketOf b (bk.doBlkNo b .insertBlk).2) := by
  set bk := if (hset.buckets 0).blksCnt = (hset.buckets 0).capacity then (hset.buckets 0).grow
    else hset.buckets 0 with hbk
  have hwf : bk.WF := by
    rw [hbk]
    split_ifs
    · exact h.bucket.grow
    · exact h.bucket
  have hhas : ∀ x, bk.Has x ↔ (hset.buckets 0).Has x := by
    intro x
    rw [hbk]
    split_ifs
    · exact BlocksBucket.has_grow h.bucket x
    · exact Iff.rfl
  have hcnt : bk.blksCnt = (hset.buckets 0).blksCnt := by
    rw [hbk]
    split_ifs <;> rfl
  have hroom : bk.blksCnt < bk.capacity := by
    have h1 := h.bucket.cnt_le
    have h2 := h.bucket.capacity_pos
    rw [hbk]
    split_ifs with he
    · simp only [BlocksBucket.grow]; omega
    · omega
  refine ⟨bk, hwf, hhas, hcnt, hroom, ?_⟩
  rw [insertIntoSortedVector, h.bucketOf]
  rfl

/-- `insert_into_sorted_vector`: it fails, and changes no entry, exactly when `b` is there. -/
theorem insertIntoSortedVector_spec {hset : HashSet} (h : hset.WF) (b : ℕ) :
    (hset.insertIntoSortedVector b).2.WF ∧
      (∀ x, ((hset.insertIntoSortedVector b).2.buckets 0).Has x ↔
        x = b ∨ (hset.buckets 0).Has x) ∧
      (hset.insertIntoSortedVector b).2.blocksCnt = hset.blocksCnt +
        (if (hset.insertIntoSortedVector b).1 = hsetActionFail then 0 else 1) ∧
      ((hset.insertIntoSortedVector b).1 = hsetActionFail ↔ (hset.buckets 0).Has b) := by
  obtain ⟨bk, hwf, hhas, hcnt, hroom, hdef⟩ := insertIntoSortedVector_eq h b
  rw [hdef]
  rcases BlocksBucket.doBlkNo_insert hwf hroom b with ⟨hb, he⟩ | ⟨pos, hpos, he⟩
  · rw [he, if_neg (by simp), h.setBucketOf]
    refine ⟨⟨h.one_bucket, ?_, ?_⟩, fun x => ?_, by simp, by simp [← hhas, hb]⟩
    · simp only [Function.update_self]
      rw [hcnt, h.cnt_eq]
    · simp only [Function.update_self]
      exact hwf
    · simp only [Function.update_self]
      rw [hhas]
      exact ⟨Or.inr, fun hx => hx.elim (fun hxb => by rw [hxb, ← hhas]; exact hb) id⟩
  · have hne : (pos : ℤ) ≠ hsetActionFail := by simp only [hsetActionFail]; omega
    have hnb : ¬ bk.Has b := BlocksBucket.not_has_of_missing hpos
    rw [he, if_pos hne, h.setBucketOf]
    refine ⟨⟨h.one_bucket, ?_, ?_⟩, fun x => ?_, by simp [hne], ?_⟩
    · simp only [Function.update_self, BlocksBucket.insertAt]
      rw [hcnt, h.cnt_eq]
    · simp only [Function.update_self]
      exact hwf.insertAt hroom hpos
    · simp only [Function.update_self]
      rw [BlocksBucket.has_insertAt hpos.1, hhas]
    · exact ⟨fun hf => absurd hf hne, fun hf => absurd ((hhas b).mpr hf) hnb⟩

/-- Where `insert_into_sorted_vector` has put `b`, if it does not fail. -/
theorem insertIntoSortedVector_pos {hset : HashSet} (h : hset.WF) (b : ℕ)
    (hne : (hset.insertIntoSortedVector b).1 ≠ hsetActionFail) :
    ∃ pos : ℕ, (hset.insertIntoSortedVector b).1 = pos ∧
      pos < ((hset.insertIntoSortedVector b).2.buckets 0).blksCnt ∧
      ((hset.insertIntoSortedVector b).2.buckets 0).blks pos = b := by
  obtain ⟨bk, hwf, -, -, hroom, hdef⟩ := insertIntoSortedVector_eq h b
  rw [hdef] at hne ⊢
  rcases BlocksBucket.doBlkNo_insert hwf hroom b with ⟨-, he⟩ | ⟨pos, hpos, he⟩
  · rw [he] at hne
    exact absurd rfl hne
  · rw [he] at hne ⊢
    rw [if_pos hne, h.setBucketOf]
    simp only [Function.update_self]
    exact ⟨pos, rfl, Nat.lt_succ_of_le hpos.1, if_pos rfl⟩

/-- `remove_from_sorted_vector`: it fails, and changes nothing, exactly when `b` is not there. -/
theorem removeFromSortedVector_spec {hset : HashSet} (h : hset.WF) (b : ℕ) :
    (hset.removeFromSortedVector b).2.WF ∧
      (∀ x, ((hset.removeFromSortedVector b).2.buckets 0).Has x ↔
        (hset.buckets 0).Has x ∧ x ≠ b) ∧
      ((hset.removeFromSortedVector b).1 = hsetActionFail ↔ ¬ (hset.buckets 0).Has b) := by
  have hdef : hset.removeFromSortedVector b = (((hset.buckets 0).doBlkNo b .removeBlk).1,
      if ((hset.buckets 0).doBlkNo b .removeBlk).1 ≠ hsetActionFail then
        { hset.setBucketOf b ((hset.buckets 0).doBlkNo b .removeBlk).2 with
          blocksCnt := hset.blocksCnt - 1 }
      else hset.setBucketOf b ((hset.buckets 0).doBlkNo b .removeBlk).2) := by
    rw [removeFromSortedVector, h.bucketOf]
    rfl
  rw [hdef]
  rcases BlocksBucket.doBlkNo_remove h.bucket b with ⟨pos, hpos, hb, he⟩ | ⟨hb, he⟩
  · have hne : (pos : ℤ) ≠ hsetActionFail := by simp only [hsetActionFail]; omega
    rw [he, if_pos hne, h.setBucketOf]
    refine ⟨⟨h.one_bucket, ?_, ?_⟩, fun x => ?_, ?_⟩
    · simp only [Function.update_self, BlocksBucket.eraseAt]
      rw [h.cnt_eq]
    · simp only [Function.update_self]
      exact h.bucket.eraseAt pos
    · simp only [Function.update_self]
      rw [BlocksBucket.has_eraseAt h.bucket hpos, hb]
    · exact ⟨fun hf => absurd hf hne, fun hf => absurd ⟨pos, hpos, hb⟩ hf⟩
  · rw [he, if_neg (by simp), h.setBucketOf]
    refine ⟨⟨h.one_bucket, ?_, ?_⟩, fun x => ?_, by simp [hb]⟩
    · simp only [Function.update_self]
      exact h.cnt_eq
    · simp only [Function.update_self]
      exact h.bucket
    · simp only [Function.update_self]
      exact ⟨fun hx => ⟨hx, fun hxb => hb (hxb ▸ hx)⟩, fun hx => hx.1⟩

/-- Where `remove_from_sorted_vector` has found `b`, if it does not fail. -/
theorem removeFromSortedVector_pos {hset : HashSet} (h : hset.WF) (b : ℕ)
    (hne : (hset.removeFromSortedVector b).1 ≠ hsetActionFail) :
    ∃ pos : ℕ, (hset.removeFromSortedVector b).1 = pos ∧ pos < (hset.buckets 0).blksCnt ∧
      (hset.buckets 0).blks pos = b := by
  have hret : (hset.removeFromSortedVector b).1 = ((hset.buckets 0).doBlkNo b .removeBlk).1 := by
    rw [removeFromSortedVector, h.bucketOf]
  rw [hret] at hne ⊢
  rcases BlocksBucket.doBlkNo_remove h.bucket b with ⟨pos, hpos, hb, he⟩ | ⟨-, he⟩
  · exact ⟨pos, by rw [he], hpos, hb⟩
  · rw [he] at hne
    exact absurd rfl hne

/-- Where `search_in_sorted_vector` finds `b`. -/
theorem searchInSortedVector_spec {hset : HashSet} (h : hset.WF) (b : ℕ) :
    (∃ pos < (hset.buckets 0).blksCnt, (hset.buckets 0).blks pos = b ∧
      hset.searchInSortedVector b = pos) ∨
      ¬ (hset.buckets 0).Has b ∧ hset.searchInSortedVector b = hsetActionFail := by
  rw [searchInSortedVector, h.bucketOf]
  rcases BlocksBucket.doBlkNo_search h.bucket b with ⟨pos, hpos, hb, he⟩ | ⟨hb, he⟩
  · exact Or.inl ⟨pos, hpos, hb, by rw [he]⟩
  · exact Or.inr ⟨hb, by rw [he]⟩

theorem isExisting_iff {hset : HashSet} (h : hset.WF) (b : ℕ) :
    hset.isExisting b = true ↔ (hset.buckets 0).Has b := by
  rw [isExisting]
  rcases searchInSortedVector_spec h b with ⟨i, hi, hb, he⟩ | ⟨hb, he⟩
  · have hne : (i : ℤ) ≠ hsetActionFail := by simp only [hsetActionFail]; omega
    rw [he]
    exact ⟨fun _ => ⟨i, hi, hb⟩, fun _ => by simpa using hne⟩
  · rw [he]
    exact ⟨fun hf => by simp at hf, fun hf => absurd hf hb⟩

theorem WF.removeAllElements {hset : HashSet} (h : hset.WF) : hset.removeAllElements.WF := by
  refine ⟨h.one_bucket, ?_, ?_⟩
  · simp [HashSet.removeAllElements]
  · simp only [HashSet.removeAllElements, Function.update_self]
    exact ⟨Nat.zero_le _, h.bucket.capacity_pos, h.bucket.no_overrun,
      fun _ _ _ hj => absurd hj (Nat.not_lt_zero _)⟩

theorem WF.copyAllElements {dst : HashSet} (hd : dst.WF) (src : HashSet) :
    (dst.copyAllElements src).WF :=
  Outcome.foldl_range (fun _ (d : HashSet) => d.WF) hd.removeAllElements
    fun _ _ _ h => (insertIntoSortedVector_spec h _).1

end HashSet

/-- A sorted vector, with the proof that it is one. -/
structure SortedVector where
  hset : HashSet
  wf : hset.WF

namespace SortedVector

/-- `create_sorted_vector`. -/
def create : SortedVector := ⟨.createHashSet 1, HashSet.createHashSet_wf⟩

/-- `insert_into_sorted_vector`, its result ignored. -/
def insert (v : SortedVector) (b : ℕ) : SortedVector :=
  ⟨(v.hset.insertIntoSortedVector b).2, (HashSet.insertIntoSortedVector_spec v.wf b).1⟩

/-- `remove_from_sorted_vector`, its result ignored. -/
def remove (v : SortedVector) (b : ℕ) : SortedVector :=
  ⟨(v.hset.removeFromSortedVector b).2, (HashSet.removeFromSortedVector_spec v.wf b).1⟩

/-- `get_vect_size`. -/
def size (v : SortedVector) : ℕ := v.hset.getVectSize

/-- `get_vect_element`. -/
def get (v : SortedVector) (pos : ℕ) : ℕ := v.hset.getVectElement pos

/-- `is_existing`. -/
def isExisting (v : SortedVector) (b : ℕ) : Bool := v.hset.isExisting b

/-- `remove_all_elements`. -/
def clear (v : SortedVector) : SortedVector := ⟨v.hset.removeAllElements, v.wf.removeAllElements⟩

/-- `copy_all_elements`. -/
def copyFrom (dst src : SortedVector) : SortedVector :=
  ⟨dst.hset.copyAllElements src.hset, dst.wf.copyAllElements src.hset⟩

instance : Membership ℕ SortedVector := ⟨fun v b => (v.hset.buckets 0).Has b⟩

instance : Inhabited SortedVector := ⟨create⟩

@[simp] theorem not_mem_create (b : ℕ) : b ∉ create := fun ⟨_, hi, _⟩ => Nat.not_lt_zero _ hi

@[simp] theorem mem_insert {v : SortedVector} {b x : ℕ} : x ∈ v.insert b ↔ x = b ∨ x ∈ v :=
  (HashSet.insertIntoSortedVector_spec v.wf b).2.1 x

@[simp] theorem mem_remove {v : SortedVector} {b x : ℕ} : x ∈ v.remove b ↔ x ∈ v ∧ x ≠ b :=
  (HashSet.removeFromSortedVector_spec v.wf b).2.1 x

@[simp] theorem isExisting_iff {v : SortedVector} {b : ℕ} : v.isExisting b = true ↔ b ∈ v :=
  HashSet.isExisting_iff v.wf b

@[simp] theorem not_mem_clear {v : SortedVector} (b : ℕ) : b ∉ v.clear := by
  rintro ⟨i, hi, -⟩
  simp [clear, HashSet.removeAllElements] at hi

theorem size_eq (v : SortedVector) : v.size = (v.hset.buckets 0).blksCnt := v.wf.cnt_eq

theorem get_eq {v : SortedVector} {pos : ℕ} (h : pos < v.size) :
    v.get pos = (v.hset.buckets 0).blks pos := by
  rw [get, HashSet.getVectElement, if_neg, Int.toNat_natCast]
  rw [size] at h
  omega

theorem get_mem {v : SortedVector} {pos : ℕ} (h : pos < v.size) : v.get pos ∈ v :=
  ⟨pos, by rw [← v.size_eq]; exact h, (get_eq h).symm⟩

theorem exists_get {v : SortedVector} {b : ℕ} (h : b ∈ v) : ∃ pos < v.size, v.get pos = b := by
  obtain ⟨i, hi, hb⟩ := h
  rw [← v.size_eq] at hi
  exact ⟨i, hi, (get_eq hi).trans hb⟩

theorem get_lt_get {v : SortedVector} {i j : ℕ} (hij : i < j) (hj : j < v.size) :
    v.get i < v.get j := by
  rw [get_eq hj, get_eq (lt_trans hij hj)]
  exact v.wf.bucket.ascending i j hij (by rw [← v.size_eq]; exact hj)

theorem size_pos_iff {v : SortedVector} : 0 < v.size ↔ ∃ b, b ∈ v :=
  ⟨fun h => ⟨_, get_mem h⟩, fun ⟨_, hb⟩ => by
    obtain ⟨pos, hpos, -⟩ := exists_get hb
    exact Nat.zero_lt_of_lt hpos⟩

theorem size_eq_zero_iff {v : SortedVector} : v.size = 0 ↔ ∀ b, b ∉ v := by
  rw [← not_iff_not, ← Ne, ← Nat.pos_iff_ne_zero, size_pos_iff]
  exact not_forall_not.symm

@[simp] theorem mem_copyFrom {dst src : SortedVector} {b : ℕ} :
    b ∈ dst.copyFrom src ↔ b ∈ src := by
  have key : ∀ n, n ≤ src.size → ∀ x, (((List.range n).foldl
      (fun d (i : ℕ) => (d.insertIntoSortedVector (src.hset.getVectElement i)).2)
      dst.hset.removeAllElements).buckets 0).Has x ↔ ∃ i < n, src.get i = x := by
    intro n hn
    refine (Outcome.foldl_range (n := n) (fun k (d : HashSet) => d.WF ∧
      ∀ x, (d.buckets 0).Has x ↔ ∃ i < k, src.get i = x) ?_ ?_).2
    · exact ⟨dst.wf.removeAllElements, fun x => ⟨fun hx => absurd hx (dst.not_mem_clear x),
        fun ⟨_, hi, _⟩ => absurd hi (Nat.not_lt_zero _)⟩⟩
    · rintro k hk d ⟨hwf, hd⟩
      obtain ⟨hwf', hmem, -⟩ := HashSet.insertIntoSortedVector_spec hwf
        (src.hset.getVectElement k)
      refine ⟨hwf', fun x => ?_⟩
      rw [hmem, hd]
      constructor
      · rintro (rfl | ⟨i, hi, rfl⟩)
        · exact ⟨k, Nat.lt_succ_self k, rfl⟩
        · exact ⟨i, Nat.lt_succ_of_lt hi, rfl⟩
      · rintro ⟨i, hi, rfl⟩
        rcases Nat.lt_succ_iff_lt_or_eq.mp hi with hi | rfl
        · exact Or.inr ⟨i, hi, rfl⟩
        · exact Or.inl rfl
  have hkey := key src.size (Nat.le_refl _) b
  constructor
  · intro hb
    obtain ⟨i, hi, rfl⟩ := hkey.mp hb
    exact get_mem hi
  · intro hb
    exact hkey.mpr (exists_get hb)

/-- The elements of the vector, in order. -/
def toList (v : SortedVector) : List ℕ := (List.range v.size).map v.get

@[simp] theorem length_toList (v : SortedVector) : v.toList.length = v.size := by simp [toList]

@[simp] theorem mem_toList {v : SortedVector} {b : ℕ} : b ∈ v.toList ↔ b ∈ v := by
  rw [toList, List.mem_map]
  constructor
  · rintro ⟨i, hi, rfl⟩
    exact get_mem (List.mem_range.mp hi)
  · intro hb
    obtain ⟨pos, hpos, he⟩ := exists_get hb
    exact ⟨pos, List.mem_range.mpr hpos, he⟩

theorem pairwise_toList (v : SortedVector) : v.toList.Pairwise (· < ·) := by
  rw [toList, List.pairwise_map]
  refine List.Pairwise.imp_of_mem ?_ List.pairwise_lt_range
  intro i j _ hj hij
  exact get_lt_get hij (List.mem_range.mp hj)

/-- The order leaves no freedom: the members of a vector in ascending order are the vector. -/
theorem toList_eq {v : SortedVector} {l : List ℕ} (hl : l.Pairwise (· < ·))
    (h : ∀ b, b ∈ v ↔ b ∈ l) : v.toList = l := by
  have hanti : ∀ a b : ℕ, a ∈ v.toList → b ∈ l → a < b → b < a → a = b :=
    fun a b _ _ hab hba => absurd hab (by omega)
  refine List.Perm.eq_of_pairwise hanti v.pairwise_toList hl ?_
  refine (List.perm_ext_iff_of_nodup ?_ ?_).mpr fun b => ?_
  · exact v.pairwise_toList.imp fun hab => Nat.ne_of_lt hab
  · exact hl.imp fun hab => Nat.ne_of_lt hab
  · rw [mem_toList]
    exact h b

theorem toList_eq_of_mem_iff {v w : SortedVector} (h : ∀ b, b ∈ v ↔ b ∈ w) :
    v.toList = w.toList := toList_eq w.pairwise_toList fun b => by rw [mem_toList]; exact h b

/-- No element is in the vector twice. -/
theorem size_le_card {v : SortedVector} {S : Finset ℕ} (h : ∀ x ∈ v, x ∈ S) : v.size ≤ S.card := by
  have hnodup : v.toList.Nodup := v.pairwise_toList.imp fun hab => Nat.ne_of_lt hab
  rw [← length_toList, ← List.toFinset_card_of_nodup hnodup]
  exact Finset.card_le_card fun x hx => h x (mem_toList.mp (List.mem_toFinset.mp hx))

end SortedVector

end MemSmr
