import MemSmr.HashSet

/-!
# The sorted vectors are finite sets

Any number of vectors, any calls in any order.  `VectCall.run` is what the source does to the array
and the two counters, and `VectCall.apply` is what the call means for the sets.

* `HashSet.Represents`: the array is the ascending list of the set.
* `HashSet.FindsAll`: the calls that only look at a vector agree with the set.
* `sorted_vectors_are_sets`: both hold after every sequence of calls, and every call gives back the
  position of the key.
-/

namespace MemSmr

/-! ## The calls -/

/-- A call on vectors that are known by a number.  The source of a copy is another vector. -/
inductive VectCall where
  | insertIntoSortedVector (vect blkNo : ℕ)
  | removeFromSortedVector (vect blkNo : ℕ)
  | removeAllElements (vect : ℕ)
  | copyAllElements (dst src : ℕ) (h : dst ≠ src)

namespace VectCall

/-- The call as the source makes it.  The result of a `void` function is zero. -/
def run (vects : ℕ → HashSet) : VectCall → ℤ × (ℕ → HashSet)
  | insertIntoSortedVector i b =>
    let r := (vects i).insertIntoSortedVector b
    (r.1, Function.update vects i r.2)
  | removeFromSortedVector i b =>
    let r := (vects i).removeFromSortedVector b
    (r.1, Function.update vects i r.2)
  | removeAllElements i => (0, Function.update vects i (vects i).removeAllElements)
  | copyAllElements dst src _ =>
    (0, Function.update vects dst ((vects dst).copyAllElements (vects src)))

/-- What the call means. -/
def apply (sets : ℕ → Finset ℕ) : VectCall → ℕ → Finset ℕ
  | insertIntoSortedVector i b => Function.update sets i (insert b (sets i))
  | removeFromSortedVector i b => Function.update sets i ((sets i).erase b)
  | removeAllElements i => Function.update sets i ∅
  | copyAllElements dst src _ => Function.update sets dst (sets src)

/-- The result of the call: the position of the key, where it is now or where it was, or
`HSET_ACTION_FAIL`. -/
def Returns (sets : ℕ → Finset ℕ) (ret : ℤ) : VectCall → Prop
  | insertIntoSortedVector i b =>
    (ret = hsetActionFail ↔ b ∈ sets i) ∧
      (ret ≠ hsetActionFail → ∃ k : ℕ, ret = k ∧ ((insert b (sets i)).sort (· ≤ ·))[k]? = some b)
  | removeFromSortedVector i b =>
    (ret = hsetActionFail ↔ b ∉ sets i) ∧
      (ret ≠ hsetActionFail → ∃ k : ℕ, ret = k ∧ ((sets i).sort (· ≤ ·))[k]? = some b)
  | _ => True

end VectCall

/-- The vectors after a sequence of calls on new vectors. -/
def vectsAfter (calls : List VectCall) : ℕ → HashSet :=
  calls.foldl (fun vects call => (call.run vects).2) fun _ => .createHashSet 1

/-- The sets that the calls define. -/
def setsAfter (calls : List VectCall) : ℕ → Finset ℕ :=
  calls.foldl (fun sets call => call.apply sets) fun _ => ∅

/-! ## What a vector holds -/

namespace HashSet

/-- The entries of the array that are in use. -/
def stored (hset : HashSet) : List ℕ :=
  (List.range (hset.buckets 0).blksCnt).map (hset.buckets 0).blks

/-- The array is the ascending list of the set, the two counters are in step, and nothing has been
written past the capacity. -/
structure Represents (hset : HashSet) (s : Finset ℕ) : Prop where
  stored_eq : hset.stored = s.sort (· ≤ ·)
  blocksCnt_eq : hset.blocksCnt = (hset.buckets 0).blksCnt
  cnt_le : (hset.buckets 0).blksCnt ≤ (hset.buckets 0).capacity
  no_overrun : (hset.buckets 0).overrun = false

/-- `search_in_sorted_vector`, `is_existing` and `get_vect_element` agree with the set. -/
structure FindsAll (hset : HashSet) (s : Finset ℕ) : Prop where
  search_fail : ∀ b, hset.searchInSortedVector b = hsetActionFail ↔ b ∉ s
  search : ∀ b ∈ s, ∃ k : ℕ, hset.searchInSortedVector b = k ∧ (s.sort (· ≤ ·))[k]? = some b
  exists_iff : ∀ b, hset.isExisting b = true ↔ b ∈ s
  element : ∀ k b : ℕ, (s.sort (· ≤ ·))[k]? = some b → hset.getVectElement k = b

/-- The form of `Represents` that the calls keep. -/
structure Holds (hset : HashSet) (s : Finset ℕ) : Prop where
  wf : hset.WF
  mem : ∀ b, (hset.buckets 0).Has b ↔ b ∈ s

variable {hset dst src : HashSet} {s : Finset ℕ}

theorem stored_getElem? {k : ℕ} (h : k < (hset.buckets 0).blksCnt) :
    hset.stored[k]? = some ((hset.buckets 0).blks k) := by
  rw [stored, List.getElem?_map, List.getElem?_range h]
  rfl

theorem Holds.stored_eq (h : hset.Holds s) : hset.stored = s.sort (· ≤ ·) := by
  have hlist : hset.stored = (⟨hset, h.wf⟩ : SortedVector).toList := by
    rw [stored, SortedVector.toList, SortedVector.size_eq]
    refine List.map_congr_left fun i hi => ?_
    refine (SortedVector.get_eq (v := ⟨hset, h.wf⟩) ?_).symm
    rw [SortedVector.size_eq]
    exact List.mem_range.mp hi
  rw [hlist]
  refine SortedVector.toList_eq (Finset.sortedLT_sort s).pairwise fun b => ?_
  rw [Finset.mem_sort]
  exact h.mem b

theorem Holds.represents (h : hset.Holds s) : hset.Represents s :=
  ⟨h.stored_eq, h.wf.cnt_eq, h.wf.bucket.cnt_le, h.wf.bucket.no_overrun⟩

/-- Where a key is found. -/
theorem Holds.getElem? (h : hset.Holds s) {k b : ℕ} (hk : k < (hset.buckets 0).blksCnt)
    (hb : (hset.buckets 0).blks k = b) : (s.sort (· ≤ ·))[k]? = some b := by
  rw [← h.stored_eq, stored_getElem? hk, hb]

/-! ## One call -/

theorem holds_create : (createHashSet 1).Holds ∅ :=
  ⟨createHashSet_wf, fun b => iff_of_false (SortedVector.not_mem_create b)
    (Finset.notMem_empty b)⟩

theorem Holds.inserted (h : hset.Holds s) (b : ℕ) :
    (hset.insertIntoSortedVector b).2.Holds (insert b s) := by
  obtain ⟨hwf, hmem, -⟩ := insertIntoSortedVector_spec h.wf b
  refine ⟨hwf, fun x => ?_⟩
  rw [hmem, h.mem, Finset.mem_insert]

theorem Holds.removed (h : hset.Holds s) (b : ℕ) :
    (hset.removeFromSortedVector b).2.Holds (s.erase b) := by
  obtain ⟨hwf, hmem, -⟩ := removeFromSortedVector_spec h.wf b
  refine ⟨hwf, fun x => ?_⟩
  rw [hmem, h.mem, Finset.mem_erase, and_comm]

theorem Holds.cleared (h : hset.Holds s) : hset.removeAllElements.Holds ∅ :=
  ⟨h.wf.removeAllElements, fun b => iff_of_false
    ((⟨hset, h.wf⟩ : SortedVector).not_mem_clear b) (Finset.notMem_empty b)⟩

theorem Holds.copied {t : Finset ℕ} (hd : dst.Holds t) (hs : src.Holds s) :
    (dst.copyAllElements src).Holds s := by
  refine ⟨hd.wf.copyAllElements src, fun b => ?_⟩
  rw [← hs.mem b]
  have h : b ∈ (⟨dst, hd.wf⟩ : SortedVector).copyFrom ⟨src, hs.wf⟩ ↔
      b ∈ (⟨src, hs.wf⟩ : SortedVector) := SortedVector.mem_copyFrom
  exact h

/-! What the calls give back. -/

theorem Holds.insert_fail_iff (h : hset.Holds s) (b : ℕ) :
    (hset.insertIntoSortedVector b).1 = hsetActionFail ↔ b ∈ s := by
  obtain ⟨-, -, -, hfail⟩ := insertIntoSortedVector_spec h.wf b
  rw [hfail, h.mem]

theorem Holds.remove_fail_iff (h : hset.Holds s) (b : ℕ) :
    (hset.removeFromSortedVector b).1 = hsetActionFail ↔ b ∉ s := by
  obtain ⟨-, -, hfail⟩ := removeFromSortedVector_spec h.wf b
  rw [hfail, h.mem]

theorem Holds.insert_pos (h : hset.Holds s) (b : ℕ)
    (hne : (hset.insertIntoSortedVector b).1 ≠ hsetActionFail) :
    ∃ k : ℕ, (hset.insertIntoSortedVector b).1 = k ∧
      ((insert b s).sort (· ≤ ·))[k]? = some b := by
  obtain ⟨pos, hret, hpos, hb⟩ := insertIntoSortedVector_pos h.wf b hne
  exact ⟨pos, hret, (h.inserted b).getElem? hpos hb⟩

theorem Holds.remove_pos (h : hset.Holds s) (b : ℕ)
    (hne : (hset.removeFromSortedVector b).1 ≠ hsetActionFail) :
    ∃ k : ℕ, (hset.removeFromSortedVector b).1 = k ∧ (s.sort (· ≤ ·))[k]? = some b := by
  obtain ⟨pos, hret, hpos, hb⟩ := removeFromSortedVector_pos h.wf b hne
  exact ⟨pos, hret, h.getElem? hpos hb⟩

theorem Holds.findsAll (h : hset.Holds s) : hset.FindsAll s := by
  have hne : ∀ pos : ℕ, (pos : ℤ) ≠ hsetActionFail := fun pos => by
    rw [hsetActionFail]
    omega
  refine ⟨fun b => ?_, fun b hb => ?_, fun b => ?_, fun k b hk => ?_⟩
  · rcases searchInSortedVector_spec h.wf b with ⟨pos, hpos, hb, he⟩ | ⟨hb, he⟩
    · exact iff_of_false (by rw [he]; exact hne pos) (not_not_intro ((h.mem b).mp ⟨pos, hpos, hb⟩))
    · exact iff_of_true he fun hs => hb ((h.mem b).mpr hs)
  · rcases searchInSortedVector_spec h.wf b with ⟨pos, hpos, hpb, he⟩ | ⟨hnb, -⟩
    · exact ⟨pos, he, h.getElem? hpos hpb⟩
    · exact absurd ((h.mem b).mpr hb) hnb
  · rw [isExisting_iff h.wf, h.mem]
  · rw [← h.stored_eq, stored, List.getElem?_map, Option.map_eq_some_iff] at hk
    obtain ⟨i, hi, rfl⟩ := hk
    obtain ⟨hlt, rfl⟩ := List.getElem?_eq_some_iff.mp hi
    rw [List.length_range] at hlt
    rw [getVectElement, if_neg (by rw [getVectSize, h.wf.cnt_eq]; omega), List.getElem_range]
    rfl

end HashSet

/-! ## Sequences of calls -/

/-- One call keeps every vector in step with its set. -/
theorem VectCall.holds {vects : ℕ → HashSet} {sets : ℕ → Finset ℕ}
    (h : ∀ i, (vects i).Holds (sets i)) (call : VectCall) (i : ℕ) :
    ((call.run vects).2 i).Holds (call.apply sets i) := by
  have hupd : ∀ {j : ℕ} {hset : HashSet} {s : Finset ℕ}, hset.Holds s →
      (Function.update vects j hset i).Holds (Function.update sets j s i) := by
    intro j hset s hs
    by_cases hij : i = j
    · rw [hij, Function.update_self, Function.update_self]
      exact hs
    · rw [Function.update_of_ne hij, Function.update_of_ne hij]
      exact h i
  cases call with
  | insertIntoSortedVector j b => exact hupd ((h j).inserted b)
  | removeFromSortedVector j b => exact hupd ((h j).removed b)
  | removeAllElements j => exact hupd (h j).cleared
  | copyAllElements dst src _ => exact hupd ((h dst).copied (h src))

theorem VectCall.returns {vects : ℕ → HashSet} {sets : ℕ → Finset ℕ}
    (h : ∀ i, (vects i).Holds (sets i)) (call : VectCall) :
    call.Returns sets (call.run vects).1 := by
  cases call with
  | insertIntoSortedVector j b => exact ⟨(h j).insert_fail_iff b, (h j).insert_pos b⟩
  | removeFromSortedVector j b => exact ⟨(h j).remove_fail_iff b, (h j).remove_pos b⟩
  | removeAllElements j => trivial
  | copyAllElements dst src _ => trivial

theorem holds_after (calls : List VectCall) (i : ℕ) :
    (vectsAfter calls i).Holds (setsAfter calls i) := by
  induction calls using List.reverseRecOn generalizing i with
  | nil => exact HashSet.holds_create
  | append_singleton calls call ih =>
    rw [vectsAfter, setsAfter, List.foldl_append, List.foldl_append]
    exact call.holds ih i

/-- **The sorted vectors are finite sets.**  After every sequence of calls on new vectors each array
is the ascending list of the set that the calls define, and the next call, whichever it is, gives
back the position of its key or fails as a set would have it. -/
theorem sorted_vectors_are_sets (calls : List VectCall) :
    (∀ i, (vectsAfter calls i).Represents (setsAfter calls i) ∧
      (vectsAfter calls i).FindsAll (setsAfter calls i)) ∧
    ∀ call : VectCall, call.Returns (setsAfter calls) (call.run (vectsAfter calls)).1 :=
  ⟨fun i => ⟨(holds_after calls i).represents, (holds_after calls i).findsAll⟩,
    fun call => call.returns (holds_after calls)⟩

end MemSmr
