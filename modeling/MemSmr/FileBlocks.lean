import MemSmr.ReadExt2

/-!
# Which blocks of a file are read

Every indirect block is taken as an array of `INDIRECT_BLKS` block numbers (`viewEntry`).

* `Reads`: a function reads these data blocks, in this order, to these places of the buffer.
* `CalleeReads`: a function reads any range of the blocks that hang under an indirect block.
* `calleeReads_indirect`: one level more of indirect blocks.
* `zoneBlocks_spec`: how a range is split over the four zones of a file.
* `file_range_reads_iff`: when `read_ext2_file_blocks` reads the blocks of the range.
-/

namespace MemSmr

namespace Ext2File

open Outcome

/-! ## Lists of reads -/

/-- The data block that a call of `READ_BLOCKS` reads, and where to. -/
def FileRead.data? : FileRead → Option (ℕ × ℕ)
  | .indirect _ => none
  | .data fdata blkNo => some (fdata, blkNo)

/-- The function returns `n`, and the data blocks that it reads are those of the list. -/
def Reads (x : ReadResult) (n : ℕ) (l : List (ℕ × ℕ)) : Prop :=
  ∃ log, x = .ok (n, log) ∧ log.filterMap FileRead.data? = l

/-- The blocks `no 0`, …, `no (n - 1)`, one after the other from `fdata` on. -/
def dataList (fdata : ℕ) (no : ℕ → ℕ) (n : ℕ) : List (ℕ × ℕ) :=
  (List.range n).map fun k => (fdata + k * ext2BlockSize, no k)

section DataList

variable {fdata m n : ℕ} {no no' : ℕ → ℕ}

theorem dataList_congr (h : ∀ k < n, no k = no' k) : dataList fdata no n = dataList fdata no' n :=
  List.map_congr_left fun k hk => by rw [h k (List.mem_range.mp hk)]

/-- A range is read in two parts. -/
theorem dataList_add : dataList fdata no (m + n) =
    dataList fdata no m ++ dataList (fdata + m * ext2BlockSize) (fun k => no (m + k)) n := by
  rw [dataList, List.range_add, List.map_append, List.map_map]
  refine congrArg (dataList fdata no m ++ ·) (List.map_congr_left fun k _ => ?_)
  rw [Function.comp_apply, Nat.add_mul, Nat.add_assoc]

theorem filterMap_data : ((List.range n).map fun i =>
    FileRead.data (fdata + i * ext2BlockSize) (no i)).filterMap FileRead.data? =
      dataList fdata no n := by
  rw [List.filterMap_map, dataList, ← List.filterMap_eq_map]
  rfl

end DataList

theorem entries_of_data {f : ℕ → Except ReadFault ℕ} {off g : ℕ → ℕ} {l : List ℕ}
    {reads : List FileRead}
    (h : (l.mapM fun i => do
      let no ← f i
      return FileRead.data (off i) no) = .ok reads)
    (hdata : reads.filterMap FileRead.data? = l.map fun i => (off i, g i)) :
    ∀ i ∈ l, f i = .ok (g i) := by
  induction l generalizing reads with
  | nil => exact fun i hi => absurd hi List.not_mem_nil
  | cons i l ih =>
    rw [List.mapM_cons] at h
    obtain ⟨read, hread, hrest⟩ := bind_eq_ok.mp h
    obtain ⟨rest, hl, hcons⟩ := bind_eq_ok.mp hrest
    obtain ⟨no, hno, hdataRead⟩ := bind_eq_ok.mp hread
    obtain rfl := Except.ok.inj hdataRead
    obtain rfl := Except.ok.inj hcons
    rw [List.filterMap_cons, List.map_cons] at hdata
    obtain ⟨hhead, htail⟩ := List.cons.inj hdata
    refine List.forall_mem_cons.mpr ⟨?_, ih hl htail⟩
    rw [hno, (Prod.mk.inj hhead).2]

/-- **`read_indirect1_blocks`** reads the blocks that its entries name. -/
theorem readIndirect1Blocks_iff (entry : Block → ℕ → Except ReadFault ℕ) (disk : ℕ → Block)
    (fdata b lo n : ℕ) (g : ℕ → ℕ) :
    Reads (readIndirect1Blocks entry disk fdata b lo n) n (dataList fdata g n) ↔
      ∀ k < n, entry (disk b) (lo + k) = .ok (g k) := by
  constructor
  · rintro ⟨log, hlog, hdata⟩ k hk
    rw [readIndirect1Blocks] at hlog
    obtain ⟨reads, hreads, hret⟩ := bind_eq_ok.mp hlog
    obtain rfl := (Prod.mk.inj (Except.ok.inj hret)).2
    rw [List.filterMap_cons] at hdata
    exact entries_of_data hreads hdata k (List.mem_range.mpr hk)
  · intro h
    have hreads : ((List.range n).mapM fun i => do
        let no ← entry (disk b) (lo + i)
        return FileRead.data (fdata + i * ext2BlockSize) no) =
        .ok ((List.range n).map fun i => FileRead.data (fdata + i * ext2BlockSize) (g i)) :=
      mapM_eq_ok fun i hi => by
        rw [h i (List.mem_range.mp hi)]
        rfl
    refine ⟨.indirect b :: (List.range n).map fun i =>
      FileRead.data (fdata + i * ext2BlockSize) (g i), ?_, filterMap_data⟩
    rw [readIndirect1Blocks, hreads]
    rfl

/-! ## Indirect blocks -/

/-- An indirect block as an array of `INDIRECT_BLKS` block numbers. -/
def viewEntry (view : Block → ℕ → ℕ) (buf : Block) (index : ℕ) : Except ReadFault ℕ :=
  if index < indirectBlks then .ok (view buf index) else .error (.pastBuffer index)

/-- `callee` reads any range of the `size` blocks under a block; `leaf b k` is block `k` of those under
`b`. -/
def CalleeReads (callee : ℕ → ℕ → ℕ → ℕ → ReadResult) (size : ℕ) (leaf : ℕ → ℕ → ℕ) : Prop :=
  ∀ fdata b lo n, 0 < n → lo + n ≤ size → n * ext2BlockSize < 2 ^ 31 →
    Reads (callee fdata b lo n) n (dataList fdata (fun k => leaf b (lo + k)) n)

/-- One level more: the blocks under entry `k / size` of the block. -/
def under (child : ℕ → ℕ → ℕ) (size : ℕ) (leaf : ℕ → ℕ → ℕ) (b k : ℕ) : ℕ :=
  leaf (child b (k / size)) (k % size)

theorem under_mul_add {child : ℕ → ℕ → ℕ} {size : ℕ} {leaf : ℕ → ℕ → ℕ} {b index k : ℕ}
    (hk : k < size) : under child size leaf b (size * index + k) = leaf (child b index) k := by
  rw [under, Nat.mul_add_div (Nat.zero_lt_of_lt hk), Nat.div_eq_of_lt hk, Nat.add_zero,
    Nat.mul_add_mod, Nat.mod_eq_of_lt hk]

theorem blocks2Bytes_ok {n : ℕ} (h : n * ext2BlockSize < 2 ^ 31) :
    blocks2Bytes n = .ok (n * ext2BlockSize) := if_pos h

section Indirect

variable (view : Block → ℕ → ℕ) (disk : ℕ → Block)

theorem viewEntry_ok {index : ℕ} (h : index < indirectBlks) (buf : Block) :
    viewEntry view buf index = .ok (view buf index) := if_pos h

/-- `read_indirect1_blocks`, for an empty range too. -/
theorem readIndirect1Blocks_spec (fdata b : ℕ) {lo n : ℕ} (h : lo + n ≤ indirectBlks) :
    Reads (readIndirect1Blocks (viewEntry view) disk fdata b lo n) n
      (dataList fdata (fun k => view (disk b) (lo + k)) n) :=
  (readIndirect1Blocks_iff (viewEntry view) disk fdata b lo n _).mpr fun _ hk =>
    viewEntry_ok view (by omega) (disk b)

variable {callee : ℕ → ℕ → ℕ → ℕ → ReadResult} {size : ℕ} {leaf : ℕ → ℕ → ℕ}

/-- An entry of which a block is wanted is in the buffer. -/
theorem index_lt {index n : ℕ} (hn : 0 < n) (h : size * index + n ≤ size * indirectBlks) :
    index < indirectBlks := by
  by_contra hge
  have := Nat.mul_le_mul_left size (Nat.not_lt.mp hge)
  omega

/-- The loop over the entries. -/
theorem readPieces_spec (hsize : 0 < size) (hcallee : CalleeReads callee size leaf) (b : ℕ) :
    ∀ n fdata index, n * ext2BlockSize < 2 ^ 31 → size * index + n ≤ size * indirectBlks →
      ∃ log, readPieces (viewEntry view) callee hsize (disk b) fdata index n = .ok log ∧
        log.filterMap FileRead.data? = dataList fdata
          (fun k => under (fun b => view (disk b)) size leaf b (size * index + k)) n := by
  intro n
  induction n using Nat.strong_induction_on with
  | _ n ih =>
    intro fdata index hbytes hn
    rcases Nat.eq_zero_or_pos n with rfl | hpos
    · exact ⟨[], by rw [readPieces, if_pos rfl], rfl⟩
    · have hindex := index_lt hpos hn
      rw [readPieces, if_neg (Nat.ne_of_gt hpos), viewEntry_ok view hindex]
      by_cases hle : n ≤ size
      · obtain ⟨log, hlog, hdata⟩ := hcallee fdata (view (disk b) index) 0 n hpos (by omega) hbytes
        rw [if_pos hle]
        refine ⟨log, ?_, hdata.trans (dataList_congr fun k hk => ?_)⟩
        · rw [ok_bind, hlog]
          rfl
        · rw [under_mul_add (hk.trans_le hle), Nat.zero_add]
      · have hlt := Nat.not_le.mp hle
        have hsizeBytes : size * ext2BlockSize < 2 ^ 31 :=
          (Nat.mul_le_mul_right _ hlt.le).trans_lt hbytes
        obtain ⟨log, hlog, hdata⟩ := hcallee fdata (view (disk b) index) 0 size hsize (by omega)
          hsizeBytes
        have hnext : size * (index + 1) = size * index + size := Nat.mul_succ size index
        obtain ⟨rest, hrest, hrestData⟩ := ih (n - size) (by omega)
          (fdata + size * ext2BlockSize) (index + 1)
          ((Nat.mul_le_mul_right _ (Nat.sub_le n size)).trans_lt hbytes) (by omega)
        rw [if_neg hle]
        refine ⟨log ++ rest, ?_, ?_⟩
        · rw [ok_bind, hlog, ok_bind, hrest]
          rfl
        · obtain ⟨m, rfl⟩ := Nat.exists_eq_add_of_le hlt.le
          rw [List.filterMap_append, hdata, hrestData, dataList_add, Nat.add_sub_cancel_left]
          refine congrArg₂ (· ++ ·) (dataList_congr fun k hk => ?_) (dataList_congr fun k _ => ?_)
          · rw [under_mul_add hk, Nat.zero_add]
          · rw [hnext, Nat.add_assoc]

/-- **One level more of indirect blocks.** -/
theorem calleeReads_indirect (hsize : 0 < size) (hcallee : CalleeReads callee size leaf) :
    CalleeReads (readIndirectBlocks (viewEntry view) disk callee hsize) (size * indirectBlks)
      (under (fun b => view (disk b)) size leaf) := by
  intro fdata b lo n hpos hn hbytes
  obtain ⟨q, r, hr, rfl⟩ : ∃ q r, r < size ∧ lo = size * q + r :=
    ⟨lo / size, lo % size, Nat.mod_lt lo hsize, (Nat.div_add_mod lo size).symm⟩
  have hdiv : (size * q + r) / size = q := by
    rw [Nat.mul_add_div hsize, Nat.div_eq_of_lt hr, Nat.add_zero]
  have hmod : (size * q + r) % size = r := by rw [Nat.mul_add_mod, Nat.mod_eq_of_lt hr]
  have hindex : q < indirectBlks :=
    index_lt hpos (show size * q + n ≤ size * indirectBlks by omega)
  rw [readIndirectBlocks, hdiv, hmod]
  rw [viewEntry_ok view hindex]
  by_cases hle : n ≤ size - r
  · obtain ⟨log, hlog, hdata⟩ := hcallee fdata (view (disk b) q) r n hpos (by omega) hbytes
    rw [if_pos hle]
    refine ⟨.indirect b :: log, ?_, ?_⟩
    · rw [ok_bind, hlog]
      rfl
    · rw [List.filterMap_cons]
      refine hdata.trans (dataList_congr fun k hk => ?_)
      rw [Nat.add_assoc, under_mul_add (by omega)]
  · obtain ⟨m, rfl⟩ := Nat.exists_eq_add_of_le (Nat.not_le.mp hle).le
    have hcount : (size - r) * ext2BlockSize < 2 ^ 31 :=
      (Nat.mul_le_mul_right _ (Nat.le_add_right _ m)).trans_lt hbytes
    obtain ⟨log, hlog, hdata⟩ := hcallee fdata (view (disk b) q) r (size - r) (by omega) (by omega)
      hcount
    have hnext : size * (q + 1) = size * q + r + (size - r) := by
      rw [Nat.mul_succ]
      omega
    obtain ⟨rest, hrest, hrestData⟩ := readPieces_spec view disk hsize hcallee b m
      (fdata + (size - r) * ext2BlockSize) (q + 1)
      ((Nat.mul_le_mul_right _ (Nat.le_add_left m _)).trans_lt hbytes) (by omega)
    rw [if_neg hle, Nat.add_sub_cancel_left]
    refine ⟨.indirect b :: (log ++ rest), ?_, ?_⟩
    · rw [ok_bind, hlog, ok_bind, blocks2Bytes_ok hcount, ok_bind, hrest]
      rfl
    · rw [List.filterMap_cons, List.filterMap_append, dataList_add]
      refine congrArg₂ (· ++ ·) (hdata.trans (dataList_congr fun k hk => ?_))
        (hrestData.trans (dataList_congr fun k _ => ?_))
      · rw [Nat.add_assoc, under_mul_add (by omega)]
      · rw [hnext, Nat.add_assoc]

end Indirect

/-! ## The zones of a file -/

/-- File block `m` in the tree of ext2; `child b i` is entry `i` of indirect block `b`. -/
def treeBlock (child : ℕ → ℕ → ℕ) (ip : Ext2Inode) (m : ℕ) : ℕ :=
  if m < 12 then ip.iBlock m
  else if m < 12 + 1024 then child (ip.iBlock 12) (m - 12)
  else if m < 12 + 1024 + 1024 ^ 2 then
    child (child (ip.iBlock 13) ((m - (12 + 1024)) / 1024)) ((m - (12 + 1024)) % 1024)
  else
    child (child (child (ip.iBlock 14) ((m - (12 + 1024 + 1024 ^ 2)) / 1024 ^ 2))
      ((m - (12 + 1024 + 1024 ^ 2)) / 1024 % 1024)) ((m - (12 + 1024 + 1024 ^ 2)) % 1024)

/-- The blocks under an entry of `i_block`, zone by zone. -/
def zoneLeaf (child : ℕ → ℕ → ℕ) : ℕ → ℕ → ℕ → ℕ
  | 1 => child
  | 2 => under child indirectBlks child
  | _ => under child doubleIndBlks (under child indirectBlks child)

/-- Where zone `i` begins. -/
def zoneStart : ℕ → ℕ
  | 0 => 0
  | i + 1 => pos i

theorem indirectBlks_eq : indirectBlks = 1024 := rfl

theorem doubleIndBlks_eq : doubleIndBlks = 1048576 := rfl

theorem pos_eq : pos 0 = 12 ∧ pos 1 = 1036 ∧ pos 2 = 1049612 ∧ pos 3 = 1074791436 :=
  ⟨rfl, rfl, rfl, rfl⟩

theorem treeBlock_eq (child : ℕ → ℕ → ℕ) (ip : Ext2Inode) {i m : ℕ} (hi : i = 1 ∨ i = 2 ∨ i = 3)
    (h1 : zoneStart i ≤ m) (h2 : m < pos i) : treeBlock child ip m =
      zoneLeaf child i (ip.iBlock (ext2IndBlock + i - 1)) (m - zoneStart i) := by
  obtain ⟨p0, p1, p2, p3⟩ := pos_eq
  rw [treeBlock]
  rcases hi with rfl | rfl | rfl
  · rw [zoneStart, p0] at h1 ⊢
    rw [p1] at h2
    rw [if_neg (by omega), if_pos (by omega)]
    rfl
  · rw [zoneStart, p1] at h1 ⊢
    rw [p2] at h2
    rw [if_neg (by omega), if_neg (by omega), if_pos (by omega)]
    rfl
  · rw [zoneStart, p2] at h1 ⊢
    rw [if_neg (by omega), if_neg (by omega), if_neg (by omega)]
    change _ = under child doubleIndBlks (under child indirectBlks child) _ _
    have hdiv : (m - 1049612) % 1048576 / 1024 = (m - 1049612) / 1024 % 1024 := by omega
    have hmod : (m - 1049612) % 1048576 % 1024 = (m - 1049612) % 1024 := by omega
    rw [under, under, doubleIndBlks_eq, indirectBlks_eq, hdiv, hmod]
    rfl

theorem readFunc_reads (view : Block → ℕ → ℕ) (disk : ℕ → Block) {i : ℕ}
    (hi : i = 1 ∨ i = 2 ∨ i = 3) : CalleeReads (readFunc (viewEntry view) disk i)
      (pos i - zoneStart i) (zoneLeaf (fun b => view (disk b)) i) := by
  have h1 : CalleeReads (readIndirect1Blocks (viewEntry view) disk) indirectBlks
      fun b => view (disk b) := fun fdata b lo n _ hn _ =>
    readIndirect1Blocks_spec view disk fdata b hn
  have h2 := calleeReads_indirect view disk indirectBlks_pos h1
  rcases hi with rfl | rfl | rfl
  · exact h1
  · exact h2
  · exact calleeReads_indirect view disk doubleIndBlks_pos h2

/-! ## The split of a range -/

/-- The first number of the list that has the property. -/
theorem foldl_first (p q : ℕ → Bool) (l : List ℕ) (a b : Option ℕ) :
    l.foldl (fun st i => (if p i ∧ st.1 = none then some i else st.1,
      if q i ∧ st.2 = none then some i else st.2)) (a, b) = (a.or (l.find? p), b.or (l.find? q)) := by
  have hone : ∀ (p : ℕ → Bool) (i : ℕ) (l : List ℕ) (a : Option ℕ),
      (if p i ∧ a = none then some i else a).or (l.find? p) = a.or ((i :: l).find? p) := by
    intro p i l a
    cases a with
    | some x => rw [if_neg fun h => by cases h.2]; rfl
    | none =>
      rw [List.find?_cons]
      cases hp : p i with
      | true => rw [if_pos ⟨rfl, rfl⟩]; rfl
      | false => rw [if_neg fun h => by cases h.1]
  induction l generalizing a b with
  | nil => rw [List.foldl_nil, List.find?_nil, List.find?_nil, Option.or_none, Option.or_none]
  | cons i l ih => rw [List.foldl_cons, ih, hone, hone]

theorem findZones_eq (lo n : ℕ) : findZones lo n =
    ((List.range 4).find? (fun i => lo < pos i), (List.range 4).find? fun i => lo + n ≤ pos i) := by
  have h := foldl_first (fun i => lo < pos i) (fun i => lo + n ≤ pos i) (List.range 4) none none
  simp only [decide_eq_true_eq, Option.none_or] at h
  exact h

/-- How many blocks of the range are in the zones up to zone `i`. -/
def upTo (lo n i : ℕ) : ℕ := min (lo + n) (pos i) - lo

/-- How many of them are in zone `i`. -/
def inZone (lo n i : ℕ) : ℕ := upTo lo n i - (min (lo + n) (zoneStart i) - lo)

/-- What the loop that splits the range has done before it comes to zone `i`; `last` is the zone in
which the range ends. -/
structure Split (lo n last i : ℕ) (st : (ℕ → ℕ) × ℕ × ℕ) : Prop where
  done : ∀ j < i, st.1 j = inZone lo n j
  rest : ∀ j, i ≤ j → st.1 j = 0
  cur : i ≤ last → st.2.1 = max lo (zoneStart i) ∧ st.2.1 + st.2.2 = lo + n

theorem zoneStart_lt (i : ℕ) (hi : i < 4) : zoneStart i < pos i := by
  obtain ⟨p0, p1, p2, p3⟩ := pos_eq
  have h : i = 0 ∨ i = 1 ∨ i = 2 ∨ i = 3 := by omega
  rcases h with rfl | rfl | rfl | rfl
  · rw [zoneStart, p0]
    decide
  · rw [zoneStart, p0, p1]
    decide
  · rw [zoneStart, p1, p2]
    decide
  · rw [zoneStart, p2, p3]
    decide

section Split

variable {lo n first last i : ℕ} {st : (ℕ → ℕ) × ℕ × ℕ}

theorem Split.step (h : Split lo n last i st) (hi : i ≤ last) (hlast : last < 4)
    (hlo : lo < pos i) (hin : zoneStart i ≤ lo + n) (hend : ∀ j < last, pos j < lo + n) :
    Split lo n last (i + 1) (splitRound st i) := by
  obtain ⟨hcur, hsum⟩ := h.cur hi
  obtain ⟨blocks, f, m⟩ := st
  dsimp only at hcur hsum
  have hstart := zoneStart_lt i (by omega)
  rw [splitRound]
  have hdone : ∀ v, v = inZone lo n i → ∀ j < i + 1, Function.update blocks i v j = inZone lo n j := by
    intro v hv j hj
    by_cases hne : j = i
    · rw [hne, Function.update_self, hv]
    · rw [Function.update_of_ne hne]
      exact h.done j (by omega)
  have hrest : ∀ v j, i + 1 ≤ j → Function.update blocks i v j = 0 := fun v j hj => by
    rw [Function.update_of_ne (by omega)]
    exact h.rest j (by omega)
  split_ifs with hlt
  · refine ⟨hdone _ ?_, hrest _, fun _ => ⟨?_, ?_⟩⟩
    · rw [inZone, upTo]
      omega
    · rw [zoneStart]
      dsimp only
      omega
    · dsimp only
      omega
  · refine ⟨hdone _ ?_, hrest _, fun hle => ?_⟩
    · rw [inZone, upTo]
      omega
    · have := hend i (by omega)
      omega

theorem pos_le_pos {i j : ℕ} (hij : i ≤ j) (hj : j < 4) : pos i ≤ pos j := by
  induction j with
  | zero => rw [Nat.le_zero.mp hij]
  | succ j ih =>
    rcases Nat.lt_or_ge i (j + 1) with hlt | hge
    · exact (ih (Nat.le_of_lt_succ hlt) (by omega)).trans (zoneStart_lt (j + 1) hj).le
    · rw [Nat.le_antisymm hij hge]

/-- **How a range is split over the zones.** -/
theorem zoneBlocks_spec (hlo : lo < pos 3) (hn : lo + n ≤ pos 3) :
    ∃ blocks, zoneBlocks lo n = .ok blocks ∧ ∀ i < 4, blocks i = inZone lo n i := by
  have hsome : ∀ p : ℕ → Bool, p 3 = true →
      ∃ i, (List.range 4).find? p = some i ∧ p i = true ∧ i < 4 ∧ ∀ j < i, p j = false := by
    intro p hp
    cases hfind : (List.range 4).find? p with
    | none =>
      have := List.find?_range_eq_none.mp hfind 3 (by decide)
      rw [hp] at this
      cases this
    | some i =>
      obtain ⟨h1, h2, h3⟩ := List.find?_range_eq_some.mp hfind
      exact ⟨i, rfl, h1, List.mem_range.mp h2, fun j hj => by simpa using h3 j hj⟩
  obtain ⟨first, hfirst, hlt, hfirst4, hbefore⟩ := hsome (fun i => lo < pos i) (decide_eq_true hlo)
  obtain ⟨last, hlast, hle, hlast4, hend⟩ := hsome (fun i => lo + n ≤ pos i) (decide_eq_true hn)
  simp only [decide_eq_true_eq, decide_eq_false_iff_not, not_lt, not_le] at hlt hbefore hle hend
  rw [zoneBlocks, findZones_eq, hfirst, hlast]
  refine ⟨_, rfl, ?_⟩
  have hloop : Split lo n last (first + (last + 1 - first))
      ((List.range (last + 1 - first)).foldl (fun st i => splitRound st (first + i))
        (fun _ => 0, lo, n)) := by
    refine foldl_range (fun k st => Split lo n last (first + k) st) ?_ fun k hk st hst => ?_
    · refine ⟨fun j hj => ?_, fun _ _ => rfl, fun _ => ⟨?_, rfl⟩⟩
      · have := hbefore j hj
        change 0 = inZone lo n j
        rw [inZone, upTo]
        omega
      · cases first with
        | zero => exact (Nat.max_eq_left (Nat.zero_le lo)).symm
        | succ first => exact (Nat.max_eq_left (hbefore first (Nat.lt_succ_self first))).symm
    · have hpos := pos_le_pos (i := first) (j := first + k) (Nat.le_add_right _ _) (by omega)
      refine hst.step (by omega) hlast4 (hlt.trans_le hpos) ?_ hend
      cases hi : first + k with
      | zero => exact Nat.zero_le _
      | succ i => exact (hend i (by omega)).le
  intro i hi
  rw [List.range'_eq_map_range, List.foldl_map]
  rcases Nat.lt_or_ge i (first + (last + 1 - first)) with hlt | hge
  · exact hloop.done i hlt
  · rw [hloop.rest i hge]
    have hpos : lo + n ≤ zoneStart i := by
      cases i with
      | zero => omega
      | succ i => exact hle.trans (pos_le_pos (by omega) (by omega))
    rw [inZone, upTo]
    omega

end Split

/-! ## The zones one after the other -/

section Zones

variable (view : Block → ℕ → ℕ) (disk : ℕ → Block) {ip : Ext2Inode} {lo n : ℕ} {blocks : ℕ → ℕ}

/-- The blocks of the range that are in the zones up to zone `i` have been read. -/
structure ZonesRead (ip : Ext2Inode) (lo n i : ℕ) (st : Except ReadFault ℕ × List FileRead) :
    Prop where
  buf : st.1 = .ok (upTo lo n i * ext2BlockSize)
  data : st.2.filterMap FileRead.data? =
    dataList 0 (fun k => treeBlock (fun b => view (disk b)) ip (lo + k)) (upTo lo n i)

theorem bytes_lt {m : ℕ} (hm : m ≤ n) (hbytes : n * ext2BlockSize < 2 ^ 31) :
    m * ext2BlockSize < 2 ^ 31 := (Nat.mul_le_mul_right _ hm).trans_lt hbytes

theorem inZone_succ (lo n i : ℕ) : inZone lo n (i + 1) = upTo lo n (i + 1) - upTo lo n i := rfl

theorem upTo_le (lo n i : ℕ) : upTo lo n i ≤ n := by
  rw [upTo]
  omega

/-- **One zone of indirect blocks.**  Only the first zone that the range meets is entered in its
middle. -/
theorem zoneRound_spec (hblocks : ∀ i < 4, blocks i = inZone lo n i)
    (hbytes : n * ext2BlockSize < 2 ^ 31) {i : ℕ} (hi : i < 3)
    {st : Except ReadFault ℕ × List FileRead} (h : ZonesRead view disk ip lo n i st) :
    ∃ st', zoneRound (viewEntry view) disk ip lo blocks st (i + 1) = .ok st' ∧
      ZonesRead view disk ip lo n (i + 1) st' := by
  obtain ⟨fdata, log⟩ := st
  obtain ⟨rfl, hdata⟩ := h
  have hthis := hblocks (i + 1) (by omega)
  have hprev := hblocks i (by omega)
  have hz := zoneStart_lt i (by omega)
  have hz' : pos i < pos (i + 1) := zoneStart_lt (i + 1) (by omega)
  have hadd : upTo lo n i + inZone lo n (i + 1) = upTo lo n (i + 1) := by
    rw [inZone_succ, upTo, upTo]
    omega
  rw [zoneRound, Nat.add_sub_cancel]
  by_cases hzero : blocks (i + 1) = 0
  · rw [if_neg fun h => h hzero]
    rw [← hthis, hzero, Nat.add_zero] at hadd
    exact ⟨_, rfl, by rw [hadd], by rw [← hadd]; exact hdata⟩
  · rw [if_pos hzero]
    -- Where the range enters the zone.
    have hlo : (if blocks i ≠ 0 then 0 else lo - pos i) = lo + upTo lo n i - pos i ∧
        pos i ≤ lo + upTo lo n i ∧ lo + upTo lo n (i + 1) ≤ pos (i + 1) := by
      rw [hthis, inZone_succ] at hzero
      rw [hprev, inZone]
      rw [upTo] at *
      rw [upTo] at *
      split_ifs
      · omega
      · omega
    obtain ⟨hlo, hfrom, hto⟩ := hlo
    have hle : blocks (i + 1) ≤ n := by
      have := upTo_le lo n (i + 1)
      omega
    have hzone : i + 1 = 1 ∨ i + 1 = 2 ∨ i + 1 = 3 := by omega
    obtain ⟨log', hlog', hdata'⟩ := readFunc_reads view disk hzone
      (upTo lo n i * ext2BlockSize) (ip.iBlock (ext2IndBlock + (i + 1) - 1))
      (lo + upTo lo n i - pos i) (blocks (i + 1)) (Nat.pos_of_ne_zero hzero)
      (by
        change _ ≤ pos (i + 1) - pos i
        omega) (bytes_lt hle hbytes)
    rw [hlo]
    dsimp only
    rw [ok_bind, hlog', ok_bind, blocks2Bytes_ok (bytes_lt hle hbytes)]
    refine ⟨_, rfl, ?_, ?_⟩
    · change Except.ok (_ + _) = _
      rw [← Nat.add_mul, hthis, hadd]
    · dsimp only
      rw [List.filterMap_append, hdata, hdata', ← hadd, dataList_add, hthis, Nat.zero_add]
      refine congrArg _ (dataList_congr fun k hk => ?_)
      rw [treeBlock_eq _ _ hzone (m := lo + (upTo lo n i + k))]
      · refine congrArg _ ?_
        change _ = lo + (upTo lo n i + k) - pos i
        omega
      · change pos i ≤ _
        omega
      · omega

/-- The direct blocks. -/
theorem directRound_spec (ip : Ext2Inode) (hblocks : blocks 0 = inZone lo n 0)
    (hbytes : n * ext2BlockSize < 2 ^ 31) :
    ZonesRead view disk ip lo n 0 (directRound ip lo blocks) := by
  have hthis : blocks 0 = upTo lo n 0 := by
    rw [hblocks, inZone, zoneStart]
    omega
  rw [directRound]
  by_cases hzero : blocks 0 = 0
  · rw [if_neg fun h => h hzero]
    refine ⟨?_, ?_⟩
    · rw [← hthis, hzero, Nat.zero_mul]
    · rw [← hthis, hzero]
      rfl
  · rw [if_pos hzero, blocks2Bytes_ok (bytes_lt (hthis ▸ upTo_le lo n 0) hbytes)]
    refine ⟨by rw [hthis], ?_⟩
    dsimp only
    rw [readDirectBlocks, filterMap_data, hthis]
    refine dataList_congr fun k hk => ?_
    rw [upTo, pos_eq.1] at hk
    rw [treeBlock, if_pos (by omega)]

/-- **`read_ext2_file_blocks`** reads the blocks of a range that begins in a zone. -/
theorem readExt2FileBlocks_reads (readInode : ℕ → Ext2Inode) (ino : ℕ) (hlo : lo < pos 3)
    (hn : lo + n ≤ pos 3) (hbytes : n * ext2BlockSize < 2 ^ 31) :
    Reads (readExt2FileBlocks (viewEntry view) disk readInode ino lo n) n
      (dataList 0 (fun k => treeBlock (fun b => view (disk b)) (readInode ino) (lo + k)) n) := by
  obtain ⟨blocks, hsplit, hblocks⟩ := zoneBlocks_spec hlo hn
  obtain ⟨st1, h1, hst1⟩ := zoneRound_spec view disk hblocks hbytes (by decide)
    (directRound_spec view disk (readInode ino) (hblocks 0 (by decide)) hbytes)
  obtain ⟨st2, h2, hst2⟩ := zoneRound_spec view disk hblocks hbytes (by decide) hst1
  obtain ⟨st3, h3, hst3⟩ := zoneRound_spec view disk hblocks hbytes (by decide) hst2
  have hall : upTo lo n 3 = n := by
    rw [upTo]
    omega
  refine ⟨st3.2, ?_, ?_⟩
  · rw [readExt2FileBlocks, hsplit, ok_bind, List.foldlM_cons, h1, ok_bind, List.foldlM_cons, h2,
      ok_bind, List.foldlM_cons, h3]
    rfl
  · rw [hst3.data, hall]

/-- Behind the last zone there is no zone to begin in. -/
theorem readExt2FileBlocks_end (entry : Block → ℕ → Except ReadFault ℕ)
    (readInode : ℕ → Ext2Inode) (ino n : ℕ) (hlo : pos 3 ≤ lo) :
    readExt2FileBlocks entry disk readInode ino lo n = .error .noZone := by
  have hfind : (List.range 4).find? (fun i => lo < pos i) = none := by
    refine List.find?_range_eq_none.mpr fun i hi => ?_
    have hle : pos i ≤ lo := (pos_le_pos (Nat.le_of_lt_succ hi) (by decide : 3 < 4)).trans hlo
    rw [decide_eq_false (Nat.not_lt.mpr hle)]
    rfl
  rw [readExt2FileBlocks, zoneBlocks, findZones_eq, hfind]
  rfl

theorem not_reads_error {e : ReadFault} {l : List (ℕ × ℕ)} : ¬ Reads (.error e) n l :=
  fun ⟨_, h, _⟩ => by cases h

/-- **When a range of a file is read.**  For a range in the file the blocks that the tree assigns to
it are read, each to its place, just when the range is not the empty one at the very end. -/
theorem file_range_reads_iff (readInode : ℕ → Ext2Inode) (ino lo n : ℕ)
    (hn : lo + n ≤ ext2NdirBlocks + indirectBlks + doubleIndBlks + tripleIndBlks)
    (hbytes : n * ext2BlockSize < 2 ^ 31) :
    Reads (readExt2FileBlocks (viewEntry view) disk readInode ino lo n) n
        (dataList 0 (fun k => treeBlock (fun b => view (disk b)) (readInode ino) (lo + k)) n) ↔
      0 < n ∨ lo < ext2NdirBlocks + indirectBlks + doubleIndBlks + tripleIndBlks := by
  constructor
  · intro h
    by_contra hnot
    rw [not_or, not_lt, not_lt] at hnot
    rw [readExt2FileBlocks_end disk _ readInode ino n hnot.2] at h
    exact not_reads_error h
  · intro h
    refine readExt2FileBlocks_reads view disk readInode ino ?_ hn hbytes
    change lo < ext2NdirBlocks + indirectBlks + doubleIndBlks + tripleIndBlks
    omega

end Zones

/-- A range that meets three zones. -/
theorem file_range_reads_three_zones :
    Reads (readExt2FileBlocks (viewEntry fun buf i => buf.le32 (4 * i)) (fun _ => 0)
        (fun _ => ⟨fun i => i + 100⟩) 2 11 1026) 1026
      (dataList 0 (fun k => treeBlock (fun _ i => Bytes.le32 (0 : Block) (4 * i))
        ⟨fun i => i + 100⟩ (11 + k)) 1026) :=
  (file_range_reads_iff _ _ _ 2 11 1026 (by decide) (by decide)).mpr (Or.inl (by decide))

/-- **The empty range at the very end.**  The search for the first zone leaves `-1`. -/
theorem empty_range_at_end :
    1074791436 + 0 ≤ ext2NdirBlocks + indirectBlks + doubleIndBlks + tripleIndBlks ∧
      0 * ext2BlockSize < 2 ^ 31 ∧
      readExt2FileBlocks (viewEntry fun buf i => buf.le32 (4 * i)) (fun _ => 0)
        (fun _ => ⟨fun i => i + 100⟩) 2 1074791436 0 = .error .noZone ∧
      ¬ Reads (readExt2FileBlocks (viewEntry fun buf i => buf.le32 (4 * i)) (fun _ => 0)
        (fun _ => ⟨fun i => i + 100⟩) 2 1074791436 0) 0 [] := by
  have hend := readExt2FileBlocks_end (fun _ => 0) (viewEntry fun buf i => buf.le32 (4 * i))
    (fun _ => ⟨fun i => i + 100⟩) 2 0 (le_of_eq pos_eq.2.2.2)
  refine ⟨by decide, by decide, hend, ?_⟩
  rw [hend]
  exact not_reads_error

end Ext2File

end MemSmr
